import FormulaPipeline.Source.RecordSet

/-!
# Data sources

A source answers two questions: which set has a name, and which records a field of a record links
to. The source that is given by a list of sets reads links from the record itself.
-/

namespace FormulaPipeline

structure DataSource where
  set? : String → Option RecordSet
  linked? : Record → String → Option (List Record)

namespace DataSource

/-- The first record with an id in a list of sets. -/
def findRecord? (sets : List (String × RecordSet)) (id : String) : Option Record :=
  (sets.flatMap fun entry => entry.2.records).find? (·.id == some id)

/-- The record that an entry of a linking field stands for: itself, or the record with that id. -/
def linkTarget? (sets : List (String × RecordSet)) : Value → Option Record
  | .record id fields => some ⟨id, fields⟩
  | .object members => some (Record.ofJson (Value.object members).toJson)
  | .text id => findRecord? sets id
  | _ => none

/-- The entries of a linking field; a single value is its own only entry. -/
def linkEntries : Value → List Value
  | .array items => items
  | v => [v]

/-- The source that is made of named sets. -/
def ofSets (sets : List (String × RecordSet)) : DataSource where
  set? name := Keyed.find? name sets
  linked? record field :=
    (record.get? field).map fun v => (linkEntries v).filterMap (linkTarget? sets)

/-- The source that a document of sets by name describes, unless one of them is refused. -/
def ofJsonMembers? (members : List (String × Json)) : Option DataSource := do
  let sets ← members.mapM fun (name, j) => (RecordSet.ofJson? name j).map (name, ·)
  return ofSets (Keyed.ofList sets)

end DataSource

end FormulaPipeline
