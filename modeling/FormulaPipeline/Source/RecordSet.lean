import FormulaPipeline.Value.Document

/-!
# Sets of records

A relational set holds records and declares fields. A record may keep the value of a field under the
id of the field or under its name.
-/

namespace FormulaPipeline

/-- A declared field. -/
structure FieldDef where
  id : String
  name : String
  deriving DecidableEq, Repr

structure RecordSet where
  name : String
  records : List Record
  fields : List FieldDef

namespace RecordSet

def fieldNamed? (set : RecordSet) (name : String) : Option FieldDef :=
  set.fields.find? (·.name == name)

def fieldWithId? (set : RecordSet) (id : String) : Option FieldDef :=
  set.fields.find? (·.id == id)

def toValue (set : RecordSet) : Value := .array (set.records.map Record.toValue)

/-- A declaration is an object with both texts, or an array of them. -/
def fieldOfJson? : Json → Option FieldDef
  | .object members => do
    let id ← (Keyed.find? "id" members).bind Json.string?
    let name ← (Keyed.find? "name" members).bind Json.string?
    return ⟨id, name⟩
  | .array [.string id, .string name] => some ⟨id, name⟩
  | _ => none

def fieldsOfJson? : Json → Option (List FieldDef)
  | .array items => items.mapM fieldOfJson?
  | _ => none

def recordsOfJson : Option Json → List Record
  | some (.array rows) => rows.map Record.ofJson
  | _ => []

/-- A set is an array of rows, or an object with rows under `records` and declarations under
`fields`; any other document is an empty set. Only declarations can be refused. -/
def ofJson? (name : String) : Json → Option RecordSet
  | .array rows => some ⟨name, rows.map Record.ofJson, []⟩
  | .object members =>
    let records := recordsOfJson (Keyed.find? "records" members)
    match Keyed.find? "fields" members with
    | some fields => (fieldsOfJson? fields).map fun fields => ⟨name, records, fields⟩
    | none => some ⟨name, records, []⟩
  | _ => some ⟨name, [], []⟩

end RecordSet

end FormulaPipeline
