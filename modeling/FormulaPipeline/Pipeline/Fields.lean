import FormulaPipeline.Pipeline.Fault
import FormulaPipeline.Pipeline.Step
import FormulaPipeline.Value.Document

/-!
# Fields of stored steps

The fields of a step stand in an object by name or in an array by position. Both are read by the
same readers, and the two differ in which of several faults is reported.
-/

namespace FormulaPipeline

namespace Step

/-- A field of a stored step: its document, and that document read as a pipeline and as a list of
pipelines. -/
structure Part where
  json : Json
  pipeline : Unit → Option Pipeline
  pipelines : Unit → Except StepFault (List Pipeline)

/-- The fields of a stored step, by name or by position. -/
inductive Fields where
  | named (members : List (String × Part))
  | listed (items : List Part)

namespace Fields

/-- Take out the field that tells the kind of step. -/
def tag? (name : String) : Fields → Option (Part × Fields)
  | named members =>
    (Keyed.find? name members).map fun part => (part, named (Keyed.erase name members))
  | listed [] => none
  | listed (part :: rest) => some (part, listed rest)

/-- The field with a name and a position. -/
def get? (index : Nat) (name : String) : Fields → Option Part
  | named members => Keyed.find? name members
  | listed items => items[index]?

/-- Read a field when it is there. -/
def read {α : Type} (fields : Fields) (index : Nat) (name : String)
    (reader : Part → Except StepFault α) : Except StepFault (Option α) :=
  match fields.get? index name with
  | some part => (reader part).map some
  | none => .ok none

/-- What became of a field: its name, whether it may be missing, and how reading it went. -/
structure Reading where
  name : String
  optional : Bool
  result : Except StepFault Bool

def reading {α : Type} (name : String) (optional : Bool) (r : Except StepFault (Option α)) :
    Reading :=
  ⟨name, optional, r.map Option.isSome⟩

/-- The fault of the first named field in key order that cannot be read. -/
def namedFault? (readings : List Reading) : Option StepFault :=
  (Keyed.ofList (readings.map fun o => (o.name, o.result))).findSome? fun (_, r) =>
    match r with
    | .error fault => some fault
    | .ok _ => none

def missingFault? (readings : List Reading) : Option StepFault :=
  readings.findSome? fun o =>
    match o.result with
    | .ok false => if o.optional then none else some (.missingField o.name)
    | _ => none

/-- The first fault of listed fields; a field that is missing ends the list too early. -/
def listedFault? (wanted : String) : Nat → List Reading → Option StepFault
  | _, [] => none
  | index, o :: rest =>
    match o.result with
    | .error fault => some fault
    | .ok present =>
      if present || o.optional then listedFault? wanted (index + 1) rest
      else some (.invalidLength index wanted)

def elements (n : Nat) : String := if n = 1 then "1 element" else toString n ++ " elements"

/-- The fault that a set of fields is refused with. Named fields are all read before one is missed;
listed fields are read in order, and none may be left over. -/
def fault? (owner : String) (readings : List Reading) : Fields → Option StepFault
  | named _ => (namedFault? readings).or (missingFault? readings)
  | listed items =>
    let n := readings.length
    (listedFault? (owner ++ " with " ++ elements n) 0 readings).or <|
      if n < items.length then some (.invalidLength items.length (elements n ++ " in sequence"))
      else none

/-- The result of reading the fields, unless they are refused. -/
def finish {α : Type} (fields : Fields) (owner : String) (readings : List Reading)
    (result : Option α) : Except StepFault α :=
  match fields.fault? owner readings, result with
  | some fault, _ => .error fault
  | none, some a => .ok a
  | none, none => .error (.missingField owner)

end Fields

def fieldOf {α : Type} (r : Except StepFault (Option α)) : Option α :=
  match r with
  | .ok a => a
  | .error _ => none

/-! ## Readers of fields -/

def readText (part : Part) : Except StepFault String :=
  match part.json with
  | .string s => .ok s
  | j => .error (.invalidType j "a string")

def readOptionalText (part : Part) : Except StepFault (Option String) :=
  match part.json with
  | .null => .ok none
  | _ => (readText part).map some

def readWord {α : Type} (all : List α) (word : α → String) (s : String) : Except StepFault α :=
  match ofWord? all word s with
  | some a => .ok a
  | none => .error (.unknownVariant s (all.map word))

/-- A value of a vocabulary: its word, or an object with the word as its only member and nothing in
it. -/
def readVariant {α : Type} (all : List α) (word : α → String) (part : Part) : Except StepFault α :=
  match part.json with
  | .string s => readWord all word s
  | .object [(s, content)] => do
    let a ← readWord all word s
    match content with
    | .null | .object [] => return a
    | j => throw (.invalidType j "unit")
  | .object members => .error (.invalidValue (.object members) "map with a single key")
  | j => .error (.invalidType j "string or map")

def readValue (part : Part) : Except StepFault Value := .ok (Value.ofJson part.json)

def readPipeline (part : Part) : Except StepFault Pipeline :=
  match part.pipeline () with
  | some p => .ok p
  | none => .error (.invalidType part.json "a sequence")

def readCondition (part : Part) : Except StepFault Condition :=
  let plain (j : Json) : Part := ⟨j, fun _ => none, fun _ => .ok []⟩
  let read (fields : Fields) : Except StepFault Condition :=
    let field := fields.read 0 "field" readText
    let test := fields.read 1 "op" (readVariant Test.all Test.word)
    let value := fields.read 2 "value" readValue
    fields.finish "struct Condition"
      [Fields.reading "field" false field, Fields.reading "op" false test,
        Fields.reading "value" true value] do
      return ⟨← fieldOf field, ← fieldOf test, (fieldOf value).getD .null⟩
  match part.json with
  | .object members => read (.named (members.map fun (k, j) => (k, plain j)))
  | .array items => read (.listed (items.map plain))
  | j => .error (.invalidType j "struct Condition")

end Step

end FormulaPipeline
