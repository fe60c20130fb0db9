import FormulaPipeline.Json.Writer
import FormulaPipeline.Value.Basic
import FormulaPipeline.Number.Integer

/-!
# Values as documents

A document becomes a value by one rule: an object whose member `values` is an object is a record.
The way back writes a record in that shape and numbers that are not finite as null.
-/

namespace FormulaPipeline

/-- A whole number that is out of range becomes a float. -/
def Value.ofNumber (n : Int) : Value :=
  match Integer.ofInt? n with
  | some i => .int i
  | none => .float (Binary64.ofInt n)

/-- The id of a record: a text, or the text of a number. -/
def Record.idOf? (members : List (String × Json)) : Option String :=
  match Keyed.find? "id" members with
  | some (.string s) => some s
  | some (.int n) => some (toString n)
  | some (.float x) => some (String.ofList x.toDocumentChars)
  | _ => none

namespace Value

mutual

def ofJson : Json → Value
  | .null => .null
  | .bool b => .bool b
  | .int n => ofNumber n
  | .float x => .float x
  | .string s => .text s
  | .array items => .array (ofJsonItems items)
  | .object members =>
    match wrappedFields members with
    | some fields => .record (Record.idOf? members) fields
    | none => .object (ofJsonMembers members)

def ofJsonItems : List Json → List Value
  | [] => []
  | j :: rest => ofJson j :: ofJsonItems rest

def ofJsonMembers : List (String × Json) → List (String × Value)
  | [] => []
  | (k, j) :: rest => (k, ofJson j) :: ofJsonMembers rest

/-- The members of the object that stands under `values`, when one does. -/
def wrappedFields : List (String × Json) → Option (List (String × Value))
  | [] => none
  | (k, j) :: rest => if k = "values" then innerMembers j else wrappedFields rest

/-- The members of an object, whatever they are called. -/
def innerMembers : Json → Option (List (String × Value))
  | .object members => some (ofJsonMembers members)
  | _ => none

end

mutual

def toJson : Value → Json
  | .null => .null
  | .bool b => .bool b
  | .int n => .int n.toInt
  | .float x => if x.isFinite then .float x else .null
  | .text s => .string s
  | .array items => .array (toJsonItems items)
  | .object members => .object (toJsonMembers members)
  | .record none fields => .object [("values", .object (toJsonMembers fields))]
  | .record (some id) fields =>
    .object [("id", .string id), ("values", .object (toJsonMembers fields))]

def toJsonItems : List Value → List Json
  | [] => []
  | v :: rest => toJson v :: toJsonItems rest

def toJsonMembers : List (String × Value) → List (String × Json)
  | [] => []
  | (k, v) :: rest => (k, toJson v) :: toJsonMembers rest

end

end Value

/-- A record in the wrapped or in the flat shape; a document that is no object has no fields. -/
def Record.ofJson : Json → Record
  | .object members =>
    { id := Record.idOf? members
      fields := (Value.wrappedFields members).getD (Value.ofJsonMembers members) }
  | _ => Record.empty

end FormulaPipeline
