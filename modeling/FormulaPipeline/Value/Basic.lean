import FormulaPipeline.Keyed
import FormulaPipeline.Number.Binary64

/-!
# Values

What flows through a formula: the kinds of JSON data, with whole numbers kept apart from floats, and
records, the rows of relational sets. Members and fields stand in key order.
-/

namespace FormulaPipeline

inductive Value where
  | null
  | bool (b : Bool)
  | int (n : Int64)
  | float (x : Binary64)
  | text (s : String)
  | array (items : List Value)
  | object (members : List (String × Value))
  | record (id : Option String) (fields : List (String × Value))
  deriving Inhabited

/-- A row of a relational set. -/
structure Record where
  id : Option String
  fields : List (String × Value)
  deriving Inhabited

namespace Record

/-- The record without an id and without fields. -/
def empty : Record := ⟨none, []⟩

def get? (r : Record) (name : String) : Option Value := Keyed.find? name r.fields

def toValue (r : Record) : Value := .record r.id r.fields

end Record

namespace Value

mutual

/-- Equality of values. A whole number never equals a float, and `nan` does not equal itself. -/
protected def beq : Value → Value → Bool
  | .null, .null => true
  | .bool a, .bool b => a == b
  | .int a, .int b => a == b
  | .float a, .float b => a.beq b
  | .text a, .text b => a == b
  | .array as, .array bs => beqItems as bs
  | .object as, .object bs => beqMembers as bs
  | .record i as, .record j bs => i == j && beqMembers as bs
  | _, _ => false

def beqItems : List Value → List Value → Bool
  | [], [] => true
  | a :: as, b :: bs => Value.beq a b && beqItems as bs
  | _, _ => false

def beqMembers : List (String × Value) → List (String × Value) → Bool
  | [], [] => true
  | (k, a) :: as, (l, b) :: bs => k == l && Value.beq a b && beqMembers as bs
  | _, _ => false

end

instance : BEq Value := ⟨Value.beq⟩

def isNull : Value → Bool
  | .null => true
  | _ => false

/-- Null, the empty text and the empty array count as empty. -/
def isEmpty : Value → Bool
  | .null => true
  | .text s => s.isEmpty
  | .array items => items.isEmpty
  | _ => false

/-- Whether a condition holds of the value. Zero, `nan` and empty data fail; every record passes. -/
def isTruthy : Value → Bool
  | .null => false
  | .bool b => b
  | .int n => n != 0
  | .float x => !x.isZero && !x.isNan
  | .text s => !s.isEmpty
  | .array items => !items.isEmpty
  | .object members => !members.isEmpty
  | .record .. => true

def isRecordLike : Value → Bool
  | .object _ => true
  | .record .. => true
  | _ => false

def typeName : Value → String
  | .null => "null"
  | .bool _ => "boolean"
  | .int _ => "integer"
  | .float _ => "float"
  | .text _ => "string"
  | .array _ => "array"
  | .object _ => "object"
  | .record .. => "record"

/-- A named field of a record or an object. An object that wraps its fields in a member `values` is
read through the wrapper first. -/
def field? (name : String) : Value → Option Value
  | .record _ fields => Keyed.find? name fields
  | .object members =>
    let inner := match Keyed.find? "values" members with
      | some (.object fields) => Keyed.find? name fields
      | some (.record _ fields) => Keyed.find? name fields
      | _ => none
    inner.or (Keyed.find? name members)
  | _ => none

/-- The field, or null. -/
def fieldD (name : String) (v : Value) : Value := (v.field? name).getD .null

end Value

end FormulaPipeline
