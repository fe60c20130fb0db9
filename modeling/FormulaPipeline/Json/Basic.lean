import FormulaPipeline.Keyed
import FormulaPipeline.Number.Numeral

/-!
# JSON documents

A number is whole or binary64. `canonical` puts the members of every object in key order, the last
of several members with one name counting.
-/

namespace FormulaPipeline

inductive Json where
  | null
  | bool (b : Bool)
  | int (n : Int)
  | float (x : Binary64)
  | string (s : String)
  | array (items : List Json)
  | object (members : List (String × Json))
  deriving Inhabited

namespace Json

mutual

/-- Equality of documents; numbers of the two kinds differ, and floats compare as numbers. -/
protected def beq : Json → Json → Bool
  | .null, .null => true
  | .bool a, .bool b => a == b
  | .int a, .int b => a == b
  | .float a, .float b => a.beq b
  | .string a, .string b => a == b
  | .array as, .array bs => beqItems as bs
  | .object as, .object bs => beqMembers as bs
  | _, _ => false

def beqItems : List Json → List Json → Bool
  | [], [] => true
  | a :: as, b :: bs => Json.beq a b && beqItems as bs
  | _, _ => false

def beqMembers : List (String × Json) → List (String × Json) → Bool
  | [], [] => true
  | (k, a) :: as, (l, b) :: bs => k == l && Json.beq a b && beqMembers as bs
  | _, _ => false

end

instance : BEq Json := ⟨Json.beq⟩

mutual

/-- The document with the members of every object in key order. -/
def canonical : Json → Json
  | .array items => .array (canonicalItems items)
  | .object members => .object (Keyed.ofList (canonicalMembers members))
  | j => j

def canonicalItems : List Json → List Json
  | [] => []
  | j :: rest => canonical j :: canonicalItems rest

def canonicalMembers : List (String × Json) → List (String × Json)
  | [] => []
  | (k, j) :: rest => (k, canonical j) :: canonicalMembers rest

end

/-- The member of an object. -/
def member? (name : String) : Json → Option Json
  | .object members => Keyed.find? name members
  | _ => none

def string? : Json → Option String
  | .string s => some s
  | _ => none

/-- An object with its members in key order. -/
def ofMembers (members : List (String × Json)) : Json := .object (Keyed.ofList members)

end Json

end FormulaPipeline
