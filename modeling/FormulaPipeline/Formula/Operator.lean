import FormulaPipeline.Text.Class
import FormulaPipeline.Value.Basic

/-!
# Operators of formulas and pipelines

Each vocabulary has a word for storage, and the arithmetic and filter operators have a symbol for
display.
-/

namespace FormulaPipeline

/-- The value of a vocabulary that has the given word. -/
def ofWord? {α : Type} (all : List α) (word : α → String) (s : String) : Option α :=
  all.find? fun a => word a == s

/-- Arithmetic and comparison. -/
inductive BinaryOp where
  | add
  | subtract
  | multiply
  | divide
  | modulo
  | power
  | equal
  | notEqual
  | less
  | greater
  | lessEqual
  | greaterEqual
  deriving DecidableEq, Repr

namespace BinaryOp

def all : List BinaryOp :=
  [add, subtract, multiply, divide, modulo, power, equal, notEqual, less, greater, lessEqual,
    greaterEqual]

def word : BinaryOp → String
  | add => "add"
  | subtract => "subtract"
  | multiply => "multiply"
  | divide => "divide"
  | modulo => "mod"
  | power => "power"
  | equal => "eq"
  | notEqual => "ne"
  | less => "lt"
  | greater => "gt"
  | lessEqual => "le"
  | greaterEqual => "ge"

def symbol : BinaryOp → String
  | add => "+"
  | subtract => "-"
  | multiply => "*"
  | divide => "/"
  | modulo => "%"
  | power => "^"
  | equal => "="
  | notEqual => "!="
  | less => "<"
  | greater => ">"
  | lessEqual => "<="
  | greaterEqual => ">="

def isComparison : BinaryOp → Bool
  | equal | notEqual | less | greater | lessEqual | greaterEqual => true
  | _ => false

end BinaryOp

/-- How a collection is reduced to one value. -/
inductive Aggregation where
  | sum
  | count
  | avg
  | min
  | max
  | first
  | last
  | concat
  | collect
  deriving DecidableEq, Repr

namespace Aggregation

def all : List Aggregation := [sum, count, avg, min, max, first, last, concat, collect]

def word : Aggregation → String
  | sum => "SUM"
  | count => "COUNT"
  | avg => "AVG"
  | min => "MIN"
  | max => "MAX"
  | first => "FIRST"
  | last => "LAST"
  | concat => "CONCAT"
  | collect => "COLLECT"

/-- The aggregation that a name stands for, in any case of its ASCII letters. -/
def ofName? (name : String) : Option Aggregation := ofWord? all word (Text.asciiUpper name)

end Aggregation

/-- The test of a filter. -/
inductive Test where
  | eq
  | ne
  | gt
  | ge
  | lt
  | le
  | contains
  | startsWith
  | endsWith
  | isEmpty
  | isNotEmpty
  deriving DecidableEq, Repr

namespace Test

def all : List Test :=
  [eq, ne, gt, ge, lt, le, contains, startsWith, endsWith, isEmpty, isNotEmpty]

def word : Test → String
  | eq => "eq"
  | ne => "ne"
  | gt => "gt"
  | ge => "ge"
  | lt => "lt"
  | le => "le"
  | contains => "contains"
  | startsWith => "startsWith"
  | endsWith => "endsWith"
  | isEmpty => "isEmpty"
  | isNotEmpty => "isNotEmpty"

/-- Comparisons are shown by their symbol and the other tests by their word. -/
def symbol : Test → String
  | eq => "="
  | ne => "!="
  | gt => ">"
  | ge => ">="
  | lt => "<"
  | le => "<="
  | t => t.word

/-- The tests that a formula names by a word. -/
def named : List Test := [contains, startsWith, endsWith, isEmpty, isNotEmpty]

/-- The test that a word stands for, in any case of its ASCII letters. -/
def ofName? (name : String) : Option Test :=
  ofWord? named (fun t => Text.asciiLower t.word) (Text.asciiLower name)

/-- Whether the test compares with a value. -/
def takesValue : Test → Bool
  | isEmpty | isNotEmpty => false
  | _ => true

end Test

/-- The declared type of a literal. -/
inductive LiteralType where
  | number
  | text
  | boolean
  | null
  deriving DecidableEq, Repr

namespace LiteralType

def all : List LiteralType := [number, text, boolean, null]

def word : LiteralType → String
  | number => "number"
  | text => "text"
  | boolean => "boolean"
  | null => "null"

/-- The type of a value; collections and records count as text. -/
def of : Value → LiteralType
  | .int _ | .float _ => number
  | .bool _ => boolean
  | .null => null
  | _ => text

end LiteralType

end FormulaPipeline
