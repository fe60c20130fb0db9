import FormulaPipeline.Calendar.DateTime
import FormulaPipeline.Evaluation.Error
import FormulaPipeline.Value.Coercion

/-!
# Arguments of functions

Arguments are evaluated before a call, and one that is not given counts as null.
-/

namespace FormulaPipeline

/-- What a function sees besides its arguments: the current record and the clock. -/
structure CallContext where
  record : Option Record
  now : DateTime

/-- A function of the language. -/
abbrev Builtin := List Value → CallContext → Outcome

namespace Argument

/-- The argument at a position, or null. -/
def nth (args : List Value) (i : Nat) : Value := args.getD i .null

mutual

/-- The values of an argument list, with arrays replaced by their entries at every depth. -/
def flatten : List Value → List Value
  | [] => []
  | v :: rest => flattenOne v ++ flatten rest

def flattenOne : Value → List Value
  | .array items => flatten items
  | v => [v]

end

/-- An argument as a float; null counts as zero. -/
def number (args : List Value) (i : Nat) (function : String) : Except EvalError Binary64 :=
  match nth args i with
  | .null => .ok (Binary64.zero false)
  | v =>
    match v.toNumber? with
    | some x => .ok x
    | none => .error (.invalidArgument (.notNumber function v.typeName))

/-- An argument as an integer, cut toward zero and held to 64 bits; null stands for the default. -/
def integer (args : List Value) (i : Nat) (default : Int) (function : String) :
    Except EvalError Int :=
  match nth args i with
  | .null => .ok default
  | v =>
    match v.toNumber? with
    | some x => .ok (x.truncateTo Integer.least Integer.greatest)
    | none => .error (.invalidArgument (.notInteger function v.typeName))

/-- An argument as a count of characters. -/
def count (args : List Value) (i : Nat) (default : Int) (function : String) :
    Except EvalError Nat := do
  let n ← integer args i default function
  if n < 0 then throw (.invalidArgument (.negativeCount function))
  return n.toNat

/-- The text of an argument; null stands for the default. -/
def text (args : List Value) (i : Nat) (default : String) : String :=
  match nth args i with
  | .null => default
  | v => v.toText

end Argument

end FormulaPipeline
