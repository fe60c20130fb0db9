import FormulaPipeline.Function.Argument
import FormulaPipeline.Text.Casing

/-!
# Functions on texts

Positions and lengths count characters.
-/

namespace FormulaPipeline.Builtin

open Argument

/-- The texts of all arguments, one after another. -/
def concatenate (args : List Value) : Outcome :=
  .ok (.text (String.join ((flatten args).map Value.toText)))

/-- The first characters. -/
def left (args : List Value) : Outcome := do
  let n ← count args 1 1 "LEFT"
  return .text (String.ofList ((nth args 0).toText.toList.take n))

/-- The last characters. -/
def right (args : List Value) : Outcome := do
  let n ← count args 1 1 "RIGHT"
  let cs := (nth args 0).toText.toList
  return .text (String.ofList (cs.drop (cs.length - n)))

/-- Characters from a position on, which counts from one. -/
def middle (args : List Value) : Outcome := do
  let start ← integer args 1 1 "MID"
  let n ← count args 2 Integer.greatest "MID"
  return .text (String.ofList (((nth args 0).toText.toList.drop (start - 1).toNat).take n))

/-- The number of characters of a text or of entries of an array. -/
def length (args : List Value) : Outcome :=
  match nth args 0 with
  | .array items => .ok (.int (Int64.ofInt items.length))
  | v => .ok (.int (Int64.ofInt v.toText.toList.length))

/-- A text with a change of its characters. -/
def mapText (f : List Char → List Char) (args : List Value) : Outcome :=
  .ok (.text (String.ofList (f (nth args 0).toText.toList)))

def lower : List Value → Outcome := mapText Text.toLower

def upper : List Value → Outcome := mapText Text.toUpper

def trim : List Value → Outcome := mapText Text.trim

end FormulaPipeline.Builtin
