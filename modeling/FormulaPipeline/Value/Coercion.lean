import FormulaPipeline.Value.Numeric
import FormulaPipeline.Value.Rendering

/-!
# Values as numbers

Text counts as a number when it is one between blanks. Loose equality compares numbers where both
sides have one and texts elsewhere.
-/

namespace FormulaPipeline.Value

/-- The number of a numeric value. -/
def asFloat? : Value → Option Binary64
  | .int n => some (Binary64.ofInt n.toInt)
  | .float x => some x
  | _ => none

/-- The finite number that a text holds between blanks. -/
def numberIn? (s : String) : Option Binary64 :=
  (Binary64.ofChars? (Text.trim s.toList)).filter (·.isFinite)

/-- The finite number of a value or of its text. -/
def toNumber? : Value → Option Binary64
  | .int n => some (Binary64.ofInt n.toInt)
  | .float x => if x.isFinite then some x else none
  | .text s => numberIn? s
  | _ => none

/-- Like `toNumber?`, with whole numbers kept whole. -/
def toNumeric? : Value → Option Numeric
  | .int n => some (.int n)
  | .float x => if x.isFinite then some (.float x) else none
  | .text s =>
    match Integer.ofChars? (Text.trim s.toList) with
    | some n => some (.int n)
    | none => (numberIn? s).map .float
  | _ => none

def looseEq (a b : Value) : Bool :=
  match a.toNumber?, b.toNumber? with
  | some x, some y => x.beq y
  | _, _ =>
    match a, b with
    | .bool p, .bool q => p == q
    | _, _ => a.toText == b.toText

/-- The order of two values: of numbers by size, of texts by code points, and none otherwise. -/
def compare? (a b : Value) : Option Ordering :=
  match a.toNumber?, b.toNumber? with
  | some x, some y => x.compare? y
  | _, _ =>
    match a, b with
    | .text s, .text t => some (compareOfLessAndEq s t)
    | _, _ => none

end FormulaPipeline.Value
