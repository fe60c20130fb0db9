import FormulaPipeline.Evaluation.Error
import FormulaPipeline.Value.Coercion

/-!
# Arithmetic and comparison of values

An operation on whole numbers is tried in 64 bits, then in decimals, then in floats; the first layer
that does not refuse answers. A float result that is not finite is an error.
-/

namespace FormulaPipeline

namespace Arithmetic

/-- An operation in the three layers. -/
structure Layers where
  whole : Int64 → Int64 → Option Int64
  decimal : Decimal → Decimal → Option Decimal
  float : Binary64 → Binary64 → Binary64

def addition : Layers := ⟨Integer.add?, Decimal.add?, Binary64.add⟩

def subtraction : Layers := ⟨Integer.sub?, Decimal.sub?, Binary64.sub⟩

def multiplication : Layers := ⟨Integer.mul?, Decimal.mul?, Binary64.mul⟩

def division : Layers := ⟨Integer.exactDiv?, Decimal.div?, Binary64.div⟩

def remainder : Layers := ⟨Integer.rem?, Decimal.rem?, Binary64.rem⟩

def Layers.whole? (k : Layers) : Numeric → Numeric → Option Numeric
  | .int x, .int y => (k.whole x y).map .int
  | _, _ => none

def Layers.decimal? (k : Layers) (a b : Numeric) : Option Numeric :=
  match a.toDecimal?, b.toDecimal? with
  | some x, some y => (k.decimal x y).map .ofDecimal
  | _, _ => none

def Layers.apply (k : Layers) (op : BinaryOp) (a b : Numeric) : Outcome :=
  match (k.whole? a b).or (k.decimal? a b) with
  | some r => .ok r.toValue
  | none =>
    let r := k.float a.toFloat b.toFloat
    if r.isFinite then .ok (.float r)
    else .error (.invalidArgument (.outOfRange a.toFloat op b.toFloat))

/-- A power of whole numbers that fits 64 bits is whole, and any other power is a float. -/
def power (base exponent : Numeric) : Outcome :=
  let whole? : Option Int64 := match base, exponent with
    | .int b, .int e =>
      if 0 ≤ e.toInt ∧ e.toInt < 4294967296 then Integer.pow? b e.toInt.toNat else none
    | _, _ => none
  match whole? with
  | some n => .ok (.int n)
  | none =>
    let r := base.toFloat.pow exponent.toFloat
    if r.isFinite then .ok (.float r)
    else .error (.invalidArgument (.infinitePower base.toFloat exponent.toFloat))

/-- An operand as a number; null counts as zero. -/
def operand (op : BinaryOp) : Value → Except EvalError Numeric
  | .null => .ok (.int 0)
  | v =>
    match v.toNumeric? with
    | some n => .ok n
    | none => .error (.typeMismatch (.operand op v.typeName))

/-- Whether a value is text that is no number. -/
def isPlainText : Value → Bool
  | .text s => (Value.text s).toNumeric?.isNone
  | _ => false

def operands (op : BinaryOp) (left right : Value) : Except EvalError (Numeric × Numeric) := do
  let a ← operand op left
  let b ← operand op right
  return (a, b)

/-- The layers on two operands. -/
def compute (k : Layers) (op : BinaryOp) (left right : Value) : Outcome := do
  let (a, b) ← operands op left right
  k.apply op a b

/-- The layers on a dividend and a divisor other than zero. -/
def computeNonzero (k : Layers) (op : BinaryOp) (left right : Value) : Outcome := do
  let (a, b) ← operands op left right
  if b.toFloat.isZero then throw .divisionByZero
  k.apply op a b

end Arithmetic

open Arithmetic in
/-- The result of an operator. A sum with text that is no number is a concatenation. -/
def BinaryOp.apply (op : BinaryOp) (left right : Value) : Outcome :=
  match op with
  | .add =>
    if isPlainText left || isPlainText right then .ok (.text (left.toText ++ right.toText))
    else compute addition .add left right
  | .subtract => compute subtraction .subtract left right
  | .multiply => compute multiplication .multiply left right
  | .divide => computeNonzero division .divide left right
  | .modulo => computeNonzero remainder .modulo left right
  | .power => do
    let (a, b) ← operands .power left right
    Arithmetic.power a b
  | .equal => .ok (.bool (left.looseEq right))
  | .notEqual => .ok (.bool !(left.looseEq right))
  | .less => .ok (.bool (left.compare? right == some .lt))
  | .greater => .ok (.bool (left.compare? right == some .gt))
  | .lessEqual =>
    .ok (.bool (left.compare? right == some .lt || left.compare? right == some .eq))
  | .greaterEqual =>
    .ok (.bool (left.compare? right == some .gt || left.compare? right == some .eq))

end FormulaPipeline
