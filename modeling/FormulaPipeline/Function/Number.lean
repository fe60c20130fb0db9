import FormulaPipeline.Evaluation.Arithmetic
import FormulaPipeline.Evaluation.Reduction
import FormulaPipeline.Function.Argument

/-!
# Functions on numbers

Reductions work on all arguments with arrays spread out. The others take a number and give a whole
result where there is one.
-/

namespace FormulaPipeline.Builtin

open Argument

/-- The numbers among the arguments and their entries. -/
def numbers (args : List Value) : List Numeric := Reduction.numbers (flatten args)

def sum (args : List Value) : Outcome := .ok (Reduction.sum (numbers args)).toValue

def average (args : List Value) : Outcome := .ok (Reduction.average (numbers args)).toValue

def greatest (args : List Value) : Outcome := .ok (Reduction.max (numbers args))

def least (args : List Value) : Outcome := .ok (Reduction.min (numbers args))

def numberCount (args : List Value) : Outcome := .ok (.int (Int64.ofInt (numbers args).length))

/-- The magnitude. That of the least integer is a float. -/
def magnitude (args : List Value) : Outcome :=
  match (nth args 0).toNumeric? with
  | some (.int n) =>
    match Integer.abs? n with
    | some m => .ok (.int m)
    | none => .ok (.float (Binary64.ofInt n.toInt).abs)
  | some (.float x) => .ok (.float x.abs)
  | none => do
    let x ← number args 0 "ABS"
    return (Numeric.ofFloat x.abs).toValue

/-- A number at a count of decimal places in floats. -/
def roundFloat (x : Binary64) (digits : Int) : Numeric :=
  let factor := Binary64.powTen (max (-300) (min 300 digits))
  .ofFloat ((x.mul factor).round.div factor)

/-- A number at a count of decimal places, halves going away from zero. A count that is not negative
is taken modulo `2 ^ 32` and applied in decimals where the number has one. -/
def roundNumber (x : Binary64) (digits : Int) : Numeric :=
  if 0 ≤ digits then
    match Decimal.ofBinary64? x with
    | some d => .ofDecimal (d.roundTo (digits.toNat % 4294967296))
    | none => roundFloat x digits
  else roundFloat x digits

def round (args : List Value) : Outcome := do
  let x ← number args 0 "ROUND"
  let digits ← integer args 1 0 "ROUND"
  return (roundNumber x digits).toValue

/-- The largest whole number that is not above. -/
def floor (args : List Value) : Outcome := do
  let x ← number args 0 "FLOOR"
  return (Numeric.ofFloat x.floor).toValue

/-- The least whole number that is not below. -/
def ceiling (args : List Value) : Outcome := do
  let x ← number args 0 "CEILING"
  return (Numeric.ofFloat x.ceil).toValue

def squareRoot (args : List Value) : Outcome := do
  let x ← number args 0 "SQRT"
  if x.lt (Binary64.zero false) then throw (.invalidArgument .negativeRoot)
  return (Numeric.ofFloat x.sqrt).toValue

/-- A base or an exponent; null counts as a float zero. -/
def powerOperand (args : List Value) (i : Nat) : Except EvalError Numeric := do
  let x ← number args i "POWER"
  return (nth args i).toNumeric?.getD (.float x)

def power (args : List Value) : Outcome := do
  let base ← powerOperand args 0
  let exponent ← powerOperand args 1
  Arithmetic.power base exponent

end FormulaPipeline.Builtin
