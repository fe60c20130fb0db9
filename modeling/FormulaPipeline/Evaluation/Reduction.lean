import FormulaPipeline.Formula.Operator
import FormulaPipeline.Value.Coercion

/-!
# Reductions

Sums and means are exact in decimals and fall back to floats when a number or a partial sum does not
fit. Entries that are no numbers are left out.
-/

namespace FormulaPipeline

namespace Reduction

def numbers (values : List Value) : List Numeric := values.filterMap Value.toNumeric?

/-- The sum in floats, in list order. -/
def floatSum (ns : List Numeric) : Binary64 :=
  ns.foldl (fun total n => total.add n.toFloat) (Binary64.zero false)

/-- The sum in decimals, unless some number or partial sum does not fit. -/
def decimalSum? : Decimal → List Numeric → Option Decimal
  | total, [] => some total
  | total, n :: rest =>
    match n.toDecimal?.bind total.add? with
    | some total => decimalSum? total rest
    | none => none

def sum (ns : List Numeric) : Numeric :=
  match decimalSum? Decimal.zero ns with
  | some total => .ofDecimal total
  | none => .ofFloat (floatSum ns)

/-- The mean; zero for no numbers. -/
def average (ns : List Numeric) : Numeric :=
  if ns.isEmpty then .int 0
  else
    let mean? := do
      let total ← (sum ns).toDecimal?
      let count ← Decimal.ofInt? ns.length
      total.div? count
    match mean? with
    | some mean => .ofDecimal mean
    | none => .ofFloat ((floatSum ns).div (Binary64.ofNat false ns.length))

/-- The first number that no other one beats. -/
def best? (beats : Binary64 → Binary64 → Bool) : List Numeric → Option Numeric
  | [] => none
  | n :: rest =>
    some (rest.foldl (fun best m => if beats m.toFloat best.toFloat then m else best) n)

def orNull : Option Numeric → Value
  | some n => n.toValue
  | none => .null

/-- The least number, or null. -/
def min (ns : List Numeric) : Value := orNull (best? Binary64.lt ns)

/-- The largest number, or null. -/
def max (ns : List Numeric) : Value := orNull (best? (fun x y => y.lt x) ns)

/-- The entries of a collection; null has none, and any other value is its own only entry. -/
def entries : Value → List Value
  | .array items => items
  | .null => []
  | v => [v]

def project (property : Option String) (items : List Value) : List Value :=
  match property with
  | some name => items.map (Value.fieldD name)
  | none => items

end Reduction

open Reduction in
/-- Reduce a value, each entry projected to a property first when one is given. -/
def Aggregation.apply (mode : Aggregation) (property : Option String) (separator : String)
    (input : Value) : Value :=
  let items := project property (entries input)
  match mode with
  | .sum => (Reduction.sum (numbers items)).toValue
  | .avg => (average (numbers items)).toValue
  | .min => Reduction.min (numbers items)
  | .max => Reduction.max (numbers items)
  | .count => .int (Int64.ofInt items.length)
  | .first => items.head?.getD .null
  | .last => items.getLast?.getD .null
  | .concat =>
    .text (Text.join separator ((items.filter fun v => !v.isNull).map Value.toText))
  | .collect => .array items

end FormulaPipeline
