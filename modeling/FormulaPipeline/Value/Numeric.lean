import FormulaPipeline.Number.Decimal
import FormulaPipeline.Number.Integer
import FormulaPipeline.Number.Numeral
import FormulaPipeline.Value.Basic

/-!
# Numbers of formulas

A number is whole or a float. Exact results come back whole where they can.
-/

namespace FormulaPipeline

inductive Numeric where
  | int (n : Int64)
  | float (x : Binary64)
  deriving DecidableEq

namespace Numeric

def toValue : Numeric → Value
  | int n => .int n
  | float x => .float x

def toFloat : Numeric → Binary64
  | int n => Binary64.ofInt n.toInt
  | float x => x

def toDecimal? : Numeric → Option Decimal
  | int n => Decimal.ofInt? n.toInt
  | float x => Decimal.ofBinary64? x

/-- A decimal as a whole number where it is one of 64 bits, and else as a float. -/
def ofDecimal (d : Decimal) : Numeric :=
  match if d.isWhole then Integer.ofInt? d.truncate else none with
  | some n => int n
  | none => float d.toBinary64

/-- A float, as a whole number where it is one of magnitude below `9 * 10 ^ 15`. -/
def ofFloat (x : Binary64) : Numeric :=
  if x.isWhole && x.abs.lt (Binary64.ofInt 9000000000000000) then
    int (Int64.ofInt (x.truncateTo Integer.least Integer.greatest))
  else float x

end Numeric

end FormulaPipeline
