import FormulaPipeline.Number.Binary64

/-!
# Decimals of 96 bits

Mixed arithmetic runs on decimals, so that `0.1 + 0.2` is `0.3`. A decimal is a coefficient of at
most 96 bits over a power of ten with at most 28 places. An operation computes the exact result and
keeps as many places as fit.
-/

namespace FormulaPipeline

open scoped FormulaPipeline.Power

/-- What coefficients stay below, `2 ^ 96`. -/
def Decimal.limit : Nat := 0x1000000000000000000000000

/-- The number `coefficient / 10 ^ scale`. -/
structure Decimal where
  coefficient : Int
  scale : Nat
  coefficient_lt : coefficient.natAbs < Decimal.limit
  scale_le : scale ≤ 28
  deriving DecidableEq, Repr

namespace Decimal

def make? (coefficient : Int) (scale : Nat) : Option Decimal :=
  if h : coefficient.natAbs < limit ∧ scale ≤ 28 then some ⟨coefficient, scale, h.1, h.2⟩ else none

def zero : Decimal := ⟨0, 0, by decide, by decide⟩

def ofInt? (n : Int) : Option Decimal := make? n 0

/-- The quotient `num / den` with as many places as fit, at most `places`, a tie going to the even
digit. It is refused when its whole part does not fit. -/
def ofQuotient? (num : Int) (den : Nat) : Nat → Option Decimal
  | 0 => make? (num.sign * Rounding.halfEven num.natAbs den) 0
  | places + 1 =>
    match make? (num.sign * Rounding.halfEven (num.natAbs * 10 ^ (places + 1)) den)
        (places + 1) with
    | some d => some d
    | none => ofQuotient? num den places

/-! ## Arithmetic -/

/-- The coefficient over `10 ^ scale`, for a scale that is not smaller. -/
def coefficientAt (d : Decimal) (scale : Nat) : Int := d.coefficient * 10 ^ (scale - d.scale)

def neg (d : Decimal) : Decimal :=
  ⟨-d.coefficient, d.scale, by rw [Int.natAbs_neg]; exact d.coefficient_lt, d.scale_le⟩

/-- The sum at the larger of both scales. A zero leaves the other operand as it is. -/
def add? (x y : Decimal) : Option Decimal :=
  if x.coefficient = 0 then some y
  else if y.coefficient = 0 then some x
  else
    let scale := max x.scale y.scale
    ofQuotient? (x.coefficientAt scale + y.coefficientAt scale) (10 ^ scale) scale

def sub? (x y : Decimal) : Option Decimal := x.add? y.neg

def mul? (x y : Decimal) : Option Decimal :=
  let scale := x.scale + y.scale
  ofQuotient? (x.coefficient * y.coefficient) (10 ^ scale) (min 28 scale)

/-- Drop the places that hold zeros. -/
def dropZeros : Nat → Nat → Nat × Nat
  | 0, b => (b, 0)
  | places + 1, b => if b % 10 = 0 then dropZeros places (b / 10) else (b, places + 1)

/-- The same number without the places that hold zeros. -/
def trimZeros (d : Decimal) : Decimal :=
  let (c, places) := dropZeros d.scale d.coefficient.natAbs
  (make? (d.coefficient.sign * c) places).getD d

/-- A quotient that is exact with the places of the dividend beyond those of the divisor has these
places. Any other one is taken with as many places as fit, and zeros at its end are dropped. -/
def div? (x y : Decimal) : Option Decimal :=
  if y.coefficient = 0 then none else
  let num := x.coefficient * y.coefficient.sign * 10 ^ y.scale
  let den := y.coefficient.natAbs * 10 ^ x.scale
  let least := x.scale - y.scale
  if num.natAbs * 10 ^ least % den = 0 then ofQuotient? num den least
  else (ofQuotient? num den 28).map trimZeros

/-- The exact remainder, with the sign of the dividend. A dividend of smaller magnitude than the
divisor is its own remainder. -/
def rem? (x y : Decimal) : Option Decimal :=
  if y.coefficient = 0 then none else
  let scale := max x.scale y.scale
  let (c, d) := (x.coefficientAt scale, y.coefficientAt scale)
  if c.natAbs < d.natAbs then some x else make? (c.tmod d) scale

/-- At most `places` places, a tie going away from zero. -/
def roundTo (d : Decimal) (places : Nat) : Decimal :=
  if d.scale ≤ places then d
  else
    let c := Rounding.halfUp d.coefficient.natAbs (10 ^ (d.scale - places))
    (make? (d.coefficient.sign * c) places).getD d

/-! ## Whole values -/

def isWhole (d : Decimal) : Bool := d.coefficient % 10 ^ d.scale == 0

/-- The integer toward zero. -/
def truncate (d : Decimal) : Int := d.coefficient.tdiv (10 ^ d.scale)

/-! ## From and to binary64

A binary64 number `b * 2 ^ x` is `b * 5 ^ (-x) * 10 ^ x`. The conversion works one factor at a time
and drops digits only when the coefficient is full. -/

/-- Multiply by `5`, `n` times, over the power `10 ^ e`; a factor `2` of the coefficient goes into
the power instead, and a full coefficient is halved. -/
def absorbFives : Nat → Nat → Int → Nat × Int
  | 0, b, e => (b, e)
  | n + 1, b, e =>
    if b % 2 = 0 then absorbFives n (b / 2) (e + 1)
    else if b * 5 < limit then absorbFives n (b * 5) e
    else absorbFives n (b / 2) (e + 1)

/-- Divide by `5`, `n` times, over the power `10 ^ e`. A coefficient with room is doubled and takes
its factor from the power instead. -/
def releaseFives : Nat → Nat → Int → Option (Nat × Int)
  | 0, b, e => some (b, e)
  | n + 1, b, e =>
    if b * 2 < limit then releaseFives n (b * 2) (e - 1)
    else if (n : Int) + 1 < e * 2 then none
    else releaseFives n (b / 5) e

/-- Multiply by `10`, `n` times, while the coefficient fits. -/
def absorbTens : Nat → Nat → Option Nat
  | 0, b => some b
  | n + 1, b => if b * 10 < limit then absorbTens n (b * 10) else none

/-- Drop places until 28 are left, each rounded half up; a coefficient that has become zero has no
places. -/
def dropPlaces : Nat → Nat → Nat → Nat × Nat
  | 0, b, places => (b, places)
  | n + 1, b, places =>
    if b / 10 = 0 then (0, 0)
    else if 5 ≤ b % 10 then dropPlaces n (b / 10 + 1) (places - 1)
    else dropPlaces n (b / 10) (places - 1)

/-- Drop places while the coefficient has more than 52 bits, each rounded half up. -/
def dropExcess : Nat → Nat → Nat × Nat
  | 0, b => (b, 0)
  | places + 1, b =>
    if b < Binary64.leading then (b, places + 1)
    else if 5 ≤ b % 10 then dropExcess places (b / 10 + 1)
    else dropExcess places (b / 10)

/-- The decimal near `b * 2 ^ x`. -/
def ofDyadic? (negative : Bool) (b : Nat) (x : Int) : Option Decimal := do
  let (b, e) ← if 0 ≤ x then releaseFives x.toNat b x else some (absorbFives (-x).toNat b x)
  let b ← absorbTens e.toNat b
  let (b, places) := dropPlaces ((-e).toNat - 28) b (-e).toNat
  let (b, places) := dropExcess places b
  let (b, places) := dropZeros places b
  make? (Binary64.signed negative b) places

/-- The decimal near a finite number, with about 16 digits; numbers that are not finite or too large
are refused, and numbers under half of `10 ^ -28` become zero. -/
def ofBinary64? : Binary64 → Option Decimal
  | .nan => none
  | .infinite _ => none
  | .finite negative m q _ => if m = 0 then some zero else ofDyadic? negative m q

/-- The whole part and the fraction are converted apart, and their sum is rounded to the decimal's
own places. -/
def magnitudeToBinary64 (coefficient scale : Nat) : Binary64 :=
  let whole := Binary64.ofNat false (coefficient / 10 ^ scale)
  let fraction := (Binary64.ofNat false (coefficient % 10 ^ scale)).div
    (Binary64.ofNat false (10 ^ scale))
  if scale = 0 ∨ fraction.isZero then whole
  else
    let unit := Binary64.powTen scale
    (((whole.add fraction).mul unit).round).div unit

def toBinary64 (d : Decimal) : Binary64 :=
  let x := magnitudeToBinary64 d.coefficient.natAbs d.scale
  if d.coefficient < 0 then x.neg else x

end Decimal

end FormulaPipeline
