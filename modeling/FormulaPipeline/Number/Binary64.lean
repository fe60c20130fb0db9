import FormulaPipeline.Number.Power
import FormulaPipeline.Number.Rounding

/-!
# Binary64 numbers

The floating-point numbers of the formula language, as exact data: a finite number is a sign, a
coefficient and a power of two in normal form, so two finite numbers are equal exactly when their
bits are. Every operation computes the exact result and rounds it once, through `ofRatio`.
-/

namespace FormulaPipeline

open scoped FormulaPipeline.Power

/-- The least coefficient of 53 bits, `2 ^ 52`. -/
def Binary64.leading : Nat := 0x10000000000000

/-- The normal form of a finite number `m * 2 ^ q`: the coefficient has 53 bits unless the exponent
is the least one. -/
def Binary64.Canonical (m : Nat) (q : Int) : Prop :=
  m < 2 * leading ∧ -1074 ≤ q ∧ q ≤ 971 ∧ (leading ≤ m ∨ q = -1074)

instance (m : Nat) (q : Int) : Decidable (Binary64.Canonical m q) := by
  unfold Binary64.Canonical
  infer_instance

/-- A binary64 number; `finite negative m q` is `m * 2 ^ q` with the sign. There is one `nan`. -/
inductive Binary64 where
  | nan
  | infinite (negative : Bool)
  | finite (negative : Bool) (m : Nat) (q : Int) (canonical : Binary64.Canonical m q)
  deriving DecidableEq, Repr

namespace Binary64

/-- A coefficient in normal form, or the infinity of its sign when the exponent is too large. -/
def pack (negative : Bool) (m : Nat) (q : Int) : Binary64 :=
  if h : Canonical m q then .finite negative m q h else .infinite negative

def zero (negative : Bool) : Binary64 := .finite negative 0 (-1074) (by decide)

instance : Inhabited Binary64 := ⟨zero false⟩

/-- The largest `e` with `2 ^ e ≤ num / den`, for positive `num` and `den`. -/
def floorLog2 (num den : Nat) : Int :=
  let e : Int := (num.log2 : Int) - den.log2
  let below := if 0 ≤ e then num < den * 2 ^ e.toNat else num * 2 ^ (-e).toNat < den
  if below then e - 1 else e

/-- The number nearest to `num / den`, a tie going to the even coefficient. -/
def ofRatio (negative : Bool) (num den : Nat) : Binary64 :=
  if num = 0 then zero negative else
  let q := max (-1074) (floorLog2 num den - 52)
  let m := if 0 ≤ q then Rounding.halfEven num (den * 2 ^ q.toNat)
    else Rounding.halfEven (num * 2 ^ (-q).toNat) den
  if m = 2 * leading then pack negative leading (q + 1) else pack negative m q

/-- The number nearest to `m * 2 ^ q`. -/
def ofDyadic (negative : Bool) (m : Nat) (q : Int) : Binary64 :=
  if 0 ≤ q then ofRatio negative (m * 2 ^ q.toNat) 1 else ofRatio negative m (2 ^ (-q).toNat)

/-- The number nearest to a natural number, with the given sign. -/
def ofNat (negative : Bool) (n : Nat) : Binary64 := ofRatio negative n 1

/-- The number nearest to an integer. -/
def ofInt (n : Int) : Binary64 := ofNat (n < 0) n.natAbs

/-! ## Classes -/

def isFinite : Binary64 → Bool
  | finite .. => true
  | _ => false

def isNan : Binary64 → Bool
  | nan => true
  | _ => false

def isZero : Binary64 → Bool
  | finite _ 0 _ _ => true
  | _ => false

/-- Whether the sign is minus; `nan` has none. -/
def isNegative : Binary64 → Bool
  | nan => false
  | infinite negative => negative
  | finite negative _ _ _ => negative

/-- Whether the number is finite and whole. -/
def isWhole : Binary64 → Bool
  | finite _ m q _ => 0 ≤ q || m % 2 ^ (-q).toNat == 0
  | _ => false

/-! ## Sign and order -/

def neg : Binary64 → Binary64
  | nan => nan
  | infinite negative => infinite !negative
  | finite negative m q h => finite (!negative) m q h

def abs : Binary64 → Binary64
  | nan => nan
  | infinite _ => infinite false
  | finite _ m q h => finite false m q h

/-- The signed coefficient. -/
def signed (negative : Bool) (m : Nat) : Int := if negative then -m else m

/-- The order of two numbers; `none` when one of them is `nan`. Both zeros are equal. -/
def compare? : Binary64 → Binary64 → Option Ordering
  | nan, _ => none
  | _, nan => none
  | infinite a, infinite b => some (compare b.toNat a.toNat)
  | infinite a, finite .. => some (if a then .lt else .gt)
  | finite .., infinite b => some (if b then .gt else .lt)
  | finite a m q _, finite b n r _ =>
    let low := min q r
    some (compare (signed a (m * 2 ^ (q - low).toNat)) (signed b (n * 2 ^ (r - low).toNat)))

/-- Numeric equality: `nan` equals nothing, and the zeros equal each other. -/
protected def beq (x y : Binary64) : Bool := x.compare? y == some .eq

def lt (x y : Binary64) : Bool := x.compare? y == some .lt

def le (x y : Binary64) : Bool := x.lt y || x.beq y

/-! ## Arithmetic -/

def add : Binary64 → Binary64 → Binary64
  | nan, _ => nan
  | _, nan => nan
  | infinite a, infinite b => if a = b then infinite a else nan
  | infinite a, finite .. => infinite a
  | finite .., infinite b => infinite b
  | finite a m q _, finite b n r _ =>
    let low := min q r
    let sum := signed a (m * 2 ^ (q - low).toNat) + signed b (n * 2 ^ (r - low).toNat)
    if sum = 0 then zero (a && b) else ofDyadic (sum < 0) sum.natAbs low

def sub (x y : Binary64) : Binary64 := x.add y.neg

def mul : Binary64 → Binary64 → Binary64
  | nan, _ => nan
  | _, nan => nan
  | infinite a, infinite b => infinite (a ^^ b)
  | infinite a, finite b n _ _ => if n = 0 then nan else infinite (a ^^ b)
  | finite a m _ _, infinite b => if m = 0 then nan else infinite (a ^^ b)
  | finite a m q _, finite b n r _ => ofDyadic (a ^^ b) (m * n) (q + r)

def div : Binary64 → Binary64 → Binary64
  | nan, _ => nan
  | _, nan => nan
  | infinite _, infinite _ => nan
  | infinite a, finite b _ _ _ => infinite (a ^^ b)
  | finite a _ _ _, infinite b => zero (a ^^ b)
  | finite a m q _, finite b n r _ =>
    if n = 0 then if m = 0 then nan else infinite (a ^^ b)
    else if r ≤ q then ofRatio (a ^^ b) (m * 2 ^ (q - r).toNat) n
    else ofRatio (a ^^ b) m (n * 2 ^ (r - q).toNat)

/-- The remainder of the quotient truncated toward zero; it has the sign of the dividend. -/
def rem : Binary64 → Binary64 → Binary64
  | nan, _ => nan
  | _, nan => nan
  | infinite _, _ => nan
  | finite a m q h, infinite _ => finite a m q h
  | finite a m q _, finite _ n r _ =>
    if n = 0 then nan else
    let low := min q r
    ofDyadic a (m * 2 ^ (q - low).toNat % (n * 2 ^ (r - low).toNat)) low

/-- The square root. The integer root is taken with 55 bits or more, and an inexact root is put
strictly between two neighbours before it is rounded. -/
def sqrt : Binary64 → Binary64
  | nan => nan
  | infinite negative => if negative then nan else infinite false
  | finite negative m q _ =>
    if m = 0 then zero negative
    else if negative then nan
    else
      let half := (q - 120) / 2
      let square := m * 2 ^ (q - 2 * half).toNat
      let root := square.sqrt
      if root * root = square then ofDyadic false root half
      else ofDyadic false (2 * root + 1) (half - 1)

/-! ## Whole neighbours -/

/-- The magnitude cut at the point, and whether something was cut off. -/
def cut (m : Nat) (q : Int) : Nat × Bool :=
  if 0 ≤ q then (m * 2 ^ q.toNat, false)
  else (m / 2 ^ (-q).toNat, m % 2 ^ (-q).toNat != 0)

/-- Apply a rounding of the magnitude to the finite numbers. -/
def mapMagnitude (f : Bool → Nat → Int → Nat) : Binary64 → Binary64
  | finite negative m q _ => ofNat negative (f negative m q)
  | x => x

/-- The largest whole number that is not above. -/
def floor : Binary64 → Binary64 :=
  mapMagnitude fun negative m q => (cut m q).1 + (negative && (cut m q).2).toNat

/-- The least whole number that is not below. -/
def ceil : Binary64 → Binary64 :=
  mapMagnitude fun negative m q => (cut m q).1 + (!negative && (cut m q).2).toNat

/-- The nearest whole number, a tie going away from zero. -/
def round : Binary64 → Binary64 :=
  mapMagnitude fun _ m q =>
    if 0 ≤ q then m * 2 ^ q.toNat else Rounding.halfUp m (2 ^ (-q).toNat)

/-- The integer toward zero, held to the range `low` to `high`; `nan` gives zero. -/
def truncateTo (low high : Int) : Binary64 → Int
  | nan => 0
  | infinite negative => if negative then low else high
  | finite negative m q _ => max low (min high (signed negative (cut m q).1))

/-! ## Powers -/

/-- `base ^ n` by repeated squaring, each product rounded, starting from `acc`. -/
def powLoop : Nat → Binary64 → Binary64 → Nat → Binary64
  | 0, acc, _, _ => acc
  | fuel + 1, acc, base, n =>
    let acc := if n % 2 = 1 then acc.mul base else acc
    if n / 2 = 0 then acc else powLoop fuel acc (base.mul base) (n / 2)

/-- `10 ^ n` by repeated squaring in rounded arithmetic; a negative power is a reciprocal. -/
def powTen (n : Int) : Binary64 :=
  let r := powLoop (n.natAbs + 1) (ofInt 1) (ofInt 10) n.natAbs
  if n < 0 then (ofInt 1).div r else r

/-! ## The interchange encoding -/

/-- The weight of the sign, `2 ^ 63`. -/
def signBit : Nat := 0x8000000000000000

/-- The 64-bit encoding. The leading one of a coefficient with 53 bits carries into the exponent
field, so both normal forms are written by one sum. -/
def toBits : Binary64 → Nat
  | nan => 0x7ff8000000000000
  | infinite negative => negative.toNat * signBit + 2047 * leading
  | finite negative m q _ => negative.toNat * signBit + (q + 1074).toNat * leading + m

def ofBits (bits : Nat) : Binary64 :=
  let negative := bits / signBit % 2 == 1
  let exponent : Nat := bits / leading % 2048
  let fraction := bits % leading
  if exponent = 2047 then if fraction = 0 then .infinite negative else .nan
  else if exponent = 0 then pack negative fraction (-1074)
  else pack negative (leading + fraction) ((exponent : Int) - 1075)

/-- The power function of the platform's mathematical library. -/
def pow (x y : Binary64) : Binary64 :=
  ofBits ((Float.ofBits x.toBits.toUInt64).pow (Float.ofBits y.toBits.toUInt64)).toBits.toNat

end Binary64

end FormulaPipeline
