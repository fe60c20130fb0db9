import FormulaPipeline.Number.Binary64
import FormulaPipeline.Number.Integer

/-!
# Decimal numerals

Binary64 numbers as decimal text. Writing finds the coarsest power of ten of which a multiple still
reads back as the number; reading rounds the exact value of the text once.
-/

namespace FormulaPipeline.Binary64

open scoped FormulaPipeline.Power

/-! ## Reading -/

/-- The number nearest to `coefficient * 10 ^ exponent`. Values with more than 310 digits before the
point are past every finite number, and values below `10 ^ -330` are under half the least one. -/
def ofDecimal (negative : Bool) (coefficient : Nat) (exponent : Int) : Binary64 :=
  if coefficient = 0 then zero negative
  else
    let size : Int := (Nat.toDigits 10 coefficient).length + exponent
    if 310 < size then .infinite negative
    else if size < -330 then zero negative
    else if 0 ≤ exponent then ofRatio negative (coefficient * 10 ^ exponent.toNat) 1
    else ofRatio negative coefficient (10 ^ (-exponent).toNat)

/-- Digits with an optional point among them, as a coefficient and the number of places after the
point, and the text that follows. -/
def readPlaces (cs : List Char) : Option (Nat × Nat × List Char) :=
  let whole := cs.takeWhile Char.isDigit
  let places := match cs.dropWhile Char.isDigit with
    | '.' :: rest => rest.takeWhile Char.isDigit
    | _ => []
  let rest := match cs.dropWhile Char.isDigit with
    | '.' :: rest => rest.dropWhile Char.isDigit
    | rest => rest
  if whole.isEmpty && places.isEmpty then none
  else some (Nat.ofDigitChars 10 (whole ++ places) 0, places.length, rest)

/-- An exponent part, or nothing. -/
def readExponent : List Char → Option Int
  | [] => some 0
  | c :: rest => if c = 'e' ∨ c = 'E' then Integer.readSigned rest else none

def readUnsigned (negative : Bool) (cs : List Char) : Option Binary64 :=
  let word := cs.map Char.toLower
  if word = "inf".toList ∨ word = "infinity".toList then some (.infinite negative)
  else if word = "nan".toList then some .nan
  else do
    let (coefficient, places, rest) ← readPlaces cs
    let exponent ← readExponent rest
    return ofDecimal negative coefficient (exponent - places)

/-- The number that a text denotes: an optional sign, then digits with an optional point and an
optional exponent, or one of the words for the values that are not finite, in any case. -/
def ofChars? : List Char → Option Binary64
  | '-' :: rest => readUnsigned true rest
  | '+' :: rest => readUnsigned false rest
  | cs => readUnsigned false cs

/-! ## The shortest digits -/

/-- The largest `e` with `10 ^ e ≤ num / den`, for positive `num` and `den`. -/
def floorLog10 (num den : Nat) : Int :=
  if den ≤ num then (Nat.toDigits 10 (num / den)).length - 1
  else
    let n := (Nat.toDigits 10 (den / num)).length
    if den ≤ num * 10 ^ (n - 1) then 1 - n else -n

/-- The numbers that round to `m * 2 ^ q` reach from `low` to `high` quarters of `2 ^ q`, ends
included when the coefficient is even. Below a power of two the spacing halves. -/
structure Interval where
  low : Nat
  high : Nat
  closed : Bool
  deriving DecidableEq, Repr

def interval (m : Nat) (q : Int) : Interval where
  low := if m = leading ∧ -1074 < q then 4 * m - 1 else 4 * m - 2
  high := 4 * m + 2
  closed := m % 2 == 0

/-- Which of two equally near decimals is written. -/
inductive Tie where
  | up
  | even
  deriving DecidableEq, Repr

/-- The multiple of `10 ^ e` in the interval that is nearest to `m * 2 ^ q`; the answer is the
multiplier. -/
def multipleWithin (tie : Tie) (m : Nat) (q e : Int) : Option Nat :=
  let i := interval m q
  let fine := 2 ^ (q - 2).toNat * 10 ^ (-e).toNat
  let coarse := 10 ^ e.toNat * 2 ^ (2 - q).toNat
  let value := 4 * m * fine
  let below := value / coarse
  let lowFits := if i.closed then i.low * fine ≤ below * coarse else i.low * fine < below * coarse
  let highFits := if i.closed then (below + 1) * coarse ≤ i.high * fine
    else (below + 1) * coarse < i.high * fine
  let toLow := value - below * coarse
  let toHigh := (below + 1) * coarse - value
  let lowWins := toLow < toHigh ∨ toLow = toHigh ∧ tie = .even ∧ below % 2 = 0
  if lowFits ∧ (¬highFits ∨ lowWins) then some below
  else if highFits then some (below + 1)
  else none

/-- The first exponent from `e` downward of which a multiple lies in the interval. -/
def shortestFrom (tie : Tie) (m : Nat) (q : Int) : Nat → Int → Nat × Int
  | 0, e => (0, e)
  | fuel + 1, e =>
    match multipleWithin tie m q e with
    | some c => (c, e)
    | none => shortestFrom tie m q fuel (e - 1)

/-- The shortest decimal `c * 10 ^ e` that reads back as `m * 2 ^ q`. Seventeen digits always
suffice. -/
def shortest (tie : Tie) (m : Nat) (q : Int) : Nat × Int :=
  let e := floorLog10 (m * 2 ^ q.toNat) (2 ^ (-q).toNat)
  shortestFrom tie m q 20 (e + 1)

/-! ## Writing -/

def zeros (n : Nat) : List Char := List.replicate n '0'

/-- `c * 10 ^ e` in positional notation, without a point when it is whole. -/
def positional (c : Nat) (e : Int) : List Char :=
  let digits := Nat.toDigits 10 c
  let point : Int := digits.length + e
  if 0 ≤ e then digits ++ zeros e.toNat
  else if 0 < point then digits.take point.toNat ++ '.' :: digits.drop point.toNat
  else '0' :: '.' :: zeros (-point).toNat ++ digits

def sign (negative : Bool) : List Char := if negative then ['-'] else []

/-- The shortest positional text, a tie going up. A whole number has no point, and no exponent is
ever used. -/
def toChars : Binary64 → List Char
  | nan => "NaN".toList
  | infinite negative => sign negative ++ "inf".toList
  | finite negative m q _ =>
    if m = 0 then sign negative ++ ['0']
    else
      let (c, e) := shortest .up m q
      sign negative ++ positional c e

def toText (x : Binary64) : String := String.ofList x.toChars

/-- One digit, a point, the other digits and a signed exponent. -/
def scientific (c : Nat) (e : Int) : List Char :=
  let digits := Nat.toDigits 10 c
  let power : Int := digits.length - 1 + e
  let places := if digits.length = 1 then [] else '.' :: digits.drop 1
  let mark := if power < 0 then ['e', '-'] else ['e', '+']
  digits.take 1 ++ places ++ mark ++ Nat.toDigits 10 power.natAbs

/-- The text of a finite number in a document, a tie going to the even digit: positional from
`10 ^ -5` up to `10 ^ 16`, with a point even when it is whole, and scientific elsewhere. -/
def toDocumentChars : Binary64 → List Char
  | nan => "null".toList
  | infinite _ => "null".toList
  | finite negative m q _ =>
    if m = 0 then sign negative ++ "0.0".toList
    else
      let (c, e) := shortest .even m q
      let power : Int := (Nat.toDigits 10 c).length - 1 + e
      if power < -5 ∨ 15 < power then sign negative ++ scientific c e
      else if 0 ≤ e then sign negative ++ positional c e ++ ".0".toList
      else sign negative ++ positional c e

end FormulaPipeline.Binary64
