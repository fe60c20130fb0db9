import FormulaPipeline.Number.Power

/-!
# Whole numbers of 64 bits

An operation on `Int64` is either exact or refused: the result is computed in `Int` and kept when it
is in range.
-/

namespace FormulaPipeline.Integer

open scoped FormulaPipeline.Power

/-- The least integer of 64 bits. -/
def least : Int := -9223372036854775808

/-- The largest integer of 64 bits. -/
def greatest : Int := 9223372036854775807

/-- The 64-bit integer equal to `n`, when there is one. -/
def ofInt? (n : Int) : Option Int64 :=
  if least ≤ n ∧ n ≤ greatest then some (Int64.ofInt n) else none

def add? (x y : Int64) : Option Int64 := ofInt? (x.toInt + y.toInt)

def sub? (x y : Int64) : Option Int64 := ofInt? (x.toInt - y.toInt)

def mul? (x y : Int64) : Option Int64 := ofInt? (x.toInt * y.toInt)

/-- The quotient, when it is whole and in range. -/
def exactDiv? (x y : Int64) : Option Int64 :=
  if y = 0 ∨ x.toInt.tmod y.toInt ≠ 0 then none else ofInt? (x.toInt.tdiv y.toInt)

/-- The remainder of the truncated quotient. It is refused together with a quotient that is out of
range. -/
def rem? (x y : Int64) : Option Int64 :=
  if y = 0 ∨ ofInt? (x.toInt.tdiv y.toInt) = none then none else ofInt? (x.toInt.tmod y.toInt)

def abs? (x : Int64) : Option Int64 := ofInt? x.toInt.natAbs

/-- `b ^ e`, when it is in range. From the 64th power on only `0`, `1` and `-1` are, and there the
parity of the exponent decides. -/
def pow? (b : Int64) (e : Nat) : Option Int64 :=
  if e < 64 then ofInt? (b.toInt ^ e)
  else if 2 ≤ b.toInt.natAbs then none
  else ofInt? (b.toInt ^ (2 + e % 2))

/-- The integer written by an optional sign and at least one digit, to the end of the text. -/
def readSigned : List Char → Option Int
  | [] => none
  | c :: rest =>
    let digits := if c = '+' ∨ c = '-' then rest else c :: rest
    if digits.isEmpty || !digits.all Char.isDigit then none
    else
      let n := Nat.ofDigitChars 10 digits 0
      some (if c = '-' then -n else n)

/-- The 64-bit integer that a text denotes. -/
def ofChars? (cs : List Char) : Option Int64 := (readSigned cs).bind ofInt?

end FormulaPipeline.Integer
