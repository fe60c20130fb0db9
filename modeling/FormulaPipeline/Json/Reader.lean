import FormulaPipeline.Json.Basic

/-!
# Reading JSON text

The strict grammar: no trailing commas, no comments, no lone surrogates, no number past the finite
ones. A whole number of 64 bits is read exactly and any other number is rounded. Containers may be
nested 127 deep.
-/

namespace FormulaPipeline.Json

/-- A reader takes characters from the front and leaves the rest. -/
abbrev Reader (α : Type) := List Char → Option (α × List Char)

def isSpace (c : Char) : Bool := c = ' ' || c = '\n' || c = '\t' || c = '\r'

def skipSpace (cs : List Char) : List Char := cs.dropWhile isSpace

/-! ## Strings -/

def hexDigit? (c : Char) : Option Nat :=
  if '0' ≤ c ∧ c ≤ '9' then some (c.toNat - 48)
  else if 'a' ≤ c ∧ c ≤ 'f' then some (c.toNat - 87)
  else if 'A' ≤ c ∧ c ≤ 'F' then some (c.toNat - 55)
  else none

def hexUnit? (a b c d : Char) : Option Nat := do
  return 4096 * (← hexDigit? a) + 256 * (← hexDigit? b) + 16 * (← hexDigit? c) + (← hexDigit? d)

def shortEscape? : Char → Option Char
  | '"' => some '"'
  | '\\' => some '\\'
  | '/' => some '/'
  | 'b' => some '\x08'
  | 'f' => some '\x0c'
  | 'n' => some '\n'
  | 'r' => some '\r'
  | 't' => some '\t'
  | _ => none

/-- The code units of a string, whose opening quote has been taken. -/
def readUnits : Reader (List Nat)
  | [] => none
  | '"' :: rest => some ([], rest)
  | '\\' :: 'u' :: a :: b :: c :: d :: rest =>
    match hexUnit? a b c d, readUnits rest with
    | some n, some (units, rest) => some (n :: units, rest)
    | _, _ => none
  | '\\' :: c :: rest =>
    match shortEscape? c, readUnits rest with
    | some e, some (units, rest) => some (e.toNat :: units, rest)
    | _, _ => none
  | c :: rest =>
    if c.toNat < 32 then none
    else match readUnits rest with
      | some (units, rest) => some (c.toNat :: units, rest)
      | none => none

def isHighSurrogate (n : Nat) : Bool := 0xd800 ≤ n && n < 0xdc00

def isLowSurrogate (n : Nat) : Bool := 0xdc00 ≤ n && n < 0xe000

/-- Code units as characters; surrogates count only in pairs. -/
def joinUnits : List Nat → Option (List Char)
  | [] => some []
  | [n] => if isHighSurrogate n || isLowSurrogate n then none else some [Char.ofNat n]
  | n :: m :: rest =>
    if isHighSurrogate n then
      if isLowSurrogate m then
        (joinUnits rest).map (Char.ofNat (0x10000 + (n - 0xd800) * 1024 + (m - 0xdc00)) :: ·)
      else none
    else if isLowSurrogate n then none
    else (joinUnits (m :: rest)).map (Char.ofNat n :: ·)

def readString : Reader String := fun cs => do
  let (units, rest) ← readUnits cs
  let chars ← joinUnits units
  return (String.ofList chars, rest)

/-! ## Numbers -/

/-- The digits before the point: a lone zero, or no leading zero. -/
def readWhole : Reader (List Char)
  | '0' :: rest => some (['0'], rest)
  | cs => if (cs.takeWhile Char.isDigit).isEmpty then none
    else some (cs.takeWhile Char.isDigit, cs.dropWhile Char.isDigit)

/-- The digits after the point, when there is one. -/
def readFraction : Reader (List Char)
  | '.' :: rest => if (rest.takeWhile Char.isDigit).isEmpty then none
    else some (rest.takeWhile Char.isDigit, rest.dropWhile Char.isDigit)
  | cs => some ([], cs)

/-- The exponent, when there is one. -/
def readPower : Reader (Option Int)
  | c :: rest =>
    if c = 'e' ∨ c = 'E' then
      let negative := rest.head? == some '-'
      let digits := if negative || rest.head? == some '+' then rest.drop 1 else rest
      if (digits.takeWhile Char.isDigit).isEmpty then none
      else
        let n := Nat.ofDigitChars 10 (digits.takeWhile Char.isDigit) 0
        some (some (if negative then -n else n), digits.dropWhile Char.isDigit)
    else some (none, c :: rest)
  | [] => some (none, [])

/-- Whole numerals of 64 bits are exact, with the sign of zero kept by a float; the others are
rounded, and refused when they are too large. -/
def numberOf (negative : Bool) (whole fraction : List Char) (power : Option Int) : Option Json :=
  let n := Nat.ofDigitChars 10 whole 0
  let exact := fraction.isEmpty && power.isNone
  if exact && !negative && n < 18446744073709551616 then some (.int n)
  else if exact && negative && 0 < n && Integer.least ≤ -n then some (.int (-n))
  else
    let coefficient := Nat.ofDigitChars 10 (whole ++ fraction) 0
    let x := Binary64.ofDecimal negative coefficient (power.getD 0 - fraction.length)
    if x.isFinite then some (.float x) else none

def readNumber : Reader Json := fun cs => do
  let negative := cs.head? == some '-'
  let (whole, rest) ← readWhole (if negative then cs.drop 1 else cs)
  let (fraction, rest) ← readFraction rest
  let (power, rest) ← readPower rest
  let number ← numberOf negative whole fraction power
  return (number, rest)

/-! ## Containers -/

/-- Items with commas between them, up to the closing bracket. -/
def readItems (item : Reader Json) : Nat → Reader (List Json)
  | 0, _ => none
  | fuel + 1, cs => do
    let (first, rest) ← item cs
    match skipSpace rest with
    | ']' :: rest => return ([first], rest)
    | ',' :: rest =>
      let (others, rest) ← readItems item fuel rest
      return (first :: others, rest)
    | _ => none

/-- Named members with commas between them, up to the closing brace. -/
def readMembers (item : Reader Json) : Nat → Reader (List (String × Json))
  | 0, _ => none
  | fuel + 1, cs => do
    match skipSpace cs with
    | '"' :: rest =>
      let (name, rest) ← readString rest
      match skipSpace rest with
      | ':' :: rest =>
        let (first, rest) ← item rest
        match skipSpace rest with
        | '\x7d' :: rest => return ([(name, first)], rest)
        | ',' :: rest =>
          let (others, rest) ← readMembers item fuel rest
          return ((name, first) :: others, rest)
        | _ => none
      | _ => none
    | _ => none

def readArray (item : Reader Json) : Reader Json := fun cs =>
  match skipSpace cs with
  | ']' :: rest => some (.array [], rest)
  | cs => (readItems item cs.length cs).map fun (items, rest) => (.array items, rest)

def readObject (item : Reader Json) : Reader Json := fun cs =>
  match skipSpace cs with
  | '\x7d' :: rest => some (.object [], rest)
  | cs => (readMembers item cs.length cs).map fun (members, rest) => (.object members, rest)

/-- One value, in which at most `depth` containers are nested. -/
def readValue (depth : Nat) : Reader Json := fun cs =>
  match skipSpace cs with
  | 'n' :: 'u' :: 'l' :: 'l' :: rest => some (.null, rest)
  | 't' :: 'r' :: 'u' :: 'e' :: rest => some (.bool true, rest)
  | 'f' :: 'a' :: 'l' :: 's' :: 'e' :: rest => some (.bool false, rest)
  | '"' :: rest => (readString rest).map fun (s, rest) => (.string s, rest)
  | '[' :: rest =>
    match depth with
    | 0 => none
    | depth + 1 => readArray (readValue depth) rest
  | '\x7b' :: rest =>
    match depth with
    | 0 => none
    | depth + 1 => readObject (readValue depth) rest
  | cs => readNumber cs

/-- How many containers may be nested. -/
def maxDepth : Nat := 127

/-- The document that a text holds, the members of its objects as they are written, when no more
containers are nested than the limit allows. -/
def readWithin? (limit : Nat) (text : String) : Option Json := do
  let (j, rest) ← readValue limit text.toList
  if (skipSpace rest).isEmpty then some j else none

/-- The document that a text holds, the members of its objects as they are written. -/
def readWritten? (text : String) : Option Json := readWithin? maxDepth text

/-- The document that a text holds. -/
def read? (text : String) : Option Json := (readWritten? text).map canonical

end FormulaPipeline.Json
