import FormulaPipeline.Calendar.DateTime
import FormulaPipeline.Text.Class

/-!
# Reading dates

The strict interchange form with an offset, and three looser local forms. In the loose forms blanks
may stand before a number and numbers may be shorter. An offset is checked and then dropped, and a
leap second is read as the second before it.
-/

namespace FormulaPipeline.DateTime

/-- The fields that a form was read into. -/
structure Fields where
  year : Int
  month : Nat
  day : Nat
  hour : Nat
  minute : Nat
  second : Nat
  deriving DecidableEq, Repr

/-- The moment that the fields name. -/
def Fields.toDateTime? (f : Fields) : Option DateTime :=
  make? f.year f.month f.day f.hour f.minute (if f.second = 60 then 59 else f.second)

/-! ## Parts -/

/-- A reader takes characters from the front and leaves the rest. -/
abbrev PartReader (α : Type) := List Char → Option (α × List Char)

/-- A number of at least one digit; digits past the limit are left. -/
def readDigits (limit : Nat) : PartReader Nat := fun cs =>
  let digits := (cs.take limit).takeWhile Char.isDigit
  if digits.isEmpty then none else some (Nat.ofDigitChars 10 digits 0, cs.drop digits.length)

/-- A number of exactly that many digits. -/
def readExactly (count : Nat) : PartReader Nat := fun cs =>
  let digits := cs.take count
  if digits.length = count ∧ digits.all Char.isDigit then
    some (Nat.ofDigitChars 10 digits 0, cs.drop count)
  else none

def readMark (marks : List Char) : PartReader Unit
  | c :: rest => if marks.contains c then some ((), rest) else none
  | [] => none

/-- Nothing, or a point and at least one digit. -/
def readFraction : PartReader Unit
  | '.' :: rest =>
    if (rest.takeWhile Char.isDigit).isEmpty then none else some ((), rest.dropWhile Char.isDigit)
  | cs => some ((), cs)

/-! ## The interchange form -/

/-- An offset from universal time: a letter for none, or a sign, hours and minutes. -/
def readOffset : PartReader Unit := fun cs =>
  match readMark ['Z', 'z'] cs with
  | some r => some r
  | none => do
    let (_, cs) ← readMark ['+', '-', '−'] cs
    let (hours, cs) ← readExactly 2 cs
    let (_, cs) ← readMark [':'] cs
    let (minutes, cs) ← readExactly 2 cs
    if hours < 24 ∧ minutes < 60 then some ((), cs) else none

def readInterchange : PartReader Fields := fun cs => do
  let (year, cs) ← readExactly 4 cs
  let (_, cs) ← readMark ['-'] cs
  let (month, cs) ← readExactly 2 cs
  let (_, cs) ← readMark ['-'] cs
  let (day, cs) ← readExactly 2 cs
  let (_, cs) ← readMark ['T', 't', ' '] cs
  let (hour, cs) ← readExactly 2 cs
  let (_, cs) ← readMark [':'] cs
  let (minute, cs) ← readExactly 2 cs
  let (_, cs) ← readMark [':'] cs
  let (second, cs) ← readExactly 2 cs
  let (_, cs) ← readFraction cs
  let (_, cs) ← readOffset cs
  return (⟨year, month, day, hour, minute, second⟩, cs)

/-! ## The local forms -/

def skipBlanks (cs : List Char) : List Char := cs.dropWhile Text.isBlank

/-- One or two digits after blanks. -/
def readShort : PartReader Nat := fun cs => readDigits 2 (skipBlanks cs)

/-- A year after blanks: up to four digits, or any number of digits after a sign. -/
def readYear : PartReader Int := fun cs =>
  match skipBlanks cs with
  | '-' :: rest => (readDigits rest.length rest).map fun (n, rest) => (-(n : Int), rest)
  | '+' :: rest => (readDigits rest.length rest).map fun (n, rest) => ((n : Int), rest)
  | rest => (readDigits 4 rest).map fun (n, rest) => ((n : Int), rest)

def readDay : PartReader (Int × Nat × Nat) := fun cs => do
  let (year, cs) ← readYear cs
  let (_, cs) ← readMark ['-'] cs
  let (month, cs) ← readShort cs
  let (_, cs) ← readMark ['-'] cs
  let (day, cs) ← readShort cs
  return ((year, month, day), cs)

def readTime : PartReader (Nat × Nat × Nat) := fun cs => do
  let (hour, cs) ← readShort cs
  let (_, cs) ← readMark [':'] cs
  let (minute, cs) ← readShort cs
  let (_, cs) ← readMark [':'] cs
  let (second, cs) ← readShort cs
  return ((hour, minute, second), cs)

/-- A day and a time with blanks or nothing between them. -/
def readSpaced : PartReader Fields := fun cs => do
  let ((year, month, day), cs) ← readDay cs
  let ((hour, minute, second), cs) ← readTime cs
  return (⟨year, month, day, hour, minute, second⟩, cs)

/-- A day and a time with the letter between them, and a fraction that is dropped. -/
def readMarked : PartReader Fields := fun cs => do
  let ((year, month, day), cs) ← readDay cs
  let (_, cs) ← readMark ['T'] cs
  let ((hour, minute, second), cs) ← readTime cs
  let (_, cs) ← readFraction cs
  return (⟨year, month, day, hour, minute, second⟩, cs)

/-- A day alone, which stands for its midnight. -/
def readDate : PartReader Fields := fun cs => do
  let ((year, month, day), cs) ← readDay cs
  return (⟨year, month, day, 0, 0, 0⟩, cs)

/-! ## Texts -/

/-- The moment that a whole text names in one form. -/
def readWhole (reader : PartReader Fields) (cs : List Char) : Option DateTime :=
  match reader cs with
  | some (fields, []) => fields.toDateTime?
  | _ => none

/-- The moment that a text names in the first form that fits. -/
def ofChars? (cs : List Char) : Option DateTime :=
  (readWhole readInterchange cs).or ((readWhole readSpaced cs).or
    ((readWhole readMarked cs).or (readWhole readDate cs)))

end FormulaPipeline.DateTime
