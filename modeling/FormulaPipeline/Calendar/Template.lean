import FormulaPipeline.Calendar.DateTime

/-!
# Writing dates

Dates are written through templates, in which a run of letters stands for a field, or in the two
forms that clock readings have.
-/

namespace FormulaPipeline.DateTime

/-- A number with zeros in front up to a width. -/
def padded (width n : Nat) : List Char :=
  let digits := Nat.toDigits 10 n
  List.replicate (width - digits.length) '0' ++ digits

/-- A year in four columns, of which a minus sign takes one. -/
def yearColumns (year : Int) : List Char :=
  if year < 0 then '-' :: padded 3 year.natAbs else padded 4 year.natAbs

/-- The text of a template; letters that name no field stand for themselves. -/
def fill (t : DateTime) : List Char → List Char
  | 'Y' :: 'Y' :: 'Y' :: 'Y' :: rest => yearColumns t.year ++ fill t rest
  | 'M' :: 'M' :: rest => padded 2 t.month ++ fill t rest
  | 'D' :: 'D' :: rest => padded 2 t.day ++ fill t rest
  | 'H' :: 'H' :: rest => padded 2 t.hour ++ fill t rest
  | 'm' :: 'm' :: rest => padded 2 t.minute ++ fill t rest
  | 's' :: 's' :: rest => padded 2 t.second ++ fill t rest
  | c :: rest => c :: fill t rest
  | [] => []

def format (t : DateTime) (template : String) : String := String.ofList (fill t template.toList)

/-- The template that is used when none is given. -/
def defaultTemplate : String := "YYYY-MM-DD"

/-- A year of four digits, or of at least four with a sign when it has other than four. -/
def signedYear (year : Int) : List Char :=
  if year < 0 then '-' :: padded 4 year.natAbs
  else if 9999 < year then '+' :: padded 4 year.natAbs
  else padded 4 year.natAbs

def dateChars (t : DateTime) : List Char :=
  signedYear t.year ++ '-' :: padded 2 t.month ++ '-' :: padded 2 t.day

/-- The day. -/
def toDate (t : DateTime) : String := String.ofList t.dateChars

/-- The interchange form in universal time. -/
def toInterchange (t : DateTime) : String :=
  String.ofList (t.dateChars ++ 'T' :: padded 2 t.hour ++ ':' :: padded 2 t.minute ++
    ':' :: padded 2 t.second ++ ['Z'])

end FormulaPipeline.DateTime
