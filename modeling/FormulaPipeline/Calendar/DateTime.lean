/-!
# Dates and times

A date of the proleptic Gregorian calendar with a time of day in whole seconds, without a time zone.
-/

namespace FormulaPipeline

namespace Calendar

def isLeapYear (year : Int) : Bool := year % 4 == 0 && (year % 100 != 0 || year % 400 == 0)

/-- The days of the months from March on. The last entry is the February of a leap year. -/
def monthsFromMarch : List Nat := [31, 30, 31, 30, 31, 31, 30, 31, 30, 31, 31, 29]

/-- The number of days of a month; months count from one. -/
def daysInMonth (year : Int) (month : Nat) : Nat :=
  if month = 2 then if isLeapYear year then 29 else 28
  else monthsFromMarch.getD ((month + 9) % 12) 0

/-- The fields name a day of the supported years and a second of that day. -/
def Valid (year : Int) (month day hour minute second : Nat) : Prop :=
  (-262143 ≤ year ∧ year ≤ 262142) ∧ (1 ≤ month ∧ month ≤ 12) ∧
    (1 ≤ day ∧ day ≤ daysInMonth year month) ∧ hour < 24 ∧ minute < 60 ∧ second < 60

instance (year : Int) (month day hour minute second : Nat) :
    Decidable (Valid year month day hour minute second) := by
  unfold Valid
  infer_instance

end Calendar

structure DateTime where
  year : Int
  month : Nat
  day : Nat
  hour : Nat
  minute : Nat
  second : Nat
  valid : Calendar.Valid year month day hour minute second
  deriving DecidableEq

namespace DateTime

def make? (year : Int) (month day hour minute second : Nat) : Option DateTime :=
  if h : Calendar.Valid year month day hour minute second then
    some ⟨year, month, day, hour, minute, second, h⟩
  else none

/-- Midnight of the first day of 1970. -/
def epoch : DateTime := ⟨1970, 1, 1, 0, 0, 0, by decide⟩

instance : Inhabited DateTime := ⟨epoch⟩

/-! ## From a count of milliseconds -/

/-- The month, counted from the head of the list, and the day of the month of a day that is counted
from zero. -/
def monthAndDay : List Nat → Nat → Nat × Nat
  | [], day => (0, day + 1)
  | length :: rest, day =>
    if day < length then (0, day + 1)
    else ((monthAndDay rest (day - length)).1 + 1, (monthAndDay rest (day - length)).2)

/-- Year, month and day of a day that is counted from the first of March of the year zero. Years are
taken to begin in March, so that a leap day is the last day of its year, its four years and its four
centuries. -/
def civil (days : Int) : Int × Nat × Nat :=
  let era := days / 146097
  let day := (days % 146097).toNat
  let centuries := min (day / 36524) 3
  let day := day - centuries * 36524
  let quads := day / 1461
  let day := day % 1461
  let years := min (day / 365) 3
  let day := day - years * 365
  let (month, date) := monthAndDay Calendar.monthsFromMarch day
  let year := era * 400 + centuries * 100 + quads * 4 + years
  if month < 10 then (year, month + 3, date) else (year + 1, month - 9, date)

/-- The moment that lies a number of milliseconds after the epoch, cut to whole seconds. -/
def ofEpochMillis? (millis : Int) : Option DateTime :=
  let seconds := millis / 1000
  let time := (seconds % 86400).toNat
  let (year, month, day) := civil (seconds / 86400 + 719468)
  make? year month day (time / 3600) (time / 60 % 60) (time % 60)

end DateTime

end FormulaPipeline
