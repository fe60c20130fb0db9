import FormulaPipeline.Function.Date
import FormulaPipeline.Proofs.Value.Numerals
import Mathlib.Data.List.TakeWhile

/-!
# Formatted dates read back

A date that is written through the full template names its own moment without the part of the
second, and one that is written through the default template names the midnight of its day. The
first form refuses both texts for want of an offset, and each is read by the form it was written in.
-/

namespace FormulaPipeline

/-! ## Exact moments -/

/-- A moment with all that its text or its count says: a leap second goes on from the second before
it, and a part of the second may follow. -/
structure Instant where
  time : DateTime
  leap : Bool
  fraction : ℚ

namespace DateTime

/-- The number after the point of a text. -/
def fractionIn (cs : List Char) : ℚ :=
  let digits := ((cs.dropWhile (· != '.')).drop 1).takeWhile Char.isDigit
  Nat.ofDigitChars 10 digits 0 / 10 ^ digits.length

def instantWhole? (reader : PartReader Fields) (cs : List Char) : Option Instant :=
  match reader cs with
  | some (fields, []) => fields.toDateTime?.map fun t => ⟨t, fields.second == 60, fractionIn cs⟩
  | _ => none

/-- The exact moment that a text names in the first form that fits. -/
def instantOfChars? (cs : List Char) : Option Instant :=
  (instantWhole? readInterchange cs).or ((instantWhole? readSpaced cs).or
    ((instantWhole? readMarked cs).or (instantWhole? readDate cs)))

/-- The first moment of the day. -/
def midnight (t : DateTime) : DateTime where
  year := t.year
  month := t.month
  day := t.day
  hour := 0
  minute := 0
  second := 0
  valid := ⟨t.valid.1, t.valid.2.1, t.valid.2.2.1, by decide⟩

theorem readWhole_eq (reader : PartReader Fields) (cs : List Char) :
    readWhole reader cs = (instantWhole? reader cs).map Instant.time := by
  unfold readWhole instantWhole?
  rcases reader cs with _ | ⟨fields, _ | ⟨c, rest⟩⟩
  · rfl
  · exact (Option.map_map _ _ _).trans Option.map_id' |>.symm
  · rfl

theorem ofChars?_eq (cs : List Char) : ofChars? cs = (instantOfChars? cs).map Instant.time := by
  simp only [ofChars?, instantOfChars?, Option.map_or, readWhole_eq]

end DateTime

namespace Instant

/-- Cut to whole seconds; a leap second counts as the second before it. -/
def truncated (i : Instant) : Instant := ⟨i.time, false, 0⟩

def midnight (i : Instant) : Instant := ⟨i.time.midnight, false, 0⟩

end Instant

namespace Builtin

/-- The exact moment that a value names. -/
def instantOf? : Value → Option Instant
  | .int n => (DateTime.ofEpochMillis? n.toInt).map fun t => ⟨t, false, (n.toInt % 1000 : ℤ) / 1000⟩
  | .text s => DateTime.instantOfChars? (Text.trim s.toList)
  | _ => none

theorem dateOf?_eq (v : Value) : dateOf? v = (instantOf? v).map Instant.time := by
  cases v with
  | int n =>
    rw [dateOf?, instantOf?, Option.map_map]
    exact Option.map_id'.symm
  | text s => exact DateTime.ofChars?_eq _
  | _ => rfl

end Builtin

/-! ## Numbers in columns -/

namespace DateTime

variable {width n : Nat}

theorem isDigit_of_mem_padded : ∀ c ∈ padded width n, c.isDigit = true := by
  intro c hc
  obtain hc | hc := List.mem_append.1 hc
  · obtain rfl := List.eq_of_mem_replicate hc
    rfl
  · exact Json.isDigit_toDigits c hc

theorem length_padded (hwidth : 0 < width) (hn : n < 10 ^ width) :
    (padded width n).length = width := by
  have hdigits : (Nat.toDigits 10 n).length ≤ width :=
    (Nat.length_toDigits_le_iff (by decide) hwidth).2 hn
  rw [padded, List.length_append, List.length_replicate]
  omega

theorem ofDigitChars_padded : Nat.ofDigitChars 10 (padded width n) 0 = n := by
  rw [padded, Nat.ofDigitChars_append, Nat.ofDigitChars_replicate_zero, Nat.mul_zero,
    Nat.ofDigitChars_ten_toDigits]

theorem readExactly_padded (hwidth : 0 < width) (hn : n < 10 ^ width) (rest : List Char) :
    readExactly width (padded width n ++ rest) = some (n, rest) := by
  have hlength := length_padded hwidth hn
  have htake : (padded width n ++ rest).take width = padded width n := by
    rw [List.take_append_of_le_length hlength.ge, List.take_of_length_le hlength.le]
  have hdrop : (padded width n ++ rest).drop width = rest := List.drop_left' hlength
  have hdigits : (padded width n).all Char.isDigit = true :=
    List.all_eq_true.2 isDigit_of_mem_padded
  rw [readExactly, htake, hdrop, if_pos ⟨hlength, hdigits⟩, ofDigitChars_padded]

theorem readExactly_two (hn : n < 100) (rest : List Char) :
    readExactly 2 (padded 2 n ++ rest) = some (n, rest) := readExactly_padded (by decide) hn rest

theorem readDigits_padded (hwidth : 0 < width) (hn : n < 10 ^ width) (rest : List Char) :
    readDigits width (padded width n ++ rest) = some (n, rest) := by
  have hlength := length_padded hwidth hn
  have htake : ((padded width n ++ rest).take width).takeWhile Char.isDigit = padded width n := by
    rw [List.take_append_of_le_length hlength.ge, List.take_of_length_le hlength.le,
      List.takeWhile_eq_self_iff.2 isDigit_of_mem_padded]
  have hnonempty : (padded width n).isEmpty = false := by
    rw [List.isEmpty_eq_false_iff, ← List.length_pos_iff, hlength]
    exact hwidth
  have hdrop : (padded width n ++ rest).drop (padded width n).length = rest := List.drop_left
  rw [readDigits, htake, hnonempty, hdrop, ofDigitChars_padded]
  rfl

theorem exists_padded_eq_cons (hwidth : 0 < width) (hn : n < 10 ^ width) :
    ∃ d ds, padded width n = d :: ds ∧ d.isDigit = true := by
  have hne : padded width n ≠ [] := by
    rw [← List.length_pos_iff, length_padded hwidth hn]
    exact hwidth
  obtain ⟨d, ds, heq⟩ := List.exists_cons_of_ne_nil hne
  exact ⟨d, ds, heq, isDigit_of_mem_padded d (heq ▸ List.mem_cons_self)⟩

theorem skipBlanks_padded (hwidth : 0 < width) (hn : n < 10 ^ width) (rest : List Char) :
    skipBlanks (padded width n ++ rest) = padded width n ++ rest := by
  obtain ⟨d, ds, heq, hd⟩ := exists_padded_eq_cons hwidth hn
  rw [heq, List.cons_append, skipBlanks,
    List.dropWhile_cons_of_neg (by simp [Binary64.not_isBlank_of_isDigit hd])]

theorem readShort_padded (hn : n < 100) (rest : List Char) :
    readShort (padded 2 n ++ rest) = some (n, rest) := by
  rw [readShort, skipBlanks_padded (by decide) hn, readDigits_padded (by decide) hn]

/-! ## Days and times in columns -/

variable {t : DateTime}

theorem month_lt (t : DateTime) : t.month < 100 := by
  have hmonth := t.valid.2.1.2
  omega

theorem daysInMonth_le (year : ℤ) (month : Nat) : Calendar.daysInMonth year month ≤ 31 := by
  unfold Calendar.daysInMonth
  split
  · split <;> decide
  · rw [List.getD_eq_getElem?_getD]
    cases hlength : Calendar.monthsFromMarch[(month + 9) % 12]? with
    | none => exact Nat.zero_le _
    | some days =>
      have hall : ∀ d ∈ Calendar.monthsFromMarch, d ≤ 31 := by decide
      exact hall days (List.mem_of_getElem? hlength)

theorem day_lt (t : DateTime) : t.day < 100 := by
  have hday := t.valid.2.2.1.2
  have hdays := daysInMonth_le t.year t.month
  omega

theorem hour_lt (t : DateTime) : t.hour < 100 := t.valid.2.2.2.1.trans (by decide)

theorem minute_lt (t : DateTime) : t.minute < 100 := t.valid.2.2.2.2.1.trans (by decide)

theorem second_lt (t : DateTime) : t.second < 100 := t.valid.2.2.2.2.2.trans (by decide)

/-- What the default template is filled with. -/
def dayColumns (t : DateTime) : List Char :=
  yearColumns t.year ++ '-' :: (padded 2 t.month ++ '-' :: padded 2 t.day)

/-- What the time in the full template is filled with. -/
def timeColumns (t : DateTime) : List Char :=
  padded 2 t.hour ++ ':' :: (padded 2 t.minute ++ ':' :: padded 2 t.second)

theorem fill_day (t : DateTime) : t.fill "YYYY-MM-DD".toList = t.dayColumns := by
  simp [fill, dayColumns]

theorem fill_dayAndTime (t : DateTime) :
    t.fill "YYYY-MM-DD HH:mm:ss".toList = t.dayColumns ++ ' ' :: t.timeColumns := by
  simp [fill, dayColumns, timeColumns]

theorem readMark_singleton (c : Char) (rest : List Char) :
    readMark [c] (c :: rest) = some ((), rest) := by
  simp [readMark]

theorem bind_of_eq_some {α β : Type} {x : Option α} {a : α} (h : x = some a) (f : α → Option β) :
    (x >>= f) = f a := by
  rw [h]
  rfl

section Readers

variable (hlow : 0 ≤ t.year) (hhigh : t.year ≤ 9999)
include hlow hhigh

theorem yearColumns_eq : yearColumns t.year = padded 4 t.year.natAbs := if_neg (by omega)

theorem readYear_columns (rest : List Char) :
    readYear (yearColumns t.year ++ rest) = some (t.year, rest) := by
  have hyear : t.year.natAbs < 10 ^ 4 := by omega
  obtain ⟨d, ds, heq, hd⟩ := @exists_padded_eq_cons 4 _ (by decide) hyear
  have hread := readDigits_padded (by decide) hyear rest
  rw [yearColumns_eq hlow hhigh, readYear, skipBlanks_padded (by decide) hyear]
  rw [heq, List.cons_append] at hread ⊢
  -- a digit is no sign
  split
  · rename_i hsign
    rw [(List.cons.inj hsign).1] at hd
    exact absurd hd (by decide)
  · rename_i hsign
    rw [(List.cons.inj hsign).1] at hd
    exact absurd hd (by decide)
  · rw [hread, Option.map_some]
    exact congrArg (fun year => some (year, rest)) (Int.natAbs_of_nonneg hlow)

theorem readDay_columns (rest : List Char) :
    readDay (t.dayColumns ++ rest) = some ((t.year, t.month, t.day), rest) := by
  simp only [dayColumns, List.append_assoc, List.cons_append, readDay,
    readYear_columns hlow hhigh, readShort_padded t.month_lt, readShort_padded t.day_lt,
    readMark_singleton, Option.bind_eq_bind, Option.bind_some]
  rfl

/-- The interchange form reads the day and goes on behind it. -/
theorem readInterchange_columns (rest : List Char) :
    readInterchange (t.dayColumns ++ rest) = (do
      let (_, cs) ← readMark ['T', 't', ' '] rest
      let (hour, cs) ← readExactly 2 cs
      let (_, cs) ← readMark [':'] cs
      let (minute, cs) ← readExactly 2 cs
      let (_, cs) ← readMark [':'] cs
      let (second, cs) ← readExactly 2 cs
      let (_, cs) ← readFraction cs
      let (_, cs) ← readOffset cs
      return (⟨t.year.natAbs, t.month, t.day, hour, minute, second⟩, cs)) := by
  have hyear : t.year.natAbs < 10 ^ 4 := by omega
  rw [dayColumns, yearColumns_eq hlow hhigh, List.append_assoc, List.cons_append,
    List.append_assoc, List.cons_append]
  refine (bind_of_eq_some (readExactly_padded (by decide) hyear _) _).trans ?_
  refine (bind_of_eq_some (readMark_singleton '-' _) _).trans ?_
  refine (bind_of_eq_some (readExactly_two t.month_lt _) _).trans ?_
  refine (bind_of_eq_some (readMark_singleton '-' _) _).trans ?_
  exact bind_of_eq_some (readExactly_two t.day_lt _) _

theorem readInterchange_day : readInterchange t.dayColumns = none := by
  have hday := readInterchange_columns hlow hhigh []
  rwa [List.append_nil] at hday

/-- The interchange form stops where an offset has to follow. -/
theorem readInterchange_dayAndTime :
    readInterchange (t.dayColumns ++ ' ' :: t.timeColumns) = none := by
  have hblank : readMark ['T', 't', ' '] (' ' :: t.timeColumns) = some ((), t.timeColumns) := by
    simp [readMark]
  have hsecond := readExactly_two t.second_lt []
  rw [List.append_nil] at hsecond
  rw [readInterchange_columns hlow hhigh]
  refine (bind_of_eq_some hblank _).trans ?_
  refine (bind_of_eq_some (readExactly_two t.hour_lt _) _).trans ?_
  refine (bind_of_eq_some (readMark_singleton ':' _) _).trans ?_
  refine (bind_of_eq_some (readExactly_two t.minute_lt _) _).trans ?_
  refine (bind_of_eq_some (readMark_singleton ':' _) _).trans ?_
  exact bind_of_eq_some hsecond _

end Readers

theorem readTime_columns (t : DateTime) :
    readTime (' ' :: t.timeColumns) = some ((t.hour, t.minute, t.second), []) := by
  have hsecond := readShort_padded t.second_lt []
  have hskip : ∀ rest, readShort (' ' :: rest) = readShort rest := fun rest => rfl
  rw [List.append_nil] at hsecond
  simp only [timeColumns, readTime, hskip, readShort_padded t.hour_lt,
    readShort_padded t.minute_lt, hsecond, readMark_singleton, Option.bind_eq_bind,
    Option.bind_some]
  rfl

/-! ## Texts of columns -/

theorem isBlank_of_column {c : Char} (h : c.isDigit = true ∨ c = '-' ∨ c = ':') :
    Text.isBlank c = false := by
  obtain h | rfl | rfl := h
  · exact Binary64.not_isBlank_of_isDigit h
  · rfl
  · rfl

theorem ne_point_of_column {c : Char} (h : c.isDigit = true ∨ c = '-' ∨ c = ':') : c ≠ '.' := by
  rintro rfl
  revert h
  decide

theorem column_of_mem_timeColumns (t : DateTime) :
    ∀ c ∈ t.timeColumns, c.isDigit = true ∨ c = '-' ∨ c = ':' := by
  intro c hc
  simp only [timeColumns, List.mem_append, List.mem_cons] at hc
  obtain hc | rfl | hc | rfl | hc := hc
  · exact .inl (isDigit_of_mem_padded c hc)
  · exact .inr (.inr rfl)
  · exact .inl (isDigit_of_mem_padded c hc)
  · exact .inr (.inr rfl)
  · exact .inl (isDigit_of_mem_padded c hc)

theorem fractionIn_of_forall {cs : List Char} (h : ∀ c ∈ cs, c ≠ '.') : fractionIn cs = 0 := by
  have hnone : cs.dropWhile (· != '.') = [] :=
    List.dropWhile_eq_nil_iff.2 fun c hc => by simpa using h c hc
  simp [fractionIn, hnone]

theorem make?_self (t : DateTime) :
    make? t.year t.month t.day t.hour t.minute t.second = some t := dif_pos t.valid

theorem toDateTime?_self (t : DateTime) :
    Fields.toDateTime? ⟨t.year, t.month, t.day, t.hour, t.minute, t.second⟩ = some t := by
  have hsecond : t.second ≠ 60 := t.valid.2.2.2.2.2.ne
  rw [Fields.toDateTime?, if_neg hsecond, make?_self]

section Texts

variable (hlow : 0 ≤ t.year) (hhigh : t.year ≤ 9999)
include hlow hhigh

theorem column_of_mem_dayColumns :
    ∀ c ∈ t.dayColumns, c.isDigit = true ∨ c = '-' ∨ c = ':' := by
  intro c hc
  simp only [dayColumns, yearColumns_eq hlow hhigh, List.mem_append, List.mem_cons] at hc
  obtain hc | rfl | hc | rfl | hc := hc
  · exact .inl (isDigit_of_mem_padded c hc)
  · exact .inr (.inl rfl)
  · exact .inl (isDigit_of_mem_padded c hc)
  · exact .inr (.inl rfl)
  · exact .inl (isDigit_of_mem_padded c hc)

theorem instantOfChars?_day : instantOfChars? t.dayColumns = some ⟨t.midnight, false, 0⟩ := by
  have hday := readDay_columns hlow hhigh []
  rw [List.append_nil] at hday
  have hspaced : readSpaced t.dayColumns = none := by
    rw [readSpaced, hday]
    rfl
  have hmarked : readMarked t.dayColumns = none := by
    rw [readMarked, hday]
    rfl
  have hdate : readDate t.dayColumns = some (⟨t.year, t.month, t.day, 0, 0, 0⟩, []) := by
    rw [readDate, hday]
    rfl
  have hfraction : fractionIn t.dayColumns = 0 := fractionIn_of_forall fun c hc =>
    ne_point_of_column (column_of_mem_dayColumns hlow hhigh c hc)
  have hfields := toDateTime?_self t.midnight
  simp only [midnight] at hfields
  simp only [instantOfChars?, instantWhole?, readInterchange_day hlow hhigh, hspaced, hmarked,
    hdate, hfields, hfraction, Option.none_or, Option.map_some]
  rfl

theorem instantOfChars?_dayAndTime :
    instantOfChars? (t.dayColumns ++ ' ' :: t.timeColumns) = some ⟨t, false, 0⟩ := by
  have hspaced : readSpaced (t.dayColumns ++ ' ' :: t.timeColumns) =
      some (⟨t.year, t.month, t.day, t.hour, t.minute, t.second⟩, []) := by
    simp only [readSpaced, readDay_columns hlow hhigh, readTime_columns, Option.bind_eq_bind,
      Option.bind_some]
    rfl
  have hfraction : fractionIn (t.dayColumns ++ ' ' :: t.timeColumns) = 0 := by
    refine fractionIn_of_forall fun c hc => ?_
    obtain hc | hc := List.mem_append.1 hc
    · exact ne_point_of_column (column_of_mem_dayColumns hlow hhigh c hc)
    · obtain rfl | hc := List.mem_cons.1 hc
      · decide
      · exact ne_point_of_column (t.column_of_mem_timeColumns c hc)
  have hsecond : (t.second == 60) = false := beq_false_of_ne t.valid.2.2.2.2.2.ne
  simp only [instantOfChars?, instantWhole?, readInterchange_dayAndTime hlow hhigh, hspaced,
    toDateTime?_self, hfraction, hsecond, Option.none_or, Option.map_some, Option.some_or]

end Texts

end DateTime

/-- Blanks inside a text stay when its ends have none. -/
theorem Text.trim_of_ends {front back : List Char} (hfront : ∀ c ∈ front, isBlank c = false)
    (hback : ∀ c ∈ back, isBlank c = false) (hf : front ≠ []) (hb : back ≠ []) (mid : List Char) :
    trim (front ++ (mid ++ back)) = front ++ (mid ++ back) := by
  have hkeep : ∀ {ends rest : List Char}, ends ≠ [] → (∀ c ∈ ends, isBlank c = false) →
      (ends ++ rest).dropWhile isBlank = ends ++ rest := by
    intro ends rest hne hends
    obtain ⟨c, cs, rfl⟩ := List.exists_cons_of_ne_nil hne
    rw [List.cons_append, List.dropWhile_cons_of_neg (by simp [hends c List.mem_cons_self])]
  have hreverse : ∀ c ∈ back.reverse, isBlank c = false := fun c hc =>
    hback c (List.mem_reverse.1 hc)
  rw [trim, hkeep hf hfront, ← List.append_assoc, List.reverse_append,
    hkeep (by simpa using hb) hreverse, ← List.reverse_append, List.reverse_reverse]

namespace Builtin

open DateTime

theorem parts_of_date {v : Value} {t : DateTime} (h : dateOf? v = some t) :
    year [v] = .ok (.int (Int64.ofInt t.year)) ∧ month [v] = .ok (.int (Int64.ofInt t.month)) ∧
      day [v] = .ok (.int (Int64.ofInt t.day)) := by
  cases v with
  | int n => simp [year, month, day, ofDate, Argument.nth, date, h, Except.map]
  | text s => simp [year, month, day, ofDate, Argument.nth, date, h, Except.map]
  | _ => cases h

theorem formatDate_of_date {v : Value} {t : DateTime} (h : dateOf? v = some t)
    (templates : List Value) : formatDate (v :: templates) =
      .ok (.text (t.format (Argument.text (v :: templates) 1 defaultTemplate))) := by
  cases v with
  | int n => simp [formatDate, ofDate, Argument.nth, date, h, Except.map]
  | text s => simp [formatDate, ofDate, Argument.nth, date, h, Except.map]
  | _ => cases h

section Columns

variable {t : DateTime} (hlow : 0 ≤ t.year) (hhigh : t.year ≤ 9999)
include hlow hhigh

theorem instantOf?_format_day :
    instantOf? (.text (t.format "YYYY-MM-DD")) = some ⟨t.midnight, false, 0⟩ := by
  have hblank : ∀ c ∈ t.dayColumns, Text.isBlank c = false := fun c hc =>
    isBlank_of_column (column_of_mem_dayColumns hlow hhigh c hc)
  rw [format, fill_day, instantOf?, String.toList_ofList, Text.trim_of_forall hblank,
    instantOfChars?_day hlow hhigh]

theorem instantOf?_format_dayAndTime :
    instantOf? (.text (t.format "YYYY-MM-DD HH:mm:ss")) = some ⟨t, false, 0⟩ := by
  have hday : ∀ c ∈ t.dayColumns, Text.isBlank c = false := fun c hc =>
    isBlank_of_column (column_of_mem_dayColumns hlow hhigh c hc)
  have htime : ∀ c ∈ t.timeColumns, Text.isBlank c = false := fun c hc =>
    isBlank_of_column (t.column_of_mem_timeColumns c hc)
  have htrim := Text.trim_of_ends hday htime (by simp [dayColumns]) (by simp [timeColumns]) [' ']
  rw [List.singleton_append] at htrim
  rw [format, fill_dayAndTime, instantOf?, String.toList_ofList, htrim,
    instantOfChars?_dayAndTime hlow hhigh]

end Columns

theorem date_eq_ok_iff {v : Value} {t : DateTime} : date v = .ok t ↔ dateOf? v = some t := by
  rw [date]
  cases dateOf? v <;> simp

theorem exists_instantOf? {v : Value} {t : DateTime} (h : dateOf? v = some t) :
    ∃ i, instantOf? v = some i ∧ i.time = t := by
  rw [dateOf?_eq] at h
  exact Option.map_eq_some_iff.1 h

theorem dateOf?_of_instantOf? {v : Value} {i : Instant} (h : instantOf? v = some i) :
    dateOf? v = some i.time := by
  rw [dateOf?_eq, h, Option.map_some]

/-- A date in a year of at most four digits is written through the full template as a text that
names the same moment cut to whole seconds, and through the default template as one that names the
midnight of the same day. So writing a date changes neither its year nor its month nor its day. -/
theorem formatDate_reads_back {v : Value} {t : DateTime} (h : date v = .ok t) (hlow : 0 ≤ t.year)
    (hhigh : t.year ≤ 9999) :
    ∃ (i : Instant) (full short : String), instantOf? v = some i ∧ i.time = t ∧
      formatDate [v, .text "YYYY-MM-DD HH:mm:ss"] = .ok (.text full) ∧
      instantOf? (.text full) = some i.truncated ∧ date (.text full) = .ok t ∧
      formatDate [v] = .ok (.text short) ∧
      instantOf? (.text short) = some i.midnight ∧ date (.text short) = .ok t.midnight ∧
      ∀ s ∈ [full, short], year [.text s] = year [v] ∧ month [.text s] = month [v] ∧
        day [.text s] = day [v] := by
  have hdate : dateOf? v = some t := date_eq_ok_iff.1 h
  obtain ⟨i, hi, rfl⟩ := exists_instantOf? hdate
  have hfull := instantOf?_format_dayAndTime hlow hhigh
  have hshort := instantOf?_format_day hlow hhigh
  have hfull' := dateOf?_of_instantOf? hfull
  have hshort' := dateOf?_of_instantOf? hshort
  refine ⟨i, i.time.format "YYYY-MM-DD HH:mm:ss", i.time.format "YYYY-MM-DD", hi, rfl,
    formatDate_of_date hdate _, hfull, date_eq_ok_iff.2 hfull', formatDate_of_date hdate _, hshort,
    date_eq_ok_iff.2 hshort', fun s hs => ?_⟩
  obtain ⟨hyear, hmonth, hday⟩ := parts_of_date hdate
  rw [hyear, hmonth, hday]
  obtain rfl | rfl : s = i.time.format "YYYY-MM-DD HH:mm:ss" ∨ s = i.time.format "YYYY-MM-DD" := by
    simpa using hs
  · exact parts_of_date hfull'
  · have hmidnight := parts_of_date hshort'
    exact hmidnight

/-- A leap second at the end of a leap day, with a part of the second and an offset. -/
theorem formatDate_reads_back_of_leap_second :
    ∃ i : Instant, instantOf? (.text " 2024-02-29t23:59:60.250+01:30") = some i ∧
      i.leap = true ∧ i.fraction = 1 / 4 ∧
      formatDate [.text " 2024-02-29t23:59:60.250+01:30", .text "YYYY-MM-DD HH:mm:ss"] =
        .ok (.text "2024-02-29 23:59:59") ∧
      instantOf? (.text "2024-02-29 23:59:59") = some i.truncated ∧
      formatDate [.text " 2024-02-29t23:59:60.250+01:30"] = .ok (.text "2024-02-29") ∧
      instantOf? (.text "2024-02-29") = some i.midnight := by
  have hdate : date (.text " 2024-02-29t23:59:60.250+01:30") =
      .ok ⟨2024, 2, 29, 23, 59, 59, by decide⟩ := by decide +kernel
  obtain ⟨i, full, short, hi, htime, hfull, hreadFull, -, hshort, hreadShort, -⟩ :=
    formatDate_reads_back hdate (by decide) (by decide)
  have hexact : instantOf? (.text " 2024-02-29t23:59:60.250+01:30") =
      some ⟨⟨2024, 2, 29, 23, 59, 59, by decide⟩, true,
        fractionIn "2024-02-29t23:59:60.250+01:30".toList⟩ := rfl
  have hfraction : fractionIn "2024-02-29t23:59:60.250+01:30".toList = 1 / 4 := by
    have hdigits : (("2024-02-29t23:59:60.250+01:30".toList.dropWhile (· != '.')).drop 1).takeWhile
        Char.isDigit = ['2', '5', '0'] := by decide
    have hnumber : Nat.ofDigitChars 10 ['2', '5', '0'] 0 = 250 := rfl
    simp only [fractionIn, hdigits, hnumber, List.length_cons, List.length_nil]
    norm_num
  have hfull' : formatDate [.text " 2024-02-29t23:59:60.250+01:30", .text "YYYY-MM-DD HH:mm:ss"] =
      .ok (.text "2024-02-29 23:59:59") := rfl
  have hshort' : formatDate [.text " 2024-02-29t23:59:60.250+01:30"] =
      .ok (.text "2024-02-29") := rfl
  obtain rfl := Option.some.inj (hi.symm.trans hexact)
  obtain rfl := Value.text.inj (Except.ok.inj (hfull.symm.trans hfull'))
  obtain rfl := Value.text.inj (Except.ok.inj (hshort.symm.trans hshort'))
  exact ⟨_, hi, rfl, hfraction, hfull, hreadFull, hshort, hreadShort⟩

end Builtin

end FormulaPipeline
