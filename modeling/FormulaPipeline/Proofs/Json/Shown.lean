import FormulaPipeline.Proofs.Json.RoundTrip
import FormulaPipeline.Value.Printer

/-!
# Reading back shown numbers and texts

The convention under which values are shown is legible. A whole float is shown without a point, so
it is read as a whole number; the two are the same when numbers are compared as numbers.
-/

namespace FormulaPipeline.Json

mutual

/-- Equality of documents with numbers compared as numbers. Whole numbers are compared exactly, and
a whole number equals the float that is nearest to it. -/
def Alike : Json → Json → Prop
  | .null, .null => True
  | .bool a, .bool b => a = b
  | .int m, .int n => m = n
  | .float x, .float y => x = y
  | .int n, .float x => Binary64.ofInt n = x
  | .float x, .int n => x = Binary64.ofInt n
  | .string s, .string t => s = t
  | .array items, .array others => AlikeItems items others
  | .object members, .object others => AlikeMembers members others
  | _, _ => False

def AlikeItems : List Json → List Json → Prop
  | [], [] => True
  | j :: rest, k :: others => Alike j k ∧ AlikeItems rest others
  | _, _ => False

def AlikeMembers : List (String × Json) → List (String × Json) → Prop
  | [], [] => True
  | (name, j) :: rest, (other, k) :: others =>
    (name = other ∧ Alike j k) ∧ AlikeMembers rest others
  | _, _ => False

end

mutual

/-- What is read differs from what was written in the kinds of numbers at most. -/
theorem alike_reread {k : Convention}
    (hnumber : ∀ x, x.isFinite = true → Alike (k.number x) (.float x)) :
    ∀ {j : Json}, Writable j → Alike (reread k j) j
  | .float x, h => hnumber x h
  | .array _, h => alike_rereadItems hnumber h
  | .object _, h => alike_rereadMembers hnumber h
  | .null, _ => trivial
  | .bool _, _ | .int _, _ | .string _, _ => rfl

theorem alike_rereadItems {k : Convention}
    (hnumber : ∀ x, x.isFinite = true → Alike (k.number x) (.float x)) :
    ∀ {items : List Json}, WritableItems items → AlikeItems (rereadItems k items) items
  | [], _ => trivial
  | _ :: _, h => ⟨alike_reread hnumber h.1, alike_rereadItems hnumber h.2⟩

theorem alike_rereadMembers {k : Convention}
    (hnumber : ∀ x, x.isFinite = true → Alike (k.number x) (.float x)) :
    ∀ {members : List (String × Json)}, WritableMembers members →
      AlikeMembers (rereadMembers k members) members
  | [], _ => trivial
  | (_, _) :: _, h => ⟨⟨rfl, alike_reread hnumber h.1⟩, alike_rereadMembers hnumber h.2⟩

end

/-! ## Shown floats -/

section Floats

variable {negative : Bool} {m c : Nat} {q : Int}

theorem ofInt_signed {n : Nat} (h : Binary64.Canonical m q) (hn : 0 < n)
    (hx : Binary64.Within m q (n : ℚ)) :
    Binary64.ofInt (if negative then -n else n) = .finite negative m q h := by
  have hratio : Binary64.ofRatio negative n 1 = .finite negative m q h :=
    Binary64.ofRatio_eq h hn Nat.one_pos (by simpa using hx)
  rw [Binary64.ofInt, Binary64.ofNat]
  cases negative with
  | true =>
    have hneg : decide (-(n : Int) < 0) = true := decide_eq_true (by omega)
    rw [if_pos rfl, hneg, Int.natAbs_neg, Int.natAbs_natCast]
    exact hratio
  | false =>
    have hpos : decide ((n : Int) < 0) = false := decide_eq_false (by omega)
    rw [if_neg Bool.false_ne_true, hpos, Int.natAbs_natCast]
    exact hratio

theorem exists_numberOf_whole {whole : List Char} (h : Binary64.Canonical m q) (hm : 0 < m)
    (hx : Binary64.Within m q ((Nat.ofDigitChars 10 whole 0 : Nat) : ℚ)) :
    ∃ j, numberOf negative whole [] none = some j ∧ Alike j (.float (.finite negative m q h)) := by
  have hscaled : Binary64.Within m q ((Nat.ofDigitChars 10 whole 0 : ℚ) * 10 ^ (0 : Int)) := by
    simpa using hx
  have hn := hscaled.coefficient_pos hm
  have hsigned := @ofInt_signed negative m q _ h hn hx
  have hdecimal := @Binary64.ofDecimal_eq negative _ _ _ _ h hm hscaled
  unfold numberOf
  simp only [List.append_nil]
  generalize Nat.ofDigitChars 10 whole 0 = n at *
  split_ifs with hsmall hlow hfinite
  · refine ⟨_, rfl, ?_⟩
    obtain rfl : negative = false := by simp_all
    exact hsigned
  · refine ⟨_, rfl, ?_⟩
    obtain rfl : negative = true := by simp_all
    exact hsigned
  · refine ⟨_, rfl, ?_⟩
    exact hdecimal
  · simp [hdecimal] at hfinite
    cases hfinite

/-- Only the negative zero is read as a float. -/
theorem exists_readNumber_zero (h : Binary64.Canonical 0 q) :
    ∃ j, Alike j (.float (.finite negative 0 q h)) ∧ ∀ rest, EndsNumeral rest →
      readNumber (Binary64.sign negative ++ ['0'] ++ rest) = some (j, rest) := by
  obtain rfl : q = -1074 := h.2.2.2.resolve_left (by decide)
  have hread : ∀ rest, EndsNumeral rest → readNumber (Binary64.sign negative ++ ['0'] ++ rest) =
      (numberOf negative ['0'] [] none).map (·, rest) := by
    intro rest hrest
    rw [List.append_assoc]
    exact @readNumber_append negative ['0'] [] rest rest none (.inl rfl) (by simp)
      hrest.endsPlaces (readPower_of_endsNumeral hrest)
  cases negative with
  | true => exact ⟨.float (.finite true 0 (-1074) h), rfl, hread⟩
  | false => exact ⟨.int 0, by rfl, hread⟩

/-- Without a point all characters of a positional text are digits. -/
theorem exists_readNumber_whole {k : Nat} (h : Binary64.Canonical m q) (hm : 0 < m) (hc : 0 < c)
    (hx : Binary64.Within m q ((c : ℚ) * 10 ^ (k : ℤ))) :
    ∃ j, Alike j (.float (.finite negative m q h)) ∧ ∀ rest, EndsNumeral rest →
      readNumber (Binary64.sign negative ++ Binary64.positional c k ++ rest) = some (j, rest) := by
  have hvalue : Nat.ofDigitChars 10 (Nat.toDigits 10 c ++ Binary64.zeros k) 0 = 10 ^ k * c := by
    rw [Nat.ofDigitChars_append, Nat.ofDigitChars_ten_toDigits, Binary64.zeros,
      Nat.ofDigitChars_replicate_zero]
  have hwhole : Whole (Nat.toDigits 10 c ++ Binary64.zeros k) := by
    obtain ⟨d, ds, hdigits, hd⟩ := toDigits_eq_cons hc
    refine .inr ⟨⟨d, ds ++ Binary64.zeros k, by rw [hdigits]; rfl, hd⟩, fun a ha => ?_⟩
    rcases List.mem_append.1 ha with ha | ha
    · exact isDigit_toDigits a ha
    · rw [List.eq_of_mem_replicate ha]
      decide
  have hwithin : Binary64.Within m q
      ((Nat.ofDigitChars 10 (Nat.toDigits 10 c ++ Binary64.zeros k) 0 : Nat) : ℚ) := by
    rw [zpow_natCast] at hx
    rw [hvalue]
    push_cast
    rwa [mul_comm]
  obtain ⟨j, hj, halike⟩ := @exists_numberOf_whole negative m q _ h hm hwithin
  refine ⟨j, halike, fun rest hrest => ?_⟩
  have hread := @readNumber_append negative _ [] rest rest none hwhole (by simp)
    hrest.endsPlaces (readPower_of_endsNumeral hrest)
  rw [hj, places_nil, List.nil_append, ← List.append_assoc] at hread
  unfold Binary64.positional
  rw [if_pos (Int.natCast_nonneg k)]
  exact hread

/-- The text of a finite number is read as the number, of one kind or the other. -/
theorem exists_readNumber_shown {x : Binary64} (hx : x.isFinite = true) :
    ∃ j, Alike j (.float x) ∧
      ∀ rest, EndsNumeral rest → readNumber (x.toChars ++ rest) = some (j, rest) := by
  cases x with
  | nan => cases hx
  | infinite negative => cases hx
  | finite negative m q h =>
    rw [Binary64.toChars]
    split
    · rename_i hzero
      subst hzero
      exact exists_readNumber_zero h
    · rename_i hm
      have hm : 0 < m := Nat.pos_of_ne_zero hm
      have hwithin := @Binary64.within_shortest .up m q hm h.1
      have hc := hwithin.coefficient_pos hm
      generalize Binary64.shortest .up m q = decimal at hwithin hc
      obtain ⟨c, e⟩ := decimal
      simp only at hwithin hc ⊢
      rcases lt_or_ge e 0 with he | he
      · refine ⟨.float (.finite negative m q h), rfl, fun rest hrest => ?_⟩
        rw [List.append_assoc]
        exact readNumber_positional h hm hc he hwithin hrest
      · obtain ⟨k, rfl⟩ := Int.eq_ofNat_of_zero_le he
        exact exists_readNumber_whole h hm hc hwithin

end Floats

/-! ## The convention -/

def shown : Convention where
  float := Binary64.toChars
  escape := Value.escape

theorem readUnits_shown (c : Char) (rest : List Char) :
    readUnits (Value.escape c ++ rest) = consUnit c.toNat (readUnits rest) := by
  unfold Value.escape
  split_ifs with hquote hslash hline hreturn htab hcontrol
  · exact readUnits_short_eq hquote (by decide) rfl
  · exact readUnits_short_eq hslash (by decide) rfl
  · exact readUnits_short_eq hline (by decide) rfl
  · exact readUnits_short_eq hreturn (by decide) rfl
  · exact readUnits_short_eq htab (by decide) rfl
  · simp only [Text.isControl, Bool.or_eq_true, Bool.and_eq_true, decide_eq_true_eq] at hcontrol
    exact readUnits_coded (by omega)
  · simp only [Text.isControl, Bool.or_eq_true, Bool.and_eq_true, decide_eq_true_eq] at hcontrol
    exact readUnits_plain hquote hslash (by omega)

theorem number_shown {x : Binary64} (hx : x.isFinite = true) :
    Alike (shown.number x) (.float x) ∧ ∀ rest, EndsNumeral rest →
      readNumber (shown.float x ++ rest) = some (shown.number x, rest) := by
  obtain ⟨j, halike, hread⟩ := exists_readNumber_shown hx
  have hnumber : shown.number x = j := by
    have hnil := hread [] endsNumeral_nil
    rw [List.append_nil] at hnil
    exact Convention.number_eq hnil
  rw [hnumber]
  exact ⟨halike, hread⟩

theorem legible_shown : shown.Legible where
  escape := readUnits_shown
  float := fun _ rest hx => (number_shown hx).2 rest

end FormulaPipeline.Json
