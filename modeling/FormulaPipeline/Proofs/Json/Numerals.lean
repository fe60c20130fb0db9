import FormulaPipeline.Json.Reader
import FormulaPipeline.Json.Writer
import FormulaPipeline.Proofs.Number.Shortest

/-!
# Reading back numbers

The text of a whole number of 64 bits and that of a finite number are read as the number they were
written for, whatever follows, as long as it does not go on with the numeral.
-/

namespace FormulaPipeline.Json

/-- A text that does not go on with digits or a point. -/
def EndsPlaces (rest : List Char) : Prop :=
  ∀ c, rest.head? = some c → c.isDigit = false ∧ c ≠ '.'

/-- A text that does not go on with a numeral. -/
def EndsNumeral (rest : List Char) : Prop :=
  ∀ c, rest.head? = some c → c.isDigit = false ∧ c ≠ '.' ∧ c ≠ 'e' ∧ c ≠ 'E'

theorem EndsNumeral.endsPlaces {rest : List Char} (h : EndsNumeral rest) : EndsPlaces rest :=
  fun c hc => ⟨(h c hc).1, (h c hc).2.1⟩

/-- The digits before the point of a numeral. -/
def Whole (digits : List Char) : Prop :=
  digits = ['0'] ∨ (∃ c rest, digits = c :: rest ∧ c ≠ '0') ∧ ∀ d ∈ digits, d.isDigit = true

/-- The point and the digits after it, when there are any. -/
def places (fraction : List Char) : List Char :=
  if fraction = [] then [] else '.' :: fraction

section Digits

variable {digits rest : List Char}

theorem takeWhile_digits (hdigits : ∀ d ∈ digits, d.isDigit = true)
    (hrest : ∀ c, rest.head? = some c → c.isDigit = false) :
    (digits ++ rest).takeWhile Char.isDigit = digits := by
  rw [List.takeWhile_append_of_pos hdigits]
  cases rest with
  | nil => simp
  | cons c cs => simp [hrest c rfl]

theorem dropWhile_digits (hdigits : ∀ d ∈ digits, d.isDigit = true)
    (hrest : ∀ c, rest.head? = some c → c.isDigit = false) :
    (digits ++ rest).dropWhile Char.isDigit = rest := by
  rw [List.dropWhile_append_of_pos hdigits]
  cases rest with
  | nil => simp
  | cons c cs => simp [hrest c rfl]

theorem readWhole_append (hdigits : Whole digits)
    (hrest : ∀ c, rest.head? = some c → c.isDigit = false) :
    readWhole (digits ++ rest) = some (digits, rest) := by
  obtain rfl | ⟨⟨c, cs, rfl, hc⟩, hdigits⟩ := hdigits
  · rfl
  · have htake := takeWhile_digits hdigits hrest
    have hdrop := dropWhile_digits hdigits hrest
    rw [List.cons_append] at htake hdrop ⊢
    rw [readWhole.eq_2 _ (fun _ h => hc (List.cons.inj h).1), htake, hdrop]
    rfl

theorem readFraction_append (hdigits : ∀ d ∈ digits, d.isDigit = true) (hrest : EndsPlaces rest) :
    readFraction (places digits ++ rest) = some (digits, rest) := by
  unfold places
  split
  · rename_i hnil
    subst hnil
    refine readFraction.eq_2 _ fun cs heq => ?_
    have heq : rest = '.' :: cs := heq
    exact (hrest '.' (by rw [heq]; rfl)).2 rfl
  · rename_i hne
    have htake := takeWhile_digits hdigits fun c hc => (hrest c hc).1
    have hdrop := dropWhile_digits hdigits fun c hc => (hrest c hc).1
    rw [List.cons_append, readFraction, htake, hdrop, if_neg (by simpa using hne)]

theorem readPower_of_endsNumeral (hrest : EndsNumeral rest) :
    readPower rest = some (none, rest) := by
  cases rest with
  | nil => rfl
  | cons c cs =>
    obtain ⟨-, -, he, hE⟩ := hrest c rfl
    rw [readPower, if_neg (by simp [he, hE])]

/-- A power of ten with its sign written. -/
theorem readPower_signed {negative : Bool} (hdigits : ∀ d ∈ digits, d.isDigit = true)
    (hne : digits ≠ []) (hrest : EndsNumeral rest) :
    readPower ('e' :: (if negative then '-' else '+') :: digits ++ rest) =
      some (some (if negative then -(Nat.ofDigitChars 10 digits 0 : Int)
        else Nat.ofDigitChars 10 digits 0), rest) := by
  have htake := takeWhile_digits hdigits fun c hc => (hrest c hc).1
  have hdrop := dropWhile_digits hdigits fun c hc => (hrest c hc).1
  cases negative <;> simp [readPower, htake, hdrop, hne]

end Digits

/-- The parts of a numeral are read one after the other. -/
theorem readNumber_append {negative : Bool} {whole fraction tail rest : List Char}
    {power : Option Int} (hwhole : Whole whole) (hfraction : ∀ d ∈ fraction, d.isDigit = true)
    (htail : EndsPlaces tail) (hpower : readPower tail = some (power, rest)) :
    readNumber (Binary64.sign negative ++ (whole ++ (places fraction ++ tail))) =
      (numberOf negative whole fraction power).map (·, rest) := by
  have hsplit : ∀ c, (places fraction ++ tail).head? = some c → c.isDigit = false := by
    intro c hc
    unfold places at hc
    split at hc
    · exact (htail c hc).1
    · cases hc
      decide
  have hhead : ∀ c, (whole ++ (places fraction ++ tail)).head? = some c → c ≠ '-' := by
    rintro c hc rfl
    obtain rfl | ⟨⟨d, ds, rfl, -⟩, hdigits⟩ := hwhole
    · cases hc
    · cases hc
      exact absurd (hdigits '-' List.mem_cons_self) (by decide)
  have hwhole := readWhole_append hwhole hsplit
  have hfraction := readFraction_append hfraction htail
  generalize whole ++ (places fraction ++ tail) = text at hhead hwhole
  have hsign : ((Binary64.sign negative ++ text).head? == some '-') = negative := by
    cases negative with
    | true => rfl
    | false =>
      cases text with
      | nil => rfl
      | cons c cs => simpa [Binary64.sign] using hhead c rfl
  have hdrop : (if negative then (Binary64.sign negative ++ text).drop 1
      else Binary64.sign negative ++ text) = text := by
    cases negative <;> rfl
  unfold readNumber
  simp only [hsign, hdrop, hwhole, hfraction, hpower, Option.bind_eq_bind, Option.bind_some]
  cases numberOf negative whole fraction power <;> rfl

/-! ## Digits of natural numbers -/

theorem isDigit_toDigits {n : Nat} : ∀ d ∈ Nat.toDigits 10 n, d.isDigit = true :=
  fun _ hd => Nat.isDigit_of_mem_toDigits (by norm_num) (by norm_num) hd

theorem toDigits_eq_cons {n : Nat} (hn : 0 < n) :
    ∃ c rest, Nat.toDigits 10 n = c :: rest ∧ c ≠ '0' := by
  induction n using Nat.strongRecOn with
  | ind n ih =>
    rcases lt_or_ge n 10 with hlt | hge
    · refine ⟨Nat.digitChar n, [], Nat.toDigits_of_lt_base hlt, ?_⟩
      rw [Ne, Nat.digitChar_eq_zero]
      omega
    · obtain ⟨c, rest, heq, hc⟩ := ih (n / 10) (by omega) (by omega)
      refine ⟨c, rest ++ [Nat.digitChar (n % 10)], ?_, hc⟩
      rw [Nat.toDigits_of_base_le (by norm_num) hge, heq, List.cons_append]

theorem whole_toDigits (n : Nat) : Whole (Nat.toDigits 10 n) := by
  rcases Nat.eq_zero_or_pos n with rfl | hn
  · exact .inl rfl
  · exact .inr ⟨toDigits_eq_cons hn, isDigit_toDigits⟩

theorem places_nil : places [] = [] := rfl

theorem toList_toString (n : Int) :
    (toString n).toList = Binary64.sign (n < 0) ++ Nat.toDigits 10 n.natAbs := by
  cases n with
  | ofNat n =>
    have hsign : decide (Int.ofNat n < 0) = false := by simp
    rw [hsign]
    change (Nat.repr n).toList = _
    simp [Binary64.sign]
  | negSucc n =>
    have hsign : decide (Int.negSucc n < 0) = true := by simp
    rw [hsign]
    change ("-" ++ Nat.repr (n + 1)).toList = _
    simp [Binary64.sign]

/-! ## Reading numbers -/

/-- A whole number of 64 bits is read exactly. -/
theorem readNumber_int {n : Int} {rest : List Char} (hlow : Integer.least ≤ n)
    (hhigh : n < 18446744073709551616) (hrest : EndsNumeral rest) :
    readNumber ((toString n).toList ++ rest) = some (.int n, rest) := by
  have hread := @readNumber_append (n < 0) _ [] _ _ _ (whole_toDigits n.natAbs)
    (fun d hd => absurd hd List.not_mem_nil) hrest.endsPlaces (readPower_of_endsNumeral hrest)
  rw [places_nil, List.nil_append, ← List.append_assoc, ← toList_toString] at hread
  have hnumber : numberOf (n < 0) (Nat.toDigits 10 n.natAbs) [] none = some (.int n) := by
    unfold numberOf
    rw [Nat.ofDigitChars_ten_toDigits]
    rcases lt_or_ge n 0 with hneg | hpos
    · obtain ⟨k, rfl⟩ : ∃ k : Nat, n = -(k : Int) := ⟨n.natAbs, by omega⟩
      have hk : 0 < k := by omega
      simp [hk, hlow]
    · obtain ⟨k, rfl⟩ := Int.eq_ofNat_of_zero_le hpos
      have hlt : k < 18446744073709551616 := by omega
      simp [hlt]
  rw [hread, hnumber]
  rfl

/-- A numeral with places or a power is read as the number whose interval its value is in. -/
theorem numberOf_eq_float {negative : Bool} {whole fraction : List Char} {power : Option Int}
    {m : Nat} {q : Int} (h : Binary64.Canonical m q) (hm : 0 < m)
    (hinexact : fraction ≠ [] ∨ power ≠ none)
    (hx : Binary64.Within m q ((Nat.ofDigitChars 10 (whole ++ fraction) 0 : ℚ) *
      10 ^ (power.getD 0 - fraction.length))) :
    numberOf negative whole fraction power = some (.float (.finite negative m q h)) := by
  have hexact : (fraction.isEmpty && power.isNone) = false := by
    rcases hinexact with hne | hne
    · simp [hne]
    · simp [Option.isNone_eq_false_iff, Option.isSome_iff_ne_none, hne]
  unfold numberOf
  simp only [hexact, Bool.false_and, Bool.false_eq_true, if_false]
  rw [Binary64.ofDecimal_eq h hm hx]
  rfl

section Floats

variable {negative : Bool} {m c : Nat} {q e : Int} {rest : List Char}

theorem readNumber_float {whole fraction tail : List Char} {power : Option Int}
    (h : Binary64.Canonical m q) (hm : 0 < m) (hwhole : Whole whole)
    (hfraction : ∀ d ∈ fraction, d.isDigit = true) (htail : EndsPlaces tail)
    (hpower : readPower tail = some (power, rest)) (hinexact : fraction ≠ [] ∨ power ≠ none)
    (hx : Binary64.Within m q ((Nat.ofDigitChars 10 (whole ++ fraction) 0 : ℚ) *
      10 ^ (power.getD 0 - fraction.length))) :
    readNumber (Binary64.sign negative ++ (whole ++ (places fraction ++ tail))) =
      some (.float (.finite negative m q h), rest) := by
  rw [readNumber_append hwhole hfraction htail hpower, numberOf_eq_float h hm hinexact hx]
  rfl

theorem readNumber_scientific (h : Binary64.Canonical m q) (hm : 0 < m) (hc : 0 < c)
    (hx : Binary64.Within m q ((c : ℚ) * 10 ^ e)) (hrest : EndsNumeral rest) :
    readNumber (Binary64.sign negative ++ (Binary64.scientific c e ++ rest)) =
      some (.float (.finite negative m q h), rest) := by
  obtain ⟨d, ds, hdigits, hd⟩ := toDigits_eq_cons hc
  have hall := @isDigit_toDigits c
  have hvalue := @Nat.ofDigitChars_ten_toDigits c
  rw [hdigits] at hall hvalue
  obtain ⟨power, hpower⟩ : ∃ power : Int, power = ds.length + e := ⟨_, rfl⟩
  have htext : Binary64.scientific c e ++ rest = [d] ++ (places ds ++ ('e' ::
      (if decide (power < 0) then '-' else '+') :: Nat.toDigits 10 power.natAbs ++ rest)) := by
    have hplaces : (if ds.length + 1 = 1 then [] else '.' :: ds) = places ds := by
      cases ds <;> simp [places]
    have hexp : (((ds.length + 1 : Nat) : Int) - 1 + e) = power := by
      rw [hpower]
      push_cast
      ring
    simp only [Binary64.scientific, hdigits, List.length_cons, hexp, List.drop_one, List.tail_cons,
      hplaces, List.take_succ_cons, List.take_zero]
    by_cases hneg : power < 0 <;> simp [hneg]
  have hnat : (if decide (power < 0) then -(power.natAbs : Int) else power.natAbs) = power := by
    simp only [decide_eq_true_eq]
    split <;> omega
  have hread := @readPower_signed _ _ (power < 0) (@isDigit_toDigits power.natAbs)
    Nat.toDigits_ne_nil hrest
  rw [Nat.ofDigitChars_ten_toDigits, hnat] at hread
  rw [htext]
  refine readNumber_float h hm (.inr ⟨⟨d, [], rfl, hd⟩, ?_⟩) (fun k hk => hall k (.tail d hk)) ?_
    hread (.inr (by simp)) ?_
  · exact fun k hk => hall k (by simp_all)
  · rintro k ⟨⟩
    decide
  · rw [List.singleton_append, hvalue]
    rwa [Option.getD_some, hpower, add_sub_cancel_left]

/-- Positional text is a numeral, with places for a negative power of ten only. -/
theorem exists_positional (hc : 0 < c) (e : Int) : ∃ whole fraction, Whole whole ∧
    (∀ d ∈ fraction, d.isDigit = true) ∧ (fraction = [] ↔ 0 ≤ e) ∧
    Binary64.positional c e = whole ++ places fraction ∧
    (Nat.ofDigitChars 10 (whole ++ fraction) 0 : ℚ) * 10 ^ (-(fraction.length : Int)) =
      c * 10 ^ e := by
  obtain ⟨d, ds, hdigits, hd⟩ := toDigits_eq_cons hc
  have hall := @isDigit_toDigits c
  have hvalue := @Nat.ofDigitChars_ten_toDigits c
  have hzeros : ∀ k, ∀ a ∈ Binary64.zeros k, a.isDigit = true := by
    intro k a ha
    rw [List.eq_of_mem_replicate ha]
    decide
  unfold Binary64.positional
  simp only
  rw [hdigits] at hall hvalue ⊢
  split
  · rename_i he
    refine ⟨d :: ds ++ Binary64.zeros e.toNat, [], .inr ⟨⟨d, _, rfl, hd⟩, ?_⟩, by simp,
      iff_of_true rfl he, by rw [places_nil, List.append_nil], ?_⟩
    · exact fun a ha => (List.mem_append.1 ha).elim (hall a) (hzeros _ a)
    · rw [List.append_nil, Nat.ofDigitChars_append, hvalue, Binary64.zeros,
        Nat.ofDigitChars_replicate_zero, List.length_nil, Nat.cast_zero, neg_zero, zpow_zero,
        mul_one, Nat.cast_mul, Nat.cast_pow, Nat.cast_ofNat, ← zpow_natCast,
        Int.toNat_of_nonneg he, mul_comm]
  · rename_i he
    split
    · -- the point stands among the digits
      obtain ⟨k, hk⟩ : ∃ k : Nat, ((d :: ds).length : Int) + e = k + 1 :=
        ⟨(((d :: ds).length : Int) + e - 1).toNat, by omega⟩
      rw [show (((d :: ds).length : Int) + e).toNat = k + 1 by omega]
      have hdrop : (d :: ds).drop (k + 1) ≠ [] := by
        rw [Ne, List.drop_eq_nil_iff]
        omega
      have hlength : -(((d :: ds).drop (k + 1)).length : Int) = e := by
        rw [List.length_drop]
        omega
      refine ⟨(d :: ds).take (k + 1), (d :: ds).drop (k + 1), .inr ⟨⟨d, ds.take k, rfl, hd⟩, ?_⟩,
        fun a ha => hall a (List.mem_of_mem_drop ha), iff_of_false hdrop he,
        by rw [places, if_neg hdrop], ?_⟩
      · exact fun a ha => hall a (List.mem_of_mem_take ha)
      · rw [List.take_append_drop, hvalue, hlength]
    · -- zeros stand between the point and the digits
      obtain ⟨k, hk⟩ : ∃ k : Nat, ((d :: ds).length : Int) + e = -k :=
        ⟨(-(((d :: ds).length : Int) + e)).toNat, by omega⟩
      rw [show (-(((d :: ds).length : Int) + e)).toNat = k by omega]
      have hne : Binary64.zeros k ++ d :: ds ≠ [] := by simp
      have hlength : -((Binary64.zeros k ++ d :: ds).length : Int) = e := by
        rw [List.length_append, Binary64.zeros, List.length_replicate]
        omega
      refine ⟨['0'], Binary64.zeros k ++ d :: ds, .inl rfl,
        fun a ha => (List.mem_append.1 ha).elim (hzeros k a) (hall a), iff_of_false hne he,
        by rw [places, if_neg hne]; rfl, ?_⟩
      rw [hlength, Nat.ofDigitChars_append, Nat.ofDigitChars_append, Binary64.zeros,
        Nat.ofDigitChars_replicate_zero]
      exact congrArg (fun n : Nat => (n : ℚ) * 10 ^ e) hvalue

/-- The positional text of a number with places. -/
theorem readNumber_positional (h : Binary64.Canonical m q) (hm : 0 < m) (hc : 0 < c) (he : e < 0)
    (hx : Binary64.Within m q ((c : ℚ) * 10 ^ e)) (hrest : EndsNumeral rest) :
    readNumber (Binary64.sign negative ++ (Binary64.positional c e ++ rest)) =
      some (.float (.finite negative m q h), rest) := by
  obtain ⟨whole, fraction, hwhole, hfraction, hiff, htext, hvalue⟩ := exists_positional hc e
  rw [htext, List.append_assoc]
  refine readNumber_float h hm hwhole hfraction hrest.endsPlaces (readPower_of_endsNumeral hrest)
    (.inl ?_) ?_
  · rw [Ne, hiff]
    omega
  · rwa [Option.getD_none, zero_sub, hvalue]

/-- The positional text of a whole number, with a point and a zero after it. -/
theorem readNumber_pointed (h : Binary64.Canonical m q) (hm : 0 < m) (hc : 0 < c) (he : 0 ≤ e)
    (hx : Binary64.Within m q ((c : ℚ) * 10 ^ e)) (hrest : EndsNumeral rest) :
    readNumber (Binary64.sign negative ++ (Binary64.positional c e ++ (".0".toList ++ rest))) =
      some (.float (.finite negative m q h), rest) := by
  obtain ⟨whole, fraction, hwhole, -, hiff, htext, hvalue⟩ := exists_positional hc e
  obtain rfl := hiff.2 he
  rw [List.append_nil, List.length_nil, Nat.cast_zero, neg_zero, zpow_zero, mul_one] at hvalue
  rw [htext, places_nil, List.append_nil]
  refine @readNumber_float _ _ _ _ _ ['0'] _ _ h hm hwhole (by simp) hrest.endsPlaces
    (readPower_of_endsNumeral hrest) (.inl (by simp)) ?_
  have hscaled : (Nat.ofDigitChars 10 (whole ++ ['0']) 0 : ℚ) *
      10 ^ (Option.getD none 0 - ((['0'].length : Nat) : Int)) = c * 10 ^ e := by
    have hten : Nat.ofDigitChars 10 (whole ++ ['0']) 0 = 10 * Nat.ofDigitChars 10 whole 0 := by
      rw [Nat.ofDigitChars_append]
      rfl
    rw [← hvalue, hten, Option.getD_none, zero_sub, List.length_singleton, Nat.cast_one,
      zpow_neg_one]
    push_cast
    field_simp
  rwa [hscaled]

/-- The text of a finite number is read as this number. -/
theorem readNumber_document {x : Binary64} (hx : x.isFinite = true) (hrest : EndsNumeral rest) :
    readNumber (x.toDocumentChars ++ rest) = some (.float x, rest) := by
  cases x with
  | nan => cases hx
  | infinite negative => cases hx
  | finite negative m q h =>
    rw [Binary64.toDocumentChars]
    split
    · rename_i hzero
      subst hzero
      obtain rfl : q = -1074 := h.2.2.2.resolve_left (by decide)
      have hread := @readNumber_append negative ['0'] ['0'] rest rest none (.inl rfl) (by simp)
        hrest.endsPlaces (readPower_of_endsNumeral hrest)
      rw [List.append_assoc]
      exact hread
    · rename_i hm
      have hm : 0 < m := Nat.pos_of_ne_zero hm
      have hwithin := @Binary64.within_shortest .even m q hm h.1
      have hc := hwithin.coefficient_pos hm
      generalize Binary64.shortest .even m q = decimal at hwithin hc
      obtain ⟨c, e⟩ := decimal
      simp only
      split
      · rw [List.append_assoc]
        exact readNumber_scientific h hm hc hwithin hrest
      · split
        · rename_i he
          rw [List.append_assoc, List.append_assoc]
          exact readNumber_pointed h hm hc he hwithin hrest
        · rename_i he
          rw [List.append_assoc]
          exact readNumber_positional h hm hc (by omega) hwithin hrest

end Floats

end FormulaPipeline.Json
