import FormulaPipeline.Proofs.Json.Numerals
import FormulaPipeline.Proofs.Number.Rational
import FormulaPipeline.Proofs.Pipeline.Values
import FormulaPipeline.Value.Coercion

/-!
# Reading back texts as numbers

The text of a finite number, and that of a whole number of 64 bits, is read as this number. No other
scalar has a text that holds a number, except for texts that hold one themselves.
-/

namespace FormulaPipeline

namespace Text

theorem dropWhile_of_forall {cs : List Char} (h : ∀ c ∈ cs, isBlank c = false) :
    cs.dropWhile isBlank = cs := by
  cases cs with
  | nil => rfl
  | cons c cs => simp [h c List.mem_cons_self]

theorem trim_of_forall {cs : List Char} (h : ∀ c ∈ cs, isBlank c = false) : trim cs = cs := by
  have hreverse : ∀ c ∈ cs.reverse, isBlank c = false := fun c hc => h c (List.mem_reverse.1 hc)
  rw [trim, dropWhile_of_forall h, dropWhile_of_forall hreverse, List.reverse_reverse]

end Text

namespace Json

variable {whole : List Char}

theorem Whole.exists_eq_cons (h : Whole whole) :
    ∃ d rest, whole = d :: rest ∧ d.isDigit = true := by
  obtain rfl | ⟨⟨d, rest, rfl, -⟩, hdigits⟩ := h
  · exact ⟨'0', [], rfl, by decide⟩
  · exact ⟨d, rest, rfl, hdigits d List.mem_cons_self⟩

theorem Whole.isDigit_of_mem (h : Whole whole) : ∀ d ∈ whole, d.isDigit = true := by
  obtain rfl | ⟨-, hdigits⟩ := h
  · simp
  · exact hdigits

end Json

namespace Binary64

open Json (Whole places)

variable {negative : Bool} {whole fraction : List Char}

theorem not_isBlank_of_isDigit {c : Char} (h : c.isDigit = true) : Text.isBlank c = false := by
  obtain ⟨hlow, hhigh⟩ := Char.isDigit_iff_toNat.1 h
  have hzero : '0'.toNat = 48 := rfl
  have hnine : '9'.toNat = 57 := rfl
  simp [Text.isBlank, Text.inRanges, Text.blankRanges]
  omega

theorem toLower_of_isDigit {c : Char} (h : c.isDigit = true) : c.toLower = c := by
  obtain ⟨hlow, hhigh⟩ := Char.isDigit_iff_toNat.1 h
  have hnine : '9'.toNat = 57 := rfl
  have hA : 'A'.toNat = 65 := rfl
  refine dif_neg ?_
  rintro ⟨hle, -⟩
  have hle : 'A'.toNat ≤ c.toNat := hle
  omega

/-- A numeral is none of the words for the values that are not finite. -/
theorem map_toLower_ne {d : Char} {rest word : List Char} (hd : d.isDigit = true)
    (hword : word.head?.any Char.isDigit = false) : (d :: rest).map Char.toLower ≠ word := by
  rintro rfl
  rw [List.map_cons, toLower_of_isDigit hd, List.head?_cons, Option.any_some, hd] at hword
  cases hword

theorem readPlaces_append (hwhole : Whole whole) (hfraction : ∀ d ∈ fraction, d.isDigit = true) :
    readPlaces (whole ++ places fraction) =
      some (Nat.ofDigitChars 10 (whole ++ fraction) 0, fraction.length, []) := by
  have hsplit : ∀ c, (places fraction).head? = some c → c.isDigit = false := by
    intro c hc
    unfold places at hc
    split at hc
    · cases hc
    · cases hc
      decide
  have htake := Json.takeWhile_digits hwhole.isDigit_of_mem hsplit
  have hdrop := Json.dropWhile_digits hwhole.isDigit_of_mem hsplit
  obtain ⟨d, rest, rfl, -⟩ := hwhole.exists_eq_cons
  unfold readPlaces
  rw [htake, hdrop]
  cases fraction with
  | nil => simp [places]
  | cons f fs =>
    have htake' := @Json.takeWhile_digits _ [] hfraction (by simp)
    have hdrop' := @Json.dropWhile_digits _ [] hfraction (by simp)
    rw [List.append_nil] at htake' hdrop'
    simp only [places, reduceCtorEq, if_false, htake', hdrop']
    rfl

theorem readUnsigned_append (hwhole : Whole whole)
    (hfraction : ∀ d ∈ fraction, d.isDigit = true) :
    readUnsigned negative (whole ++ places fraction) = some (ofDecimal negative
      (Nat.ofDigitChars 10 (whole ++ fraction) 0) (-(fraction.length : ℤ))) := by
  have hread := readPlaces_append hwhole hfraction
  obtain ⟨d, rest, rfl, hd⟩ := hwhole.exists_eq_cons
  rw [List.cons_append] at hread ⊢
  simp only [readUnsigned, hread]
  rw [if_neg, if_neg (map_toLower_ne hd (by decide))]
  · simp [readExponent]
  · exact not_or.2 ⟨map_toLower_ne hd (by decide), map_toLower_ne hd (by decide)⟩

theorem ofChars?_sign {d : Char} {rest : List Char} (hd : d.isDigit = true) :
    ofChars? (sign negative ++ d :: rest) = readUnsigned negative (d :: rest) := by
  cases negative with
  | true => rfl
  | false =>
    refine ofChars?.eq_3 _ ?_ ?_
    · rintro cs ⟨⟩
      cases hd
    · rintro cs ⟨⟩
      cases hd

/-- A numeral with a sign, a point and places. -/
theorem ofChars?_numeral (hwhole : Whole whole) (hfraction : ∀ d ∈ fraction, d.isDigit = true) :
    ofChars? (sign negative ++ (whole ++ places fraction)) = some (ofDecimal negative
      (Nat.ofDigitChars 10 (whole ++ fraction) 0) (-(fraction.length : ℤ))) := by
  rw [← readUnsigned_append hwhole hfraction]
  obtain ⟨d, rest, rfl, hd⟩ := hwhole.exists_eq_cons
  exact ofChars?_sign hd

theorem trim_numeral (hwhole : Whole whole) (hfraction : ∀ d ∈ fraction, d.isDigit = true) :
    Text.trim (sign negative ++ (whole ++ places fraction)) =
      sign negative ++ (whole ++ places fraction) := by
  have hsign : ∀ c ∈ sign negative, Text.isBlank c = false := by
    cases negative <;> simp [sign]
    decide
  have hplaces : ∀ c ∈ places fraction, Text.isBlank c = false := by
    intro c hc
    unfold places at hc
    split at hc
    · cases hc
    · rcases List.mem_cons.1 hc with rfl | hc
      · decide
      · exact not_isBlank_of_isDigit (hfraction c hc)
  refine Text.trim_of_forall fun c hc => ?_
  rcases List.mem_append.1 hc with hc | hc
  · exact hsign c hc
  · rcases List.mem_append.1 hc with hc | hc
    · exact not_isBlank_of_isDigit (hwhole.isDigit_of_mem c hc)
    · exact hplaces c hc

theorem ofDecimal_zero_exponent {c : Nat} (h : c ≤ 2 ^ 63) :
    ofDecimal negative c 0 = ofNat negative c := by
  rcases Nat.eq_zero_or_pos c with rfl | hc
  · rfl
  have hlength : (Nat.toDigits 10 c).length - 1 < 20 := by
    rw [← Nat.pow_lt_pow_iff_right (by decide : 1 < 10)]
    exact (pow_length_toDigits_le hc).trans_lt (h.trans_lt (by norm_num))
  rw [ofDecimal, if_neg hc.ne']
  simp only
  rw [if_neg (by omega), if_neg (by omega), if_pos le_rfl, ofNat]
  simp

/-- The text of a finite number is a numeral of it. -/
theorem exists_numeral {x : Binary64} (hx : x.isFinite = true) :
    ∃ negative whole fraction, Whole whole ∧ (∀ d ∈ fraction, d.isDigit = true) ∧
      x.toChars = sign negative ++ (whole ++ places fraction) ∧
      ofDecimal negative (Nat.ofDigitChars 10 (whole ++ fraction) 0) (-(fraction.length : ℤ)) =
        x := by
  obtain ⟨negative, m, q, h, rfl⟩ := exists_eq_finite hx
  rcases Nat.eq_zero_or_pos m with rfl | hm
  · obtain rfl : q = -1074 := h.2.2.2.resolve_left (by decide)
    exact ⟨negative, ['0'], [], .inl rfl, by simp, rfl, rfl⟩
  · have hwithin := @within_shortest .up m q hm h.1
    have hc := hwithin.coefficient_pos hm
    obtain ⟨whole, fraction, hwhole, hfraction, -, htext, hvalue⟩ :=
      Json.exists_positional hc (shortest .up m q).2
    rw [← hvalue] at hwithin
    refine ⟨negative, whole, fraction, hwhole, hfraction, ?_, ofDecimal_eq h hm hwithin⟩
    rw [toChars, if_neg hm.ne', ← htext]

end Binary64

namespace Value

open Json (Whole places)

theorem numberIn?_numeral {negative : Bool} {whole fraction : List Char} {s : String}
    {x : Binary64} (hwhole : Whole whole) (hfraction : ∀ d ∈ fraction, d.isDigit = true)
    (hs : s.toList = Binary64.sign negative ++ (whole ++ places fraction))
    (hread : Binary64.ofDecimal negative (Nat.ofDigitChars 10 (whole ++ fraction) 0)
      (-(fraction.length : ℤ)) = x) (hx : x.isFinite = true) : numberIn? s = some x := by
  rw [numberIn?, hs, Binary64.trim_numeral hwhole hfraction,
    Binary64.ofChars?_numeral hwhole hfraction, hread]
  exact Option.filter_some_pos hx

theorem numberIn?_toText {x : Binary64} (hx : x.isFinite = true) :
    numberIn? x.toText = some x := by
  obtain ⟨negative, whole, fraction, hwhole, hfraction, htext, hread⟩ :=
    Binary64.exists_numeral hx
  refine numberIn?_numeral hwhole hfraction ?_ hread hx
  rw [Binary64.toText, String.toList_ofList, htext]

theorem numberIn?_toString (n : Int64) :
    numberIn? (toString n.toInt) = some (Binary64.ofInt n.toInt) := by
  refine @numberIn?_numeral (n.toInt < 0) _ [] _ _ (Json.whole_toDigits n.toInt.natAbs) (by simp)
    ?_ ?_ (Binary64.isNearest_toInt n).isFinite
  · rw [Json.toList_toString, Json.places_nil, List.append_nil]
  · rw [List.append_nil, Nat.ofDigitChars_ten_toDigits, List.length_nil, Nat.cast_zero, neg_zero,
      Binary64.ofDecimal_zero_exponent (Integer.natAbs_toInt_le n)]
    rfl

/-- The text of a scalar holds a number if and only if the scalar counts as one. -/
theorem isSome_numberIn?_toText {v : Value} (h : v.IsScalar) :
    (numberIn? v.toText).isSome = v.toNumber?.isSome := by
  cases v with
  | null => decide +kernel
  | bool b => cases b <;> decide +kernel
  | int n =>
    have hread := numberIn?_toString n
    rw [show (Value.int n).toText = toString n.toInt by simp [toText, asString], hread]
    rfl
  | float x =>
    rw [show (Value.float x).toText = x.toText by simp [toText, asString]]
    cases x with
    | nan => decide +kernel
    | infinite negative => cases negative <;> decide +kernel
    | finite negative m q hc =>
      rw [numberIn?_toText rfl]
      rfl
  | text s => rw [show (Value.text s).toText = s by simp [toText, asString]]; rfl
  | array items => exact h.elim
  | object fields => exact h.elim
  | record _ _ => exact h.elim

end Value

end FormulaPipeline
