import FormulaPipeline.Proofs.Number.Decimals

/-!
# Rounding to whole numbers and to places

A float that is a whole number is left alone by every rounding to whole numbers, and it has a whole
decimal. A decimal that is rounded to a count of places becomes the nearest multiple of the unit of
these places, and of two equally near ones the one away from zero.
-/

namespace FormulaPipeline

namespace Rounding

variable {num den : Nat}

theorem halfUp_bounds (hden : 0 < den) :
    2 * (halfUp num den * den) ≤ 2 * num + den ∧ 2 * num < 2 * (halfUp num den * den) + den := by
  have hdiv : den * (num / den) + num % den = num := Nat.div_add_mod num den
  have hmod : num % den < den := Nat.mod_lt num hden
  rw [Nat.mul_comm] at hdiv
  simp only [halfUp]
  split
  · omega
  · rw [Nat.add_one_mul (num / den)]
    omega

/-- No whole number is nearer to a quotient than the rounded one, and one that is as near is no
farther from zero. -/
theorem abs_sub_halfUp_le_abs_sub (hden : 0 < den) (t : ℤ) :
    |(num : ℚ) / den - halfUp num den| ≤ |(num : ℚ) / den - t| ∧
      (|(num : ℚ) / den - t| = |(num : ℚ) / den - halfUp num den| → t.natAbs ≤ halfUp num den) := by
  have hden' : (0 : ℚ) < den := by exact_mod_cast hden
  obtain ⟨hlow, hhigh⟩ := @halfUp_bounds num den hden
  have hlow' : (halfUp num den : ℚ) - 1 / 2 ≤ num / den := by
    rw [le_div_iff₀ hden']
    have hcast : (2 * (halfUp num den * den) : ℚ) ≤ 2 * num + den := by exact_mod_cast hlow
    linarith
  have hhigh' : (num : ℚ) / den < halfUp num den + 1 / 2 := by
    rw [div_lt_iff₀ hden']
    have hcast : (2 * num : ℚ) < 2 * (halfUp num den * den) + den := by exact_mod_cast hhigh
    linarith
  have hhalf : |(num : ℚ) / den - halfUp num den| ≤ 1 / 2 := by
    rw [abs_le]
    constructor <;> linarith
  have hpos : (0 : ℚ) ≤ (num : ℚ) / den := by positivity
  generalize (num : ℚ) / den = v at *
  rcases lt_trichotomy t (halfUp num den) with hlt | heq | hgt
  · have hle : (t : ℚ) ≤ halfUp num den - 1 := by
      have hle : t ≤ halfUp num den - 1 := by omega
      exact_mod_cast hle
    rw [abs_of_nonneg (by linarith : 0 ≤ v - t)]
    refine ⟨by linarith, fun htie => ?_⟩
    -- a tie leaves the lower number at most one half below, so it is not negative
    have hnonneg : (-1 : ℚ) < t := by linarith
    have hnonneg' : -1 < t := by exact_mod_cast hnonneg
    omega
  · subst heq
    exact ⟨le_rfl, fun _ => le_rfl⟩
  · have hge : (halfUp num den : ℚ) + 1 ≤ t := by exact_mod_cast hgt
    rw [abs_of_neg (by linarith : v - t < 0)]
    exact ⟨by linarith, fun htie => by linarith⟩

end Rounding

namespace Binary64

section Whole

variable {x : Binary64} {n : ℤ}

theorem coefficient_of_whole {negative : Bool} {m : Nat} {q : ℤ} {hc : Canonical m q}
    (h : (finite negative m q hc).toRat = n) :
    m * 2 ^ q.toNat = n.natAbs * 2 ^ (-q).toNat := by
  have hvalue : (m : ℚ) * 2 ^ q = n.natAbs := by rw [← abs_toRat negative m q hc, h, abs_cast_int]
  rw [zpow_eq_div two_ne_zero, ← mul_div_assoc, div_eq_iff (by positivity)] at hvalue
  exact_mod_cast hvalue

theorem cut_of_toRat_eq {negative : Bool} {m : Nat} {q : ℤ} {hc : Canonical m q}
    (h : (finite negative m q hc).toRat = n) : cut m q = (n.natAbs, false) := by
  have hcoefficient := coefficient_of_whole h
  by_cases hq : 0 ≤ q
  · rw [Int.toNat_of_nonpos (by omega : -q ≤ 0), Nat.pow_zero, Nat.mul_one] at hcoefficient
    rw [cut_of_whole m hq, hcoefficient]
  · rw [Int.toNat_of_nonpos (by omega : q ≤ 0), Nat.pow_zero, Nat.mul_one] at hcoefficient
    rw [cut, if_neg hq, hcoefficient, Nat.mul_div_cancel _ (Nat.two_pow_pos _), Nat.mul_mod_left]
    rfl

theorem signed_of_toRat_eq {negative : Bool} {m : Nat} {q : ℤ} {hc : Canonical m q}
    (h : (finite negative m q hc).toRat = n) : signed negative n.natAbs = n := by
  have hpos : (0 : ℚ) ≤ m * 2 ^ q := mul_nonneg (Nat.cast_nonneg m) (two_zpow_pos q).le
  cases negative with
  | false =>
    have hn : (0 : ℚ) ≤ n := by rw [← h]; exact_mod_cast hpos
    have hn' : 0 ≤ n := by exact_mod_cast hn
    simp only [signed, Bool.false_eq_true, if_false]
    omega
  | true =>
    have hn : (n : ℚ) ≤ 0 := by
      rw [← h, toRat, signed, if_pos rfl, Int.cast_neg, neg_mul, neg_nonpos]
      exact_mod_cast hpos
    have hn' : n ≤ 0 := by exact_mod_cast hn
    simp only [signed, if_true]
    omega

theorem ofNat_of_toRat_eq {negative : Bool} {m : Nat} {q : ℤ} {hc : Canonical m q}
    (h : (finite negative m q hc).toRat = n) :
    ofNat negative n.natAbs = finite negative m q hc := by
  have hvalue : (m : ℚ) * 2 ^ q = n.natAbs := by rw [← abs_toRat negative m q hc, h, abs_cast_int]
  rcases Nat.eq_zero_or_pos m with rfl | hm
  · have hq : q = -1074 := hc.2.2.2.resolve_left (by decide)
    subst hq
    have hn : n.natAbs = 0 := by
      rw [Nat.cast_zero, zero_mul] at hvalue
      exact_mod_cast hvalue.symm
    rw [hn]
    rfl
  · refine ofRatio_of_eq hc hm Nat.one_pos ?_
    rw [hvalue, Nat.cast_one, div_one]

variable (hx : x.isFinite = true) (h : x.toRat = n)
include hx h

theorem floor_of_whole : x.floor = x := by
  obtain ⟨negative, m, q, hc, rfl⟩ := exists_eq_finite hx
  simp only [floor, mapMagnitude, cut_of_toRat_eq h, Bool.and_false, Bool.toNat_false, Nat.add_zero]
  exact ofNat_of_toRat_eq h

theorem ceil_of_whole : x.ceil = x := by
  obtain ⟨negative, m, q, hc, rfl⟩ := exists_eq_finite hx
  simp only [ceil, mapMagnitude, cut_of_toRat_eq h, Bool.and_false, Bool.toNat_false, Nat.add_zero]
  exact ofNat_of_toRat_eq h

theorem isWhole_of_toRat_eq : x.isWhole = true := by
  obtain ⟨negative, m, q, hc, rfl⟩ := exists_eq_finite hx
  have hcut := congrArg Prod.snd (cut_of_toRat_eq h)
  by_cases hq : 0 ≤ q
  · simp [isWhole, hq]
  · rw [cut, if_neg hq] at hcut
    simpa [isWhole, hq] using hcut

theorem truncateTo_of_whole (low high : ℤ) : x.truncateTo low high = max low (min high n) := by
  obtain ⟨negative, m, q, hc, rfl⟩ := exists_eq_finite hx
  rw [truncateTo, cut_of_toRat_eq h, signed_of_toRat_eq h]

end Whole

theorem toRat_abs (x : Binary64) : x.abs.toRat = |x.toRat| := by
  cases x with
  | nan => simp [abs, toRat]
  | infinite negative => simp [abs, toRat]
  | finite negative m q hc => rw [abs_toRat, abs, toRat, signed, if_neg Bool.false_ne_true]; rfl

end Binary64

namespace Decimal

open Binary64

/-! ## Whole floats as decimals -/

/-- A coefficient with factors two to spare hands them to the power. -/
theorem absorbFives_mul_two_pow (n b : Nat) (e : ℤ) :
    absorbFives n (b * 2 ^ n) e = (b, e + n) := by
  induction n generalizing e with
  | zero => simp [absorbFives]
  | succ n ih =>
    rw [Nat.pow_succ, ← Nat.mul_assoc, absorbFives, if_pos (Nat.mul_mod_left _ _),
      Nat.mul_div_cancel _ Nat.two_pos, ih]
    push_cast
    congr 1
    ring

/-- A whole float that decimals have room for is taken unchanged. -/
theorem ofBinary64?_of_whole {x : Binary64} {n : ℤ} (hx : x.isFinite = true) (h : x.toRat = n)
    (hroom : n.natAbs < limit) : ofBinary64? x = some (ofWhole n hroom) := by
  obtain ⟨negative, m, q, hc, rfl⟩ := exists_eq_finite hx
  have hsigned := signed_of_toRat_eq h
  have hcoefficient := coefficient_of_whole h
  rcases Nat.eq_zero_or_pos m with rfl | hm
  · rw [Nat.zero_mul, eq_comm, Nat.mul_eq_zero, or_iff_left (by positivity),
      Int.natAbs_eq_zero] at hcoefficient
    subst hcoefficient
    rfl
  rw [ofBinary64?, if_neg hm.ne']
  by_cases hq : 0 ≤ q
  · rw [Int.toNat_of_nonpos (by omega : -q ≤ 0), Nat.pow_zero, Nat.mul_one] at hcoefficient
    rw [ofDyadic?_whole hq (by rwa [hcoefficient]), hcoefficient, hsigned]
    exact make?_zero hroom
  · rw [Int.toNat_of_nonpos (by omega : q ≤ 0), Nat.pow_zero, Nat.mul_one] at hcoefficient
    have habsorb : absorbFives (-q).toNat m q = (n.natAbs, 0) := by
      rw [hcoefficient, absorbFives_mul_two_pow, Int.toNat_of_nonneg (by omega), add_neg_cancel]
    simp only [ofDyadic?, hq, if_false, habsorb]
    simp [absorbTens, dropPlaces, dropExcess, dropZeros, hsigned, make?_zero hroom]

/-! ## Rounding to places -/

/-- A number rounded to a count of decimal places: a nearest multiple of the unit, and of two
equally near ones the one away from zero. -/
structure IsRounded (places : Nat) (v r : ℚ) : Prop where
  multiple : ∃ n : ℤ, r = n / 10 ^ places
  nearest : ∀ n : ℤ, |v - r| ≤ |v - n / 10 ^ places|
  away : ∀ n : ℤ, |v - n / 10 ^ places| = |v - r| → |(n / 10 ^ places : ℚ)| ≤ |r|

namespace IsRounded

variable {p q : Nat} {v r s : ℚ}

theorem unique (hr : IsRounded p v r) (hs : IsRounded p v s) : r = s := by
  obtain ⟨m, rfl⟩ := hr.multiple
  obtain ⟨n, rfl⟩ := hs.multiple
  have hdistance := le_antisymm (hr.nearest n) (hs.nearest m)
  have habs := le_antisymm (hs.away m hdistance) (hr.away n hdistance.symm)
  rcases abs_eq_abs.1 habs with heq | hneg
  · exact heq
  · -- two opposite numbers are equally near to zero only, which is a multiple itself
    rw [hneg, sub_neg_eq_add] at hdistance
    have hzero := hs.nearest 0
    rw [Int.cast_zero, zero_div, sub_zero] at hzero
    generalize (n : ℚ) / 10 ^ p = s at *
    have hs0 : s = 0 := by
      rcases abs_eq_abs.1 hdistance with heq | hopposite
      · linarith
      · obtain rfl : v = 0 := by linarith
        simpa using hzero
    rw [hneg, hs0, neg_zero]

theorem self (h : ∃ n : ℤ, v = n / 10 ^ p) : IsRounded p v v where
  multiple := h
  nearest n := by
    rw [sub_self, abs_zero]
    exact abs_nonneg _
  away n htie := by
    rw [sub_self, abs_zero, abs_eq_zero, sub_eq_zero] at htie
    rw [htie]

theorem neg (h : IsRounded p v r) : IsRounded p (-v) (-r) := by
  have hflip : ∀ n : ℤ, |-v - n / 10 ^ p| = |v - (-n : ℤ) / 10 ^ p| := by
    intro n
    rw [← abs_neg, Int.cast_neg, neg_div]
    congr 1
    ring
  have hdistance : |-v - -r| = |v - r| := by rw [← abs_neg, neg_sub_neg, neg_sub]
  refine ⟨?_, fun n => ?_, fun n htie => ?_⟩
  · obtain ⟨n, rfl⟩ := h.multiple
    exact ⟨-n, by rw [Int.cast_neg, neg_div]⟩
  · rw [hflip, hdistance]
    exact h.nearest (-n)
  · rw [hflip, hdistance] at htie
    have haway := h.away (-n) htie
    rwa [Int.cast_neg, neg_div, abs_neg, ← abs_neg r] at haway

/-- More places do not take a rounded number farther away. -/
theorem mono (hr : IsRounded p v r) (hs : IsRounded q v s) (h : p ≤ q) : |v - s| ≤ |v - r| := by
  obtain ⟨n, rfl⟩ := hr.multiple
  have hfine : (n : ℚ) / 10 ^ p = (n * 10 ^ (q - p) : ℤ) / 10 ^ q := by
    rw [← Nat.add_sub_cancel' h, Nat.add_sub_cancel_left, pow_add, div_eq_div_iff (by positivity)
      (by positivity)]
    push_cast
    ring
  rw [hfine]
  exact hs.nearest _

end IsRounded

theorem isRounded_halfUp (num : Nat) {den : Nat} (hden : 0 < den) (places : Nat) :
    IsRounded places ((num : ℚ) / den / 10 ^ places) (Rounding.halfUp num den / 10 ^ places) := by
  have hunit : (0 : ℚ) < 10 ^ places := by positivity
  have hdistance : ∀ t : ℤ, |(num : ℚ) / den / 10 ^ places - t / 10 ^ places| =
      |(num : ℚ) / den - t| / 10 ^ places := by
    intro t
    rw [← sub_div, abs_div, abs_of_pos hunit]
  have hrounded := hdistance (Rounding.halfUp num den)
  rw [Int.cast_natCast] at hrounded
  refine ⟨⟨Rounding.halfUp num den, by rw [Int.cast_natCast]⟩, fun t => ?_, fun t htie => ?_⟩
  · rw [hdistance, hrounded]
    exact div_le_div_of_nonneg_right (Rounding.abs_sub_halfUp_le_abs_sub hden t).1 hunit.le
  · rw [hdistance, hrounded, div_left_inj' hunit.ne'] at htie
    rw [abs_div, abs_div, abs_cast_int, Nat.abs_cast]
    refine div_le_div_of_nonneg_right ?_ (abs_nonneg _)
    exact_mod_cast (Rounding.abs_sub_halfUp_le_abs_sub hden t).2 htie

theorem toRat_roundTo {d : Decimal} {places : Nat} (h : places < d.scale) :
    (d.roundTo places).toRat = d.coefficient.sign *
      (Rounding.halfUp d.coefficient.natAbs (10 ^ (d.scale - places)) / 10 ^ places) := by
  have hroom : (d.coefficient.sign *
      Rounding.halfUp d.coefficient.natAbs (10 ^ (d.scale - places)) : ℤ).natAbs < limit := by
    have hunit : 0 < 10 ^ (d.scale - places) := by positivity
    exact ((natAbs_sign_mul_le _ _).trans (Rounding.halfUp_le hunit
      (Nat.le_mul_of_pos_right _ hunit))).trans_lt d.coefficient_lt
  have hplaces : places ≤ 28 := h.le.trans d.scale_le
  simp only [roundTo, not_le.2 h, if_false, make?, hroom, hplaces, and_self, dite_true,
    Option.getD_some, toRat]
  push_cast
  ring

theorem toRat_eq_sign_mul {d : Decimal} {places : Nat} (h : places < d.scale) : d.toRat =
    d.coefficient.sign *
      ((d.coefficient.natAbs : ℚ) / (10 ^ (d.scale - places) : Nat) / 10 ^ places) := by
  rw [toRat, div_div, Nat.cast_pow, Nat.cast_ofNat, ← pow_add, Nat.sub_add_cancel h.le,
    ← mul_div_assoc]
  rw [← Int.cast_natCast d.coefficient.natAbs, ← Int.cast_mul, Int.sign_mul_natAbs]

theorem isRounded_roundTo (d : Decimal) (places : Nat) :
    IsRounded places d.toRat (d.roundTo places).toRat := by
  by_cases h : d.scale ≤ places
  · rw [roundTo, if_pos h]
    refine .self ⟨d.coefficient * 10 ^ (places - d.scale), ?_⟩
    rw [toRat, div_eq_div_iff (by positivity) (by positivity), ← Nat.add_sub_cancel' h, pow_add]
    push_cast
    rw [Nat.add_sub_cancel_left]
    ring
  · rw [not_le] at h
    have hmagnitude := isRounded_halfUp d.coefficient.natAbs
      (Nat.pow_pos (n := d.scale - places) (by decide : 0 < 10)) places
    rw [toRat_roundTo h, toRat_eq_sign_mul h]
    rcases lt_trichotomy d.coefficient 0 with hlt | heq | hgt
    · simpa [Int.sign_eq_neg_one_of_neg hlt] using hmagnitude.neg
    · simpa [heq] using IsRounded.self (p := places) ⟨0, by simp⟩
    · simpa [Int.sign_eq_one_of_pos hgt] using hmagnitude

theorem roundTo_of_le {d : Decimal} {places : Nat} (h : 28 ≤ places) : d.roundTo places = d := by
  rw [roundTo, if_pos (d.scale_le.trans h)]

end Decimal

end FormulaPipeline
