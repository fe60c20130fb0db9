import FormulaPipeline.Proofs.Number.Nearest

/-!
# The shortest digits

The digits that are written for a finite number denote a number that rounds to it. Seventeen digits
are always enough, so the search for them ends before its fuel does.
-/

namespace FormulaPipeline.Binary64

theorem ten_zpow_pos (z : ℤ) : (0 : ℚ) < 10 ^ z := zpow_pos (by norm_num) z

theorem ten_zpow_lt_iff {a b : ℤ} : (10 : ℚ) ^ a < 10 ^ b ↔ a < b :=
  zpow_lt_zpow_iff_right₀ (by norm_num)

/-! ## Digits of natural numbers -/

theorem pow_length_toDigits_le {n : Nat} (hn : 0 < n) :
    10 ^ ((Nat.toDigits 10 n).length - 1) ≤ n := by
  by_contra hlt
  rw [not_le] at hlt
  cases hlength : (Nat.toDigits 10 n).length - 1 with
  | zero =>
    rw [hlength] at hlt
    omega
  | succ k =>
    rw [hlength] at hlt
    have hle := (Nat.length_toDigits_le_iff (by norm_num) k.succ_pos).2 hlt
    omega

theorem lt_pow_length_toDigits (n : Nat) : n < 10 ^ (Nat.toDigits 10 n).length :=
  (Nat.length_toDigits_le_iff (by norm_num) Nat.length_toDigits_pos).1 le_rfl

theorem floorLog10_le {num den : Nat} (hnum : 0 < num) (hden : 0 < den) :
    (10 : ℚ) ^ floorLog10 num den ≤ (num : ℚ) / den := by
  have hden' : (0 : ℚ) < den := by exact_mod_cast hden
  unfold floorLog10
  split
  · rename_i hle
    have hquotient : 0 < num / den := Nat.div_pos hle hden
    have hpow := (Nat.le_div_iff_mul_le hden).1 (pow_length_toDigits_le hquotient)
    have hpos : 0 < (Nat.toDigits 10 (num / den)).length := Nat.length_toDigits_pos
    rw [le_div_iff₀ hden', show ((Nat.toDigits 10 (num / den)).length : ℤ) - 1 =
      (((Nat.toDigits 10 (num / den)).length - 1 : Nat) : ℤ) by omega, zpow_natCast]
    exact_mod_cast hpow
  · have hlt := lt_pow_length_toDigits (den / num)
    have hpos : 0 < (Nat.toDigits 10 (den / num)).length := Nat.length_toDigits_pos
    have hinv : ∀ k : Nat, den ≤ num * 10 ^ k → (10 : ℚ) ^ (-(k : ℤ)) ≤ (num : ℚ) / den := by
      intro k hk
      rw [zpow_neg, zpow_natCast, le_div_iff₀ hden', inv_mul_le_iff₀ (by positivity), mul_comm]
      exact_mod_cast hk
    simp only
    split
    · rename_i hle
      have h := hinv _ hle
      rwa [Nat.cast_sub hpos, Nat.cast_one, neg_sub] at h
    · refine hinv _ ?_
      rw [Nat.div_lt_iff_lt_mul hnum] at hlt
      rw [Nat.mul_comm]
      exact hlt.le

/-! ## Multiples of a power of ten in the interval -/

section Multiples

variable {tie : Tie} {m : Nat} {q e : ℤ}

/-- Comparisons over the common denominator of `multipleWithin`. -/
theorem scaled_le_iff (a c : Nat) (q e : ℤ) :
    a * (2 ^ (q - 2).toNat * 10 ^ (-e).toNat) ≤ c * (10 ^ e.toNat * 2 ^ (2 - q).toNat) ↔
      (a : ℚ) * 2 ^ (q - 2) ≤ c * 10 ^ e := by
  rw [zpow_eq_div two_ne_zero, zpow_eq_div (by norm_num : (10 : ℚ) ≠ 0), neg_sub, ← mul_div_assoc,
    ← mul_div_assoc, div_le_div_iff₀ (by positivity) (by positivity), mul_assoc, mul_assoc]
  exact_mod_cast Iff.rfl

theorem scaled_lt_iff (a c : Nat) (q e : ℤ) :
    a * (2 ^ (q - 2).toNat * 10 ^ (-e).toNat) < c * (10 ^ e.toNat * 2 ^ (2 - q).toNat) ↔
      (a : ℚ) * 2 ^ (q - 2) < c * 10 ^ e := by
  rw [zpow_eq_div two_ne_zero, zpow_eq_div (by norm_num : (10 : ℚ) ≠ 0), neg_sub, ← mul_div_assoc,
    ← mul_div_assoc, div_lt_div_iff₀ (by positivity) (by positivity), mul_assoc, mul_assoc]
  exact_mod_cast Iff.rfl

theorem scaled_ge_iff (a c : Nat) (q e : ℤ) :
    c * (10 ^ e.toNat * 2 ^ (2 - q).toNat) ≤ a * (2 ^ (q - 2).toNat * 10 ^ (-e).toNat) ↔
      (c : ℚ) * 10 ^ e ≤ a * 2 ^ (q - 2) := by
  rw [← not_lt, scaled_lt_iff, not_lt]

theorem scaled_gt_iff (a c : Nat) (q e : ℤ) :
    c * (10 ^ e.toNat * 2 ^ (2 - q).toNat) < a * (2 ^ (q - 2).toNat * 10 ^ (-e).toNat) ↔
      (c : ℚ) * 10 ^ e < a * 2 ^ (q - 2) := by
  rw [← not_le, scaled_le_iff, not_le]

/-- The greatest multiplier that does not exceed `m * 2 ^ q`. -/
def below (m : Nat) (q e : ℤ) : Nat :=
  4 * m * (2 ^ (q - 2).toNat * 10 ^ (-e).toNat) / (10 ^ e.toNat * 2 ^ (2 - q).toNat)

theorem below_le (m : Nat) (q e : ℤ) :
    (below m q e : ℚ) * 10 ^ e ≤ (4 * m : Nat) * 2 ^ (q - 2) := by
  rw [← not_lt, ← scaled_lt_iff, not_lt]
  exact Nat.div_mul_le_self _ _

theorem lt_below_succ (m : Nat) (q e : ℤ) :
    ((4 * m : Nat) : ℚ) * 2 ^ (q - 2) < (below m q e + 1 : Nat) * 10 ^ e := by
  rw [← scaled_lt_iff, Nat.mul_comm (below m q e + 1)]
  exact Nat.lt_mul_div_succ _ (by positivity)

theorem low_le (m : Nat) (q : ℤ) : (interval m q).low ≤ 4 * m := by
  simp only [interval]
  split <;> omega

/-- Whether a multiplier reaches the lower end of the interval. -/
def LowFits (m : Nat) (q e : ℤ) (c : Nat) : Prop :=
  if (interval m q).closed = true then
    ((interval m q).low : ℚ) * 2 ^ (q - 2) ≤ c * 10 ^ e
  else ((interval m q).low : ℚ) * 2 ^ (q - 2) < c * 10 ^ e

def HighFits (m : Nat) (q e : ℤ) (c : Nat) : Prop :=
  if (interval m q).closed = true then
    (c : ℚ) * 10 ^ e ≤ ((interval m q).high : ℚ) * 2 ^ (q - 2)
  else (c : ℚ) * 10 ^ e < ((interval m q).high : ℚ) * 2 ^ (q - 2)

/-- The answer of two candidates with a preference between them. -/
theorem candidate_cases {α : Type} {low high wins : Prop} [Decidable low] [Decidable high]
    [Decidable wins] (a b : α) :
    let answer := if low ∧ (¬high ∨ wins) then some a else if high then some b else none
    (low ∧ answer = some a) ∨ (high ∧ answer = some b) ∨ (¬low ∧ answer = none) := by
  by_cases hlow : low <;> by_cases hhigh : high <;> by_cases hwins : wins <;>
    simp [hlow, hhigh, hwins]

/-- The two candidates are tried against one end each. -/
theorem multipleWithin_cases (tie : Tie) (m : Nat) (q e : ℤ) :
    (LowFits m q e (below m q e) ∧ multipleWithin tie m q e = some (below m q e)) ∨
      (HighFits m q e (below m q e + 1) ∧ multipleWithin tie m q e = some (below m q e + 1)) ∨
      (¬LowFits m q e (below m q e) ∧ multipleWithin tie m q e = none) := by
  rw [LowFits, HighFits]
  simp only [← scaled_le_iff, ← scaled_lt_iff, ← scaled_ge_iff, ← scaled_gt_iff]
  exact candidate_cases _ _

theorem within_of_multipleWithin {c : Nat} (h : multipleWithin tie m q e = some c) :
    Within m q ((c : ℚ) * 10 ^ e) := by
  have hunit := two_zpow_pos (q - 2)
  obtain ⟨hlow, heq⟩ | ⟨hhigh, heq⟩ | ⟨-, heq⟩ := multipleWithin_cases tie m q e
  · obtain rfl : below m q e = c := by rw [heq] at h; exact Option.some.inj h
    have hlt : (below m q e : ℚ) * 10 ^ e < (interval m q).high * 2 ^ (q - 2) := by
      refine (below_le m q e).trans_lt (mul_lt_mul_of_pos_right ?_ hunit)
      have hlt : 4 * m < (interval m q).high := by simp only [interval]; omega
      exact_mod_cast hlt
    unfold LowFits at hlow
    split at hlow
    · rename_i hclosed
      exact ⟨hlow, hlt.le, fun hopen => absurd hclosed (by simp [hopen])⟩
    · exact ⟨hlow.le, hlt.le, fun _ => ⟨hlow, hlt⟩⟩
  · obtain rfl : below m q e + 1 = c := by rw [heq] at h; exact Option.some.inj h
    have hlt : ((interval m q).low : ℚ) * 2 ^ (q - 2) < (below m q e + 1 : Nat) * 10 ^ e := by
      refine lt_of_le_of_lt (mul_le_mul_of_nonneg_right ?_ hunit.le) (lt_below_succ m q e)
      exact_mod_cast low_le m q
    unfold HighFits at hhigh
    split at hhigh
    · rename_i hclosed
      exact ⟨hlt.le, hhigh, fun hopen => absurd hclosed (by simp [hopen])⟩
    · exact ⟨hlt.le, hhigh.le, fun _ => ⟨hlt, hhigh⟩⟩
  · rw [heq] at h
    cases h

/-- A power of ten that is no more than a quarter of the spacing has a multiple in the interval. -/
theorem exists_multipleWithin (hm : 0 < m) (he : (10 : ℚ) ^ e ≤ 2 ^ (q - 2)) :
    ∃ c, multipleWithin tie m q e = some c := by
  obtain ⟨-, heq⟩ | ⟨-, heq⟩ | ⟨hnot, -⟩ := multipleWithin_cases tie m q e
  · exact ⟨_, heq⟩
  · exact ⟨_, heq⟩
  · refine absurd ?_ hnot
    have hlow : (interval m q).low + 1 ≤ 4 * m := by
      simp only [interval]
      split <;> omega
    have hlt : ((interval m q).low : ℚ) * 2 ^ (q - 2) < below m q e * 10 ^ e := by
      have hsucc := lt_below_succ m q e
      have hle : ((interval m q).low + 1 : ℚ) * 2 ^ (q - 2) ≤ (4 * m : Nat) * 2 ^ (q - 2) :=
        mul_le_mul_of_nonneg_right (by exact_mod_cast hlow) (two_zpow_pos _).le
      rw [Nat.cast_succ] at hsucc
      linarith
    unfold LowFits
    split
    · exact hlt.le
    · exact hlt

end Multiples

/-! ## The search -/

section Search

variable {tie : Tie} {m : Nat} {q : ℤ}

theorem multipleWithin_shortestFrom {fuel k : Nat} {e : ℤ} (hk : k < fuel)
    (hfound : ∃ c, multipleWithin tie m q (e - k) = some c) :
    multipleWithin tie m q (shortestFrom tie m q fuel e).2 =
      some (shortestFrom tie m q fuel e).1 := by
  induction fuel generalizing e k with
  | zero => omega
  | succ fuel ih =>
    rw [shortestFrom]
    cases hmultiple : multipleWithin tie m q e with
    | some c => exact hmultiple
    | none =>
      cases k with
      | zero =>
        rw [Nat.cast_zero, sub_zero, hmultiple] at hfound
        exact absurd hfound (by simp)
      | succ k =>
        refine ih (by omega : k < fuel) ?_
        rwa [Nat.cast_succ, add_comm, ← sub_sub] at hfound

theorem multipleWithin_shortest (hm : 0 < m) (hsize : m < 2 * leading) :
    multipleWithin tie m q (shortest tie m q).2 = some (shortest tie m q).1 := by
  have hexp : (10 : ℚ) ^ floorLog10 (m * 2 ^ q.toNat) (2 ^ (-q).toNat) ≤ m * 2 ^ q := by
    have h := floorLog10_le (Nat.mul_pos hm (Nat.two_pow_pos q.toNat)) (Nat.two_pow_pos (-q).toNat)
    rw [zpow_eq_div two_ne_zero q, ← mul_div_assoc]
    exact_mod_cast h
  refine multipleWithin_shortestFrom (by norm_num : 18 < 20) (exists_multipleWithin hm ?_)
  generalize floorLog10 (m * 2 ^ q.toNat) (2 ^ (-q).toNat) = e at hexp
  have hsize' : (m : ℚ) * 4 ≤ 10 ^ (17 : ℤ) := by
    have hle : m * 4 ≤ 10 ^ 17 := by
      simp only [leading] at hsize
      omega
    exact_mod_cast hle
  rw [show e + 1 - ((18 : Nat) : ℤ) = e - 17 by push_cast; ring, zpow_sub₀ (by norm_num),
    div_le_iff₀ (ten_zpow_pos 17), mul_comm]
  calc (10 : ℚ) ^ e ≤ m * 2 ^ q := hexp
    _ = m * 4 * 2 ^ (q - 2) := by
      rw [zpow_sub₀ two_ne_zero, mul_assoc, show (4 : ℚ) = 2 ^ (2 : ℤ) by norm_num,
        mul_div_cancel₀ _ (two_zpow_pos 2).ne']
    _ ≤ 10 ^ (17 : ℤ) * 2 ^ (q - 2) := mul_le_mul_of_nonneg_right hsize' (two_zpow_pos _).le

/-- The shortest digits denote a number in the interval. -/
theorem within_shortest (hm : 0 < m) (hsize : m < 2 * leading) :
    Within m q (((shortest tie m q).1 : ℚ) * 10 ^ (shortest tie m q).2) :=
  within_of_multipleWithin (multipleWithin_shortest hm hsize)

end Search

/-! ## Reading a decimal of the interval -/

theorem Within.coefficient_pos {c m : Nat} {e q : ℤ} (hx : Within m q ((c : ℚ) * 10 ^ e))
    (hm : 0 < m) : 0 < c := by
  refine Nat.pos_of_ne_zero ?_
  rintro rfl
  have hpos := (two_zpow_pos _).trans_le (hx.two_zpow_le hm)
  rw [Nat.cast_zero, zero_mul] at hpos
  exact lt_irrefl 0 hpos

/-- A decimal in the interval of a number is read as this number. -/
theorem ofDecimal_eq {negative : Bool} {c m : Nat} {e q : ℤ} (h : Canonical m q) (hm : 0 < m)
    (hx : Within m q ((c : ℚ) * 10 ^ e)) : ofDecimal negative c e = .finite negative m q h := by
  obtain ⟨hmlt, hqlow, hqhigh, -⟩ := id h
  have hc := hx.coefficient_pos hm
  have hlength : 0 < (Nat.toDigits 10 c).length := Nat.length_toDigits_pos
  have hhigh : ((Nat.toDigits 10 c).length : ℤ) + e ≤ 310 := by
    have hlow : (10 : ℚ) ^ (((Nat.toDigits 10 c).length : ℤ) - 1 + e) ≤ c * 10 ^ e := by
      rw [zpow_add₀ (by norm_num), show ((Nat.toDigits 10 c).length : ℤ) - 1 =
        (((Nat.toDigits 10 c).length - 1 : Nat) : ℤ) by omega, zpow_natCast]
      refine mul_le_mul_of_nonneg_right ?_ (ten_zpow_pos e).le
      exact_mod_cast pow_length_toDigits_le hc
    have hlarge : (2 : ℚ) ^ (q + 53) ≤ 2 ^ (1024 : ℤ) :=
      zpow_le_zpow_right₀ (by norm_num) (by omega)
    have hpow : (2 : ℚ) ^ (1024 : ℤ) < 10 ^ (310 : ℤ) := by
      have hlt : 2 ^ 1024 < 10 ^ 310 := by decide +kernel
      exact_mod_cast hlt
    have hlt := ten_zpow_lt_iff.1
      (hlow.trans_lt ((hx.lt_two_zpow hmlt).trans (hlarge.trans_lt hpow)))
    omega
  have hlow : -330 ≤ ((Nat.toDigits 10 c).length : ℤ) + e := by
    have hhigh : (c : ℚ) * 10 ^ e < 10 ^ (((Nat.toDigits 10 c).length : ℤ) + e) := by
      rw [zpow_add₀ (by norm_num), zpow_natCast]
      refine mul_lt_mul_of_pos_right ?_ (ten_zpow_pos e)
      exact_mod_cast lt_pow_length_toDigits c
    have hsmall : (2 : ℚ) ^ (-1075 : ℤ) ≤ 2 ^ (q - 1) :=
      zpow_le_zpow_right₀ (by norm_num) (by omega)
    have hpow : (10 : ℚ) ^ (-330 : ℤ) < 2 ^ (-1075 : ℤ) := by
      have hlt : 2 ^ 1075 < 10 ^ 330 := by decide +kernel
      rw [zpow_neg, zpow_neg]
      refine inv_strictAnti₀ (two_zpow_pos 1075) ?_
      exact_mod_cast hlt
    have hlt := ten_zpow_lt_iff.1
      (hpow.trans_le (hsmall.trans ((hx.two_zpow_le hm).trans hhigh.le)))
    omega
  rw [ofDecimal, if_neg hc.ne']
  simp only
  rw [if_neg (by omega), if_neg (by omega)]
  split
  · rename_i he
    refine ofRatio_eq h (by positivity) (by norm_num) ?_
    rw [Nat.cast_one, div_one]
    rw [← Int.toNat_of_nonneg he, zpow_natCast] at hx
    exact_mod_cast hx
  · rename_i he
    refine ofRatio_eq h hc (by positivity) ?_
    rw [zpow_eq_div (by norm_num), Int.toNat_of_nonpos (by omega : e ≤ 0), pow_zero,
      mul_one_div] at hx
    exact_mod_cast hx

end FormulaPipeline.Binary64
