import FormulaPipeline.Number.Decimal
import FormulaPipeline.Proofs.Number.Nearest
import Mathlib.Data.Nat.Sqrt

/-!
# How large results are

A quotient that is not above a power of two is rounded to a number that is not above it either. So
the magnitudes of results are bounded by those of the operands, and results below `2 ^ 1023` are
finite. Every decimal has a finite float near it.
-/

namespace FormulaPipeline

open scoped FormulaPipeline.Power

namespace Rounding

variable {num den n : Nat}

theorem halfEven_le (hden : 0 < den) (h : num ≤ n * den) : halfEven num den ≤ n := by
  have hdiv : den * (num / den) + num % den = num := Nat.div_add_mod num den
  have hle : num / den ≤ n := Nat.div_le_of_le_mul (by rwa [Nat.mul_comm])
  unfold halfEven
  simp only
  split
  · exact hle
  · rename_i hup
    -- rounding up needs a remainder, so the quotient is below the bound
    have hne : num / den ≠ n := by
      intro heq
      rw [heq, Nat.mul_comm] at hdiv
      omega
    omega

theorem le_halfEven (hden : 0 < den) (h : n * den ≤ num) : n ≤ halfEven num den := by
  have hle : n ≤ num / den := (Nat.le_div_iff_mul_le hden).2 h
  unfold halfEven
  simp only
  split <;> omega

theorem halfUp_le (hden : 0 < den) (h : num ≤ n * den) : halfUp num den ≤ n := by
  have hdiv : den * (num / den) + num % den = num := Nat.div_add_mod num den
  have hle : num / den ≤ n := Nat.div_le_of_le_mul (by rwa [Nat.mul_comm])
  unfold halfUp
  simp only
  split
  · exact hle
  · have hne : num / den ≠ n := by
      intro heq
      rw [heq, Nat.mul_comm] at hdiv
      omega
    omega

end Rounding

namespace Binary64

theorem halfEven_scaled_le {num den n : Nat} (hden : 0 < den) (q : ℤ)
    (h : (num : ℚ) / den ≤ n * 2 ^ q) :
    (if 0 ≤ q then Rounding.halfEven num (den * 2 ^ q.toNat)
      else Rounding.halfEven (num * 2 ^ (-q).toNat) den) ≤ n := by
  have hden' : (0 : ℚ) < den := by exact_mod_cast hden
  rw [halfEven_uniform]
  apply Rounding.halfEven_le (Nat.mul_pos hden (Nat.two_pow_pos _))
  rw [zpow_eq_div two_ne_zero, ← mul_div_assoc, div_le_div_iff₀ hden' (by positivity)] at h
  have hle : (num * 2 ^ (-q).toNat : ℚ) ≤ n * (den * 2 ^ q.toNat) := by linarith
  exact_mod_cast hle

theorem le_halfEven_scaled {num den n : Nat} (hden : 0 < den) (q : ℤ)
    (h : (n : ℚ) * 2 ^ q ≤ (num : ℚ) / den) :
    n ≤ (if 0 ≤ q then Rounding.halfEven num (den * 2 ^ q.toNat)
      else Rounding.halfEven (num * 2 ^ (-q).toNat) den) := by
  have hden' : (0 : ℚ) < den := by exact_mod_cast hden
  rw [halfEven_uniform]
  apply Rounding.le_halfEven (Nat.mul_pos hden (Nat.two_pow_pos _))
  rw [zpow_eq_div two_ne_zero, ← mul_div_assoc, div_le_div_iff₀ (by positivity) hden'] at h
  have hle : (n * (den * 2 ^ q.toNat) : ℚ) ≤ num * 2 ^ (-q).toNat := by linarith
  exact_mod_cast hle

theorem two_zpow_le_iff {a b : ℤ} : (2 : ℚ) ^ a ≤ 2 ^ b ↔ a ≤ b :=
  zpow_le_zpow_iff_right₀ (by norm_num)

theorem two_leading_mul (q : ℤ) : (2 * leading : Nat) * (2 : ℚ) ^ q = 2 ^ (q + 53) := by
  rw [zpow_add₀ two_ne_zero, mul_comm]
  norm_num [leading]

theorem two_pow_toNat_mul {q k : ℤ} (h : q ≤ k) :
    ((2 ^ (k - q).toNat : Nat) : ℚ) * 2 ^ q = 2 ^ k := by
  rw [Nat.cast_pow, Nat.cast_ofNat, ← zpow_natCast, Int.toNat_of_nonneg (by omega),
    ← zpow_add₀ two_ne_zero, sub_add_cancel]

theorem halfEven_scaled_mul_le {num den : Nat} (hden : 0 < den) {q k : ℤ} (hqk : q ≤ k)
    (h : (num : ℚ) / den ≤ 2 ^ k) :
    ((if 0 ≤ q then Rounding.halfEven num (den * 2 ^ q.toNat)
      else Rounding.halfEven (num * 2 ^ (-q).toNat) den : Nat) : ℚ) * 2 ^ q ≤ 2 ^ k := by
  rw [← two_pow_toNat_mul hqk] at h ⊢
  have hle := halfEven_scaled_le hden q h
  exact mul_le_mul_of_nonneg_right (by exact_mod_cast hle) (two_zpow_pos q).le

/-! ## Numbers up to a power of two -/

/-- A finite number whose magnitude is at most `2 ^ k`. -/
def AtMost (k : ℤ) : Binary64 → Prop
  | .finite _ m q _ => (m : ℚ) * 2 ^ q ≤ 2 ^ k
  | _ => False

theorem AtMost.isFinite {k : ℤ} {x : Binary64} (h : x.AtMost k) : x.isFinite = true := by
  cases x with
  | finite negative m q hc => rfl
  | nan => exact h.elim
  | infinite negative => exact h.elim

theorem atMost_zero (negative : Bool) (k : ℤ) : (zero negative).AtMost k := by
  have hpos := two_zpow_pos k
  simp [zero, AtMost, hpos.le]

theorem atMost_pack {negative : Bool} {m : Nat} {q k : ℤ} (hc : Canonical m q)
    (h : (m : ℚ) * 2 ^ q ≤ 2 ^ k) : (pack negative m q).AtMost k := by
  rw [pack_of_canonical hc]
  exact h

/-- Rounding does not pass a power of two. -/
theorem atMost_ofRatio {negative : Bool} {num den : Nat} {k : ℤ} (hden : 0 < den)
    (hlow : -1074 ≤ k) (hhigh : k ≤ 1023) (h : (num : ℚ) / den ≤ 2 ^ k) :
    (ofRatio negative num den).AtMost k := by
  by_cases hnum : num = 0
  · rw [ofRatio, if_pos hnum]
    exact atMost_zero negative k
  have hpos : 0 < num := Nat.pos_of_ne_zero hnum
  obtain ⟨hfloor, hceil⟩ := floorLog2_spec hpos hden
  have hexponent : floorLog2 num den ≤ k := two_zpow_le_iff.1 (hfloor.trans h)
  obtain ⟨q, hq⟩ : ∃ q, max (-1074) (floorLog2 num den - 52) = q := ⟨_, rfl⟩
  obtain ⟨m, hm⟩ : ∃ m, (if 0 ≤ q then Rounding.halfEven num (den * 2 ^ q.toNat)
    else Rounding.halfEven (num * 2 ^ (-q).toNat) den) = m := ⟨_, rfl⟩
  have hqk : q ≤ k := by omega
  -- the coefficient has at most 53 bits, and the scaled bound limits it as well
  have hbits : m ≤ 2 * leading := by
    rw [← hm]
    apply halfEven_scaled_le hden
    rw [two_leading_mul]
    exact hceil.le.trans (two_zpow_le_iff.2 (by omega))
  have hvalue : (m : ℚ) * 2 ^ q ≤ 2 ^ k := by
    rw [← hm]
    exact halfEven_scaled_mul_le hden hqk h
  rw [ofRatio_eq_pack hpos hq hm]
  split
  · rename_i hfull
    rw [hfull, two_leading_mul] at hvalue
    have hroom : q + 53 ≤ k := two_zpow_le_iff.1 hvalue
    apply atMost_pack ⟨by decide, by omega, by omega, .inl le_rfl⟩
    rw [zpow_add_one₀ two_ne_zero]
    calc (leading : ℚ) * (2 ^ q * 2) = (2 * leading : Nat) * 2 ^ q := by push_cast; ring
      _ = 2 ^ (q + 53) := two_leading_mul q
      _ ≤ 2 ^ k := hvalue
  · rename_i hnot
    have hnormal : leading ≤ m ∨ q = -1074 := by
      by_cases hsub : q = -1074
      · exact .inr hsub
      · left
        rw [← hm]
        apply le_halfEven_scaled hden
        refine le_trans (le_of_eq ?_) hfloor
        rw [show floorLog2 num den = 52 + q by omega, zpow_add₀ two_ne_zero]
        norm_num [leading]
    exact atMost_pack ⟨by omega, by omega, by omega, hnormal⟩ hvalue

theorem atMost_ofNat {negative : Bool} {n : Nat} {k : ℤ} (hlow : -1074 ≤ k) (hhigh : k ≤ 1023)
    (h : (n : ℚ) ≤ 2 ^ k) : (ofNat negative n).AtMost k :=
  atMost_ofRatio Nat.one_pos hlow hhigh (by simpa using h)

theorem atMost_ofDyadic {negative : Bool} {m : Nat} {q k : ℤ} (hlow : -1074 ≤ k)
    (hhigh : k ≤ 1023) (h : (m : ℚ) * 2 ^ q ≤ 2 ^ k) : (ofDyadic negative m q).AtMost k := by
  rw [zpow_eq_div two_ne_zero] at h
  unfold ofDyadic
  split
  · rename_i hq
    rw [Int.toNat_of_nonpos (by omega : -q ≤ 0), pow_zero, div_one] at h
    refine atMost_ofRatio Nat.one_pos hlow hhigh ?_
    push_cast
    rwa [div_one]
  · rename_i hq
    rw [Int.toNat_of_nonpos (by omega : q ≤ 0), pow_zero, mul_one_div] at h
    refine atMost_ofRatio (Nat.two_pow_pos _) hlow hhigh ?_
    push_cast
    exact h

/-! ## Operations -/

section Operations

variable {x y : Binary64} {a b k : ℤ}

theorem atMost_mul (hx : x.AtMost a) (hy : y.AtMost b) (hlow : -1074 ≤ a + b)
    (hhigh : a + b ≤ 1023) : (x.mul y).AtMost (a + b) := by
  cases x with
  | nan => exact hx.elim
  | infinite negative => exact hx.elim
  | finite negative m q hc =>
    cases y with
    | nan => exact hy.elim
    | infinite negative => exact hy.elim
    | finite negative' n r hc' =>
      apply atMost_ofDyadic hlow hhigh
      rw [zpow_add₀ two_ne_zero, zpow_add₀ two_ne_zero, Nat.cast_mul, mul_mul_mul_comm]
      exact mul_le_mul hx hy (by positivity) (two_zpow_pos a).le

theorem natAbs_signed (negative : Bool) (m : Nat) : (signed negative m).natAbs = m := by
  cases negative <;> simp [signed]

theorem cast_aligned (m : Nat) {q low : ℤ} (h : low ≤ q) :
    ((m * 2 ^ (q - low).toNat : Nat) : ℚ) * 2 ^ low = m * 2 ^ q := by
  rw [Nat.cast_mul, Nat.cast_pow, Nat.cast_ofNat, ← zpow_natCast, mul_assoc,
    ← zpow_add₀ two_ne_zero, Int.toNat_of_nonneg (by omega), sub_add_cancel]

theorem atMost_add (hx : x.AtMost k) (hy : y.AtMost k) (hlow : -1075 ≤ k) (hhigh : k ≤ 1022) :
    (x.add y).AtMost (k + 1) := by
  cases x with
  | nan => exact hx.elim
  | infinite negative => exact hx.elim
  | finite negative m q hc =>
    cases y with
    | nan => exact hy.elim
    | infinite negative => exact hy.elim
    | finite negative' n r hc' =>
      simp only [add]
      split
      · exact atMost_zero _ _
      · apply atMost_ofDyadic (by omega) (by omega)
        have hsum := Int.natAbs_add_le (signed negative (m * 2 ^ (q - min q r).toNat))
          (signed negative' (n * 2 ^ (r - min q r).toNat))
        rw [natAbs_signed, natAbs_signed] at hsum
        have hcast : ((signed negative (m * 2 ^ (q - min q r).toNat) +
            signed negative' (n * 2 ^ (r - min q r).toNat)).natAbs : ℚ) ≤
            (m * 2 ^ (q - min q r).toNat : Nat) + (n * 2 ^ (r - min q r).toNat : Nat) := by
          exact_mod_cast hsum
        refine (mul_le_mul_of_nonneg_right hcast (two_zpow_pos _).le).trans ?_
        rw [add_mul, cast_aligned m (min_le_left q r), cast_aligned n (min_le_right q r),
          zpow_add_one₀ two_ne_zero, mul_two]
        exact add_le_add hx hy

theorem atMost_div_of_le {negative negative' : Bool} {m n : Nat} {q r : ℤ} {hc : Canonical m q}
    {hc' : Canonical n r} (hn : 0 < n) (hquotient : (m : ℚ) * 2 ^ q / (n * 2 ^ r) ≤ 2 ^ k)
    (hlow : -1074 ≤ k) (hhigh : k ≤ 1023) :
    ((finite negative m q hc).div (.finite negative' n r hc')).AtMost k := by
  simp only [div]
  rw [if_neg hn.ne']
  split
  · rename_i hle
    refine atMost_ofRatio hn hlow hhigh (le_of_eq_of_le ?_ hquotient)
    rw [← cast_aligned m hle, mul_div_mul_right _ _ (two_zpow_pos r).ne']
  · rename_i hlt
    refine atMost_ofRatio (Nat.mul_pos hn (Nat.two_pow_pos _)) hlow hhigh
      (le_of_eq_of_le ?_ hquotient)
    rw [← cast_aligned n (show q ≤ r by omega), mul_div_mul_right _ _ (two_zpow_pos q).ne']

/-- A divisor that is not below one does not make a number larger. -/
theorem atMost_div {negative : Bool} {n : Nat} {r : ℤ} {hc : Canonical n r} (hx : x.AtMost k)
    (hone : (1 : ℚ) ≤ n * 2 ^ r) (hlow : -1074 ≤ k) (hhigh : k ≤ 1023) :
    (x.div (.finite negative n r hc)).AtMost k := by
  cases x with
  | nan => exact hx.elim
  | infinite negative => exact hx.elim
  | finite negative' m q hc' =>
    have hn : 0 < n := by
      rcases Nat.eq_zero_or_pos n with rfl | hn
      · norm_num at hone
      · exact hn
    refine atMost_div_of_le hn ?_ hlow hhigh
    rw [div_le_iff₀ (one_pos.trans_le hone)]
    calc (m : ℚ) * 2 ^ q ≤ 2 ^ k := hx
      _ = 2 ^ k * 1 := (mul_one _).symm
      _ ≤ 2 ^ k * (n * 2 ^ r) := mul_le_mul_of_nonneg_left hone (two_zpow_pos k).le

theorem atMost_round (hx : x.AtMost k) (hlow : 53 ≤ k) (hhigh : k ≤ 1023) :
    x.round.AtMost k := by
  cases x with
  | nan => exact hx.elim
  | infinite negative => exact hx.elim
  | finite negative m q hc =>
    apply atMost_ofNat (by omega) hhigh
    dsimp only
    split
    · rename_i hq
      have hcast := cast_aligned m hq
      rw [sub_zero, zpow_zero, mul_one] at hcast
      rw [hcast]
      exact hx
    · have hle : Rounding.halfUp m (2 ^ (-q).toNat) ≤ m :=
        Rounding.halfUp_le (Nat.two_pow_pos _) (Nat.le_mul_of_pos_right m (Nat.two_pow_pos _))
      have hm : m < 2 * leading := hc.1
      have hcast : (Rounding.halfUp m (2 ^ (-q).toNat) : ℚ) ≤ (2 * leading : Nat) := by
        exact_mod_cast hle.trans hm.le
      refine hcast.trans (le_trans (le_of_eq ?_) (two_zpow_le_iff.2 hlow))
      norm_num [leading]

end Operations

/-! ## Whole neighbours -/

/-- A quotient that is a number in normal form is rounded to this number. -/
theorem ofRatio_of_eq {negative : Bool} {num den m : Nat} {q : ℤ} (h : Canonical m q) (hm : 0 < m)
    (hden : 0 < den) (hvalue : (num : ℚ) / den = m * 2 ^ q) :
    ofRatio negative num den = .finite negative m q h := by
  have hpos : 0 < num := by
    rw [Nat.pos_iff_ne_zero]
    rintro rfl
    have hne : (m : ℚ) * 2 ^ q ≠ 0 := mul_ne_zero (by exact_mod_cast hm.ne') (two_zpow_pos q).ne'
    rw [Nat.cast_zero, zero_div] at hvalue
    exact hne hvalue.symm
  have hquarters : (num : ℚ) / den = (4 * m : Nat) * 2 ^ (q - 2) := by
    rw [hvalue, zpow_sub₀ two_ne_zero]
    push_cast
    ring
  have hlow : (interval m q).low < 4 * m := by
    simp only [interval]
    split <;> omega
  have hhigh : 4 * m < (interval m q).high := by
    simp only [interval]
    omega
  have hlow' : ((interval m q).low : ℚ) < (4 * m : Nat) := by exact_mod_cast hlow
  have hhigh' : ((4 * m : Nat) : ℚ) < (interval m q).high := by exact_mod_cast hhigh
  have hbelow := mul_lt_mul_of_pos_right hlow' (two_zpow_pos (q - 2))
  have habove := mul_lt_mul_of_pos_right hhigh' (two_zpow_pos (q - 2))
  refine ofRatio_eq h hpos hden ?_
  rw [hquarters]
  exact ⟨hbelow.le, habove.le, fun _ => ⟨hbelow, habove⟩⟩

/-- A whole number in normal form is its own nearest number. -/
theorem ofNat_canonical {negative : Bool} {m : Nat} {q : ℤ} (h : Canonical m q) (hq : 0 ≤ q) :
    ofNat negative (m * 2 ^ q.toNat) = .finite negative m q h := by
  have hm : leading ≤ m := h.2.2.2.resolve_right (by omega)
  refine ofRatio_of_eq h (lt_of_lt_of_le (by decide) hm) Nat.one_pos ?_
  have hcast := cast_aligned m hq
  rw [sub_zero, zpow_zero, mul_one] at hcast
  rw [hcast, Nat.cast_one, div_one]

/-- A rounding that leaves whole numbers alone, and others below the next whole number, keeps
numbers finite. -/
theorem isFinite_mapMagnitude {f : Bool → Nat → Int → Nat} {x : Binary64}
    (hwhole : ∀ negative m q, 0 ≤ q → f negative m q = m * 2 ^ q.toNat)
    (hpart : ∀ negative m q, q < 0 → f negative m q ≤ m + 1) (hx : x.isFinite = true) :
    (mapMagnitude f x).isFinite = true := by
  cases x with
  | nan => cases hx
  | infinite negative => cases hx
  | finite negative m q hc =>
    rw [mapMagnitude]
    by_cases hq : 0 ≤ q
    · rw [hwhole negative m q hq, ofNat_canonical hc hq]
      rfl
    · have hle : f negative m q ≤ 2 * leading :=
        (hpart negative m q (not_le.1 hq)).trans hc.1
      have hcast : ((f negative m q : Nat) : ℚ) ≤ (2 * leading : Nat) := by exact_mod_cast hle
      refine AtMost.isFinite (k := 53) (atMost_ofNat (by norm_num) (by norm_num) ?_)
      refine hcast.trans (le_of_eq ?_)
      norm_num [leading]

theorem cut_of_whole (m : Nat) {q : ℤ} (hq : 0 ≤ q) : cut m q = (m * 2 ^ q.toNat, false) :=
  if_pos hq

theorem cut_le (m : Nat) {q : ℤ} (hq : q < 0) : (cut m q).1 ≤ m := by
  rw [cut, if_neg (not_le.2 hq)]
  exact Nat.div_le_self m _

theorem isFinite_floor {x : Binary64} (hx : x.isFinite = true) : x.floor.isFinite = true := by
  refine isFinite_mapMagnitude (fun negative m q hq => ?_) (fun negative m q hq => ?_) hx
  · simp [cut_of_whole m hq]
  · exact Nat.add_le_add (cut_le m hq) (Bool.toNat_le _)

theorem isFinite_ceil {x : Binary64} (hx : x.isFinite = true) : x.ceil.isFinite = true := by
  refine isFinite_mapMagnitude (fun negative m q hq => ?_) (fun negative m q hq => ?_) hx
  · simp [cut_of_whole m hq]
  · exact Nat.add_le_add (cut_le m hq) (Bool.toNat_le _)

theorem isFinite_abs {x : Binary64} (hx : x.isFinite = true) : x.abs.isFinite = true := by
  cases x with
  | finite negative m q hc => rfl
  | nan => cases hx
  | infinite negative => cases hx

theorem isFinite_ofInt_of_lt {n : Int} (h : n.natAbs ≤ 2 ^ 64) : (ofInt n).isFinite = true := by
  refine AtMost.isFinite (k := 64) (atMost_ofNat (by norm_num) (by norm_num) ?_)
  exact_mod_cast h

/-! ## Roots -/

theorem lt_zero_of_negative {m : Nat} {q : ℤ} {hc : Canonical m q} (hm : m ≠ 0) :
    (Binary64.finite true m q hc).lt (zero false) = true := by
  have hpos : 0 < m * 2 ^ (q - min q (-1074)).toNat :=
    Nat.mul_pos (Nat.pos_of_ne_zero hm) (Nat.two_pow_pos _)
  have hlt : signed true (m * 2 ^ (q - min q (-1074)).toNat) <
      signed false (0 * 2 ^ (-1074 - min q (-1074)).toNat) := by
    simp only [signed, if_true, Bool.false_eq_true, if_false, Nat.zero_mul, Nat.cast_zero]
    exact Int.neg_neg_of_pos (Int.natCast_pos.2 hpos)
  simp only [lt, zero, compare?]
  rw [compare_lt_iff_lt.2 hlt]
  rfl

/-- The root of the scaled square, over half the exponent, is not above `2 ^ 512`. -/
theorem sqrt_scaled_le {m : Nat} {q : ℤ} (hc : Canonical m q) :
    let half := (q - 120) / 2
    ((m * 2 ^ (q - 2 * half).toNat).sqrt : ℚ) * 2 ^ half ≤ 2 ^ (512 : ℤ) := by
  intro half
  have hhalf : 2 * half ≤ q := by omega
  obtain ⟨root, hroot⟩ : ∃ root, (m * 2 ^ (q - 2 * half).toNat).sqrt = root := ⟨_, rfl⟩
  have hsquare : root * root ≤ m * 2 ^ (q - 2 * half).toNat := hroot ▸ Nat.sqrt_le _
  have hcast : (root : ℚ) * root ≤ (m * 2 ^ (q - 2 * half).toNat : Nat) := by
    exact_mod_cast hsquare
  have hbits : (m : ℚ) ≤ 2 ^ (53 : ℤ) := by
    have hm : m ≤ 2 * leading := hc.1.le
    have hm' : (m : ℚ) ≤ (2 * leading : Nat) := by exact_mod_cast hm
    refine hm'.trans (le_of_eq ?_)
    norm_num [leading]
  have hbound : ((root : ℚ) * 2 ^ half) ^ 2 ≤ (2 ^ (512 : ℤ)) ^ 2 := by
    calc ((root : ℚ) * 2 ^ half) ^ 2 = root * root * 2 ^ (2 * half) := by
          rw [two_mul, zpow_add₀ two_ne_zero]
          ring
      _ ≤ (m * 2 ^ (q - 2 * half).toNat : Nat) * 2 ^ (2 * half) :=
          mul_le_mul_of_nonneg_right hcast (two_zpow_pos _).le
      _ = m * 2 ^ q := cast_aligned m hhalf
      _ ≤ 2 ^ (53 : ℤ) * 2 ^ (971 : ℤ) :=
          mul_le_mul hbits (two_zpow_le_iff.2 hc.2.2.1) (two_zpow_pos q).le (by positivity)
      _ = (2 ^ (512 : ℤ)) ^ 2 := by
          rw [← zpow_add₀ two_ne_zero, ← zpow_natCast (2 ^ (512 : ℤ)), ← zpow_mul]
          rfl
  rw [hroot]
  exact le_of_sq_le_sq hbound (by positivity)

theorem isFinite_sqrt {x : Binary64} (hx : x.isFinite = true)
    (hsign : x.lt (zero false) = false) : x.sqrt.isFinite = true := by
  cases x with
  | nan => cases hx
  | infinite negative => cases hx
  | finite negative m q hc =>
    simp only [sqrt]
    split
    · rfl
    · rename_i hm
      cases negative with
      | true =>
        rw [lt_zero_of_negative hm] at hsign
        cases hsign
      | false =>
        have hle := sqrt_scaled_le hc
        dsimp only at hle
        have hroot : 0 < (m * 2 ^ (q - 2 * ((q - 120) / 2)).toNat).sqrt :=
          Nat.sqrt_pos.2 (Nat.mul_pos (Nat.pos_of_ne_zero hm) (Nat.two_pow_pos _))
        revert hle hroot
        generalize (m * 2 ^ (q - 2 * ((q - 120) / 2)).toNat).sqrt = root
        generalize (q - 120) / 2 = half
        intro hle hroot
        rw [if_neg Bool.false_ne_true]
        split
        · exact (atMost_ofDyadic (by norm_num) (by norm_num) hle).isFinite
        · refine AtMost.isFinite (k := 513) (atMost_ofDyadic (by norm_num) (by norm_num) ?_)
          have hroot' : (1 : ℚ) ≤ root := by exact_mod_cast hroot
          rw [zpow_sub_one₀ two_ne_zero, show (513 : ℤ) = 512 + 1 by norm_num,
            zpow_add_one₀ two_ne_zero, Nat.cast_add, Nat.cast_mul, Nat.cast_ofNat, Nat.cast_one]
          calc (2 * (root : ℚ) + 1) * (2 ^ half * 2⁻¹) ≤ (4 * root) * (2 ^ half * 2⁻¹) := by
                apply mul_le_mul_of_nonneg_right (by linarith)
                positivity
            _ = root * 2 ^ half * 2 := by ring
            _ ≤ 2 ^ (512 : ℤ) * 2 := mul_le_mul_of_nonneg_right hle (by norm_num)

end Binary64

/-! ## Decimals -/

namespace Decimal

open Binary64

/-- A normal number from `1` up to `2 ^ 94`. -/
def IsUnit : Binary64 → Prop
  | .finite _ m q _ => leading ≤ m ∧ -52 ≤ q ∧ q ≤ 41
  | _ => False

instance : DecidablePred IsUnit
  | .finite _ m q _ => inferInstanceAs (Decidable (leading ≤ m ∧ -52 ≤ q ∧ q ≤ 41))
  | .nan | .infinite _ => .isFalse id

theorem isUnit_powers : ∀ scale : Nat, scale ≤ 28 →
    IsUnit (ofNat false (10 ^ scale)) ∧ IsUnit (powTen scale) := by
  decide +kernel

theorem IsUnit.atMost {x : Binary64} (h : IsUnit x) : x.AtMost 94 := by
  cases x with
  | nan => exact h.elim
  | infinite negative => exact h.elim
  | finite negative m q hc =>
    have hm : (m : ℚ) ≤ (2 * leading : Nat) := by exact_mod_cast hc.1.le
    calc (m : ℚ) * 2 ^ q ≤ (2 * leading : Nat) * 2 ^ (41 : ℤ) :=
          mul_le_mul hm (two_zpow_le_iff.2 h.2.2) (two_zpow_pos q).le (by positivity)
      _ = 2 ^ (94 : ℤ) := by norm_num [leading]

theorem IsUnit.atMost_div {x y : Binary64} {k : ℤ} (hy : IsUnit y) (hx : x.AtMost k)
    (hlow : -1074 ≤ k) (hhigh : k ≤ 1023) : (x.div y).AtMost k := by
  cases y with
  | nan => exact hy.elim
  | infinite negative => exact hy.elim
  | finite negative n r hc =>
    refine Binary64.atMost_div hx ?_ hlow hhigh
    have hn : ((leading : Nat) : ℚ) ≤ n := by exact_mod_cast hy.1
    calc (1 : ℚ) = (leading : Nat) * 2 ^ (-52 : ℤ) := by norm_num [leading]
      _ ≤ n * 2 ^ r :=
          mul_le_mul hn (two_zpow_le_iff.2 hy.2.1) (two_zpow_pos _).le (by positivity)

theorem atMost_ofNat_of_lt {n : Nat} (h : n < limit) : (ofNat false n).AtMost 96 := by
  apply atMost_ofNat (by norm_num) (by norm_num)
  have hcast : (n : ℚ) ≤ (limit : Nat) := by exact_mod_cast h.le
  refine hcast.trans (le_of_eq ?_)
  norm_num [limit]

/-- Rounding to the places of a decimal stays far below the largest numbers. -/
theorem atMost_scaled {whole fraction unit : Binary64} (hwhole : whole.AtMost 96)
    (hfraction : fraction.AtMost 96) (hunit : IsUnit unit) :
    (whole.add fraction).AtMost 97 ∧ ((whole.add fraction).mul unit).AtMost 191 ∧
      ((whole.add fraction).mul unit).round.AtMost 191 := by
  have hsum := atMost_add hwhole hfraction (by norm_num) (by norm_num)
  have hscaled := atMost_mul hsum hunit.atMost (by norm_num) (by norm_num)
  exact ⟨hsum, hscaled, atMost_round hscaled (by norm_num) (by norm_num)⟩

theorem atMost_fraction {scale : Nat} (hscale : scale ≤ 28) {n : Nat} (hn : n < limit) :
    ((ofNat false n).div (ofNat false (10 ^ scale))).AtMost 96 :=
  (isUnit_powers scale hscale).1.atMost_div (atMost_ofNat_of_lt hn) (by norm_num) (by norm_num)

/-- Decimals are far below the largest numbers. -/
theorem isFinite_magnitudeToBinary64 {coefficient scale : Nat} (hcoefficient : coefficient < limit)
    (hscale : scale ≤ 28) : (magnitudeToBinary64 coefficient scale).isFinite = true := by
  have hunit := (isUnit_powers scale hscale).2
  have hwhole := atMost_ofNat_of_lt ((Nat.div_le_self _ (10 ^ scale)).trans_lt hcoefficient)
  have hfraction := atMost_fraction hscale ((Nat.mod_le _ (10 ^ scale)).trans_lt hcoefficient)
  simp only [magnitudeToBinary64]
  split
  · exact hwhole.isFinite
  · have hrounded := (atMost_scaled hwhole hfraction hunit).2.2
    exact (hunit.atMost_div hrounded (by norm_num) (by norm_num)).isFinite

theorem isFinite_toBinary64 (d : Decimal) : d.toBinary64.isFinite = true := by
  have hfinite := isFinite_magnitudeToBinary64 d.coefficient_lt d.scale_le
  simp only [toBinary64]
  split
  · cases hx : magnitudeToBinary64 d.coefficient.natAbs d.scale with
    | finite negative m q hc => rfl
    | nan => simp [hx, Binary64.isFinite] at hfinite
    | infinite negative => simp [hx, Binary64.isFinite] at hfinite
  · exact hfinite

end Decimal

end FormulaPipeline
