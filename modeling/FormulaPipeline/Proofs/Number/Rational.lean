import FormulaPipeline.Proofs.Number.Whole

/-!
# Floats as rational numbers

A finite float stands for a rational number, and comparing floats compares these. Sums, products and
quotients are correctly rounded: a finite result is a float nearest to the exact result, and of two
equally near ones the one with the even coefficient.
-/

namespace FormulaPipeline

namespace Rounding

variable {num den : Nat}

theorem abs_sub_halfEven_le (hden : 0 < den) :
    |(num : ℚ) / den - halfEven num den| ≤ 1 / 2 := by
  have hden' : (0 : ℚ) < den := by exact_mod_cast hden
  have hlow : (2 * (halfEven num den * den) : ℚ) ≤ 2 * num + den := by
    exact_mod_cast two_mul_halfEven_le hden
  have hhigh : (2 * num : ℚ) ≤ 2 * (halfEven num den * den) + den := by
    exact_mod_cast le_two_mul_halfEven hden
  rw [abs_le]
  constructor
  · rw [neg_le_sub_iff_le_add, ← sub_le_iff_le_add, le_div_iff₀ hden']
    linarith
  · rw [sub_le_iff_le_add, div_le_iff₀ hden']
    linarith

/-- A quotient halfway between two whole numbers goes to the even one. -/
theorem even_halfEven {num den : Nat} (hden : 0 < den)
    (htie : |(num : ℚ) / den - halfEven num den| = 1 / 2) : halfEven num den % 2 = 0 := by
  have hden' : (0 : ℚ) < den := by exact_mod_cast hden
  have hdiv : den * (num / den) + num % den = num := Nat.div_add_mod num den
  have hmod : num % den < den := Nat.mod_lt num hden
  have htie' : 2 * num = 2 * (halfEven num den * den) + den ∨
      2 * (halfEven num den * den) = 2 * num + den := by
    rcases eq_or_eq_neg_of_abs_eq htie with h | h
    · left
      rw [sub_eq_iff_eq_add, div_eq_iff hden'.ne'] at h
      have h' : (2 * num : ℚ) = 2 * (halfEven num den * den) + den := by linarith
      exact_mod_cast h'
    · right
      rw [sub_eq_iff_eq_add, div_eq_iff hden'.ne'] at h
      have h' : (2 * (halfEven num den * den) : ℚ) = 2 * num + den := by linarith
      exact_mod_cast h'
  rw [Nat.mul_comm] at hdiv
  revert htie'
  simp only [halfEven]
  split
  · rintro (h | h) <;> omega
  · rw [Nat.add_one_mul (num / den)]
    rintro (h | h) <;> omega

/-- No whole number is nearer to a quotient than the rounded one. -/
theorem abs_sub_halfEven_le_abs_sub (hden : 0 < den) (t : ℤ) :
    |(num : ℚ) / den - halfEven num den| ≤ |(num : ℚ) / den - t| ∧
      (t ≠ halfEven num den → |(num : ℚ) / den - halfEven num den| = |(num : ℚ) / den - t| →
        halfEven num den % 2 = 0) := by
  have hhalf := @abs_sub_halfEven_le num den hden
  by_cases ht : t = halfEven num den
  · subst ht
    exact ⟨le_rfl, fun h => (h rfl).elim⟩
  · have hone : (1 : ℚ) ≤ |(halfEven num den : ℚ) - t| := by
      have hone : 1 ≤ |(halfEven num den : ℤ) - t| := Int.one_le_abs (sub_ne_zero.2 (Ne.symm ht))
      exact_mod_cast hone
    have hsum := abs_sub_le (halfEven num den : ℚ) ((num : ℚ) / den) t
    rw [abs_sub_comm (halfEven num den : ℚ) ((num : ℚ) / den)] at hsum
    exact ⟨by linarith, fun _ heq => even_halfEven hden (by linarith)⟩

end Rounding

namespace Binary64

def toRat : Binary64 → ℚ
  | finite negative m q _ => (signed negative m : ℤ) * 2 ^ q
  | _ => 0

def coefficient : Binary64 → Nat
  | finite _ m _ _ => m
  | _ => 0

theorem exists_eq_finite {x : Binary64} (hx : x.isFinite = true) :
    ∃ negative m q hc, x = finite negative m q hc := by
  cases x with
  | nan => cases hx
  | infinite negative => cases hx
  | finite negative m q hc => exact ⟨negative, m, q, hc, rfl⟩

theorem signed_not (negative : Bool) (m : Nat) : signed (!negative) m = -signed negative m := by
  cases negative <;> simp [signed]

theorem signed_xor_mul (a b : Bool) (m n : Nat) :
    signed (a ^^ b) (m * n) = signed a m * signed b n := by
  cases a <;> cases b <;> simp [signed]

theorem signed_xor_div (a b : Bool) (m n : Nat) :
    (signed (a ^^ b) m : ℚ) / n = (signed a m : ℚ) / signed b n := by
  cases a <;> cases b <;> simp [signed, neg_div, div_neg]

theorem signed_mul (a : Bool) (m n : Nat) : signed a (m * n) = signed a m * n := by
  cases a <;> simp [signed]

theorem signed_natAbs (n : ℤ) : signed (n < 0) n.natAbs = n := by
  by_cases hn : n < 0
  · simp only [signed, hn, decide_true, if_true]
    omega
  · simp only [signed, hn, decide_false, Bool.false_eq_true, if_false]
    omega

@[simp] theorem toRat_zero (negative : Bool) : (zero negative).toRat = 0 := by
  cases negative <;> simp [zero, toRat, signed]

@[simp] theorem toRat_neg (x : Binary64) : x.neg.toRat = -x.toRat := by
  cases x <;> simp [neg, toRat, signed_not]

@[simp] theorem isFinite_neg (x : Binary64) : x.neg.isFinite = x.isFinite := by
  cases x <;> rfl

@[simp] theorem coefficient_neg (x : Binary64) : x.neg.coefficient = x.coefficient := by
  cases x <;> rfl

@[simp] theorem neg_neg (x : Binary64) : x.neg.neg = x := by
  cases x <;> simp [neg]

theorem exists_toRat_eq_abs {x : Binary64} (hx : x.isFinite = true) :
    ∃ y : Binary64, y.isFinite = true ∧ y.toRat = |x.toRat| := by
  rcases abs_choice x.toRat with h | h
  · exact ⟨x, hx, h.symm⟩
  · exact ⟨x.neg, by simpa using hx, by rw [toRat_neg, h]⟩

theorem isZero_iff {x : Binary64} (hx : x.isFinite = true) : x.isZero = true ↔ x.toRat = 0 := by
  obtain ⟨negative, m, q, hc, rfl⟩ := exists_eq_finite hx
  have hpower := (two_zpow_pos q).ne'
  cases m <;> cases negative <;> simp [isZero, toRat, signed, hpower]
  all_goals norm_cast
  all_goals omega

theorem abs_toRat (negative : Bool) (m : Nat) (q : ℤ) (hc : Canonical m q) :
    |(finite negative m q hc).toRat| = m * 2 ^ q := by
  rw [toRat, abs_mul, abs_of_pos (two_zpow_pos q), ← Int.cast_abs, Int.abs_eq_natAbs, natAbs_signed,
    Int.cast_natCast]

/-! ## Order -/

theorem cast_signed_aligned (a : Bool) (m : Nat) {q low : ℤ} (h : low ≤ q) :
    ((signed a (m * 2 ^ (q - low).toNat) : ℤ) : ℚ) * 2 ^ low = (signed a m : ℤ) * 2 ^ q := by
  rw [signed_mul, Int.cast_mul, mul_assoc, Int.cast_natCast, two_pow_toNat_mul h]

theorem compare?_eq {x y : Binary64} (hx : x.isFinite = true) (hy : y.isFinite = true) :
    x.compare? y = some (compare x.toRat y.toRat) := by
  obtain ⟨a, m, q, hc, rfl⟩ := exists_eq_finite hx
  obtain ⟨b, n, r, hc', rfl⟩ := exists_eq_finite hy
  have hscaled : StrictMono fun z : ℤ => (z : ℚ) * 2 ^ min q r := fun z w hzw =>
    mul_lt_mul_of_pos_right (by exact_mod_cast hzw) (two_zpow_pos _)
  have hmap : cmp (((signed a (m * 2 ^ (q - min q r).toNat) : ℤ) : ℚ) * 2 ^ min q r)
      (((signed b (n * 2 ^ (r - min q r).toNat) : ℤ) : ℚ) * 2 ^ min q r) = cmp _ _ :=
    hscaled.cmp_map_eq _ _
  rw [cast_signed_aligned a m (min_le_left q r), cast_signed_aligned b n (min_le_right q r),
    cmp_eq_compare, cmp_eq_compare] at hmap
  exact congrArg some hmap.symm

theorem lt_iff {x y : Binary64} (hx : x.isFinite = true) (hy : y.isFinite = true) :
    x.lt y = true ↔ x.toRat < y.toRat := by
  simp [lt, compare?_eq hx hy, compare_lt_iff_lt]

theorem beq_iff {x y : Binary64} (hx : x.isFinite = true) (hy : y.isFinite = true) :
    x.beq y = true ↔ x.toRat = y.toRat := by
  simp [Binary64.beq, compare?_eq hx hy]

/-! ## Nearest floats -/

/-- A finite float that no other one is nearer to a number than, with an even coefficient when some
other one is as near. -/
structure IsNearest (x : Binary64) (v : ℚ) : Prop where
  isFinite : x.isFinite = true
  abs_sub_le : ∀ y : Binary64, y.isFinite = true → |v - x.toRat| ≤ |v - y.toRat|
  even : ∀ y : Binary64, y.isFinite = true → y.toRat ≠ x.toRat →
    |v - x.toRat| = |v - y.toRat| → x.coefficient % 2 = 0

theorem isNearest_zero (negative : Bool) : (zero negative).IsNearest 0 where
  isFinite := rfl
  abs_sub_le y _ := by simp
  even y _ _ _ := rfl

namespace IsNearest

variable {x y : Binary64} {v w : ℚ}

theorem neg (h : x.IsNearest v) : x.neg.IsNearest (-v) := by
  have hmirror : ∀ z : Binary64, |-v - z.toRat| = |v - z.neg.toRat| := by
    intro z
    rw [toRat_neg, ← abs_neg]
    ring_nf
  refine ⟨by simpa using h.isFinite, fun y hy => ?_, fun y hy hne htie => ?_⟩
  · rw [hmirror, hmirror, neg_neg]
    exact h.abs_sub_le y.neg (by simpa using hy)
  · rw [hmirror, hmirror, neg_neg] at htie
    rw [coefficient_neg]
    refine h.even y.neg (by simpa using hy) (fun heq => hne ?_) htie
    rw [toRat_neg, ← heq, toRat_neg, InvolutiveNeg.neg_neg]

theorem two_mul_le_of_abs_sub_le {p q : ℚ} (h : p < q) (hle : |v - p| ≤ |v - q|) :
    2 * v ≤ p + q := by
  rw [← sq_le_sq] at hle
  nlinarith

theorem le_two_mul_of_abs_sub_le {p q : ℚ} (h : p < q) (hle : |v - q| ≤ |v - p|) :
    p + q ≤ 2 * v := by
  rw [← sq_le_sq] at hle
  nlinarith

/-- Rounding does not pass a float. -/
theorem le_toRat (h : x.IsNearest v) (hy : y.isFinite = true) (hle : y.toRat ≤ v) :
    y.toRat ≤ x.toRat := by
  by_contra hlt
  rw [not_le] at hlt
  have hnear := two_mul_le_of_abs_sub_le hlt (h.abs_sub_le y hy)
  linarith

theorem toRat_le (h : x.IsNearest v) (hy : y.isFinite = true) (hle : v ≤ y.toRat) :
    x.toRat ≤ y.toRat := by
  have hmirror := h.neg.le_toRat (y := y.neg) (by simpa using hy) (by simpa using hle)
  simpa using hmirror

theorem nonneg (h : x.IsNearest v) (hv : 0 ≤ v) : 0 ≤ x.toRat := by
  simpa using h.le_toRat (y := zero false) rfl (by simpa using hv)

/-- A number that is a float is its own nearest one. -/
theorem toRat_eq (h : x.IsNearest v) (hy : y.isFinite = true) (heq : y.toRat = v) :
    x.toRat = v :=
  le_antisymm (heq ▸ h.toRat_le hy heq.ge) (heq ▸ h.le_toRat hy heq.le)

theorem mono (hx : x.IsNearest v) (hy : y.IsNearest w) (h : v < w) : x.toRat ≤ y.toRat := by
  by_contra hlt
  rw [not_le] at hlt
  have hlow := two_mul_le_of_abs_sub_le hlt (hy.abs_sub_le x hx.isFinite)
  have hhigh := le_two_mul_of_abs_sub_le hlt (hx.abs_sub_le y hy.isFinite)
  linarith

theorem abs_toRat_le_abs (h : x.IsNearest v) (hy : y.isFinite = true) (hle : |v| ≤ |y.toRat|) :
    |x.toRat| ≤ |y.toRat| := by
  obtain ⟨z, hz, hvalue⟩ := exists_toRat_eq_abs hy
  rw [← hvalue, abs_le] at hle ⊢
  exact ⟨by simpa using h.le_toRat (y := z.neg) (by simpa using hz) (by simpa using hle.1),
    h.toRat_le hz hle.2⟩

theorem abs_le_abs_toRat (h : x.IsNearest v) (hy : y.isFinite = true) (hle : |y.toRat| ≤ |v|) :
    |y.toRat| ≤ |x.toRat| := by
  obtain ⟨z, hz, hvalue⟩ := exists_toRat_eq_abs hy
  rw [← hvalue, le_abs] at hle ⊢
  refine hle.imp (fun hle => h.le_toRat hz hle) (fun hle => ?_)
  simpa using h.neg.le_toRat hz hle

end IsNearest

/-! ## Rounding -/

theorem pack_neg (negative : Bool) (m : Nat) (q : ℤ) :
    pack (!negative) m q = (pack negative m q).neg := by
  unfold pack
  split <;> rfl

theorem ofRatio_neg (negative : Bool) (num den : Nat) :
    ofRatio (!negative) num den = (ofRatio negative num den).neg := by
  rcases Nat.eq_zero_or_pos num with rfl | hnum
  · rfl
  · rw [ofRatio_eq_pack hnum rfl (halfEven_uniform num den _),
      ofRatio_eq_pack hnum rfl (halfEven_uniform num den _)]
    split <;> exact pack_neg _ _ _

theorem exists_pack_eq {negative : Bool} {m : Nat} {q : ℤ}
    (h : (pack negative m q).isFinite = true) :
    ∃ hc : Canonical m q, pack negative m q = finite negative m q hc := by
  by_cases hc : Canonical m q
  · exact ⟨hc, pack_of_canonical hc⟩
  · rw [pack, dif_neg hc] at h
    cases h

/-- The coefficient and the exponent that a positive quotient is rounded to. -/
theorem ofRatio_spec {num den : Nat} (hnum : 0 < num)
    (hfinite : (ofRatio false num den).isFinite = true) :
    let q := max (-1074) (floorLog2 num den - 52)
    let m := Rounding.halfEven (num * 2 ^ (-q).toNat) (den * 2 ^ q.toNat)
    (ofRatio false num den).toRat = m * 2 ^ q ∧
      (m % 2 = 0 → (ofRatio false num den).coefficient % 2 = 0) := by
  intro q m
  have hround := @ofRatio_eq_pack false num den m q hnum rfl (halfEven_uniform num den q)
  rw [hround] at hfinite ⊢
  split
  · rename_i hm
    rw [if_pos hm] at hfinite
    obtain ⟨hc, hpack⟩ := exists_pack_eq hfinite
    rw [hpack]
    refine ⟨?_, fun _ => (by decide : leading % 2 = 0)⟩
    rw [hm, toRat, zpow_add_one₀ two_ne_zero]
    simp only [signed, Bool.false_eq_true, if_false]
    push_cast
    ring
  · rename_i hm
    rw [if_neg hm] at hfinite
    obtain ⟨hc, hpack⟩ := exists_pack_eq hfinite
    rw [hpack]
    exact ⟨by simp [toRat, signed], id⟩

/-- A number with a smaller exponent is below every number with 53 bits. -/
theorem toRat_lt_leading {negative : Bool} {m : Nat} {q r : ℤ} (hc : Canonical m r) (h : r < q) :
    (finite negative m r hc).toRat < leading * 2 ^ q := by
  have hm : (signed negative m : ℚ) < (2 * leading : Nat) := by
    have hm : signed negative m < (2 * leading : Nat) := by
      have hlt := hc.1
      cases negative <;> simp only [signed, if_true, Bool.false_eq_true, if_false] <;> omega
    exact_mod_cast hm
  calc (signed negative m : ℚ) * 2 ^ r < (2 * leading : Nat) * 2 ^ r :=
        mul_lt_mul_of_pos_right hm (two_zpow_pos r)
    _ = leading * 2 ^ (r + 1) := by
        rw [zpow_add_one₀ two_ne_zero]
        push_cast
        ring
    _ ≤ leading * 2 ^ q :=
        mul_le_mul_of_nonneg_left (two_zpow_le_iff.2 h) (Nat.cast_nonneg _)

/-- A rounded coefficient is nearest among all coefficients for its exponent. -/
theorem abs_sub_scaled_le {num den : Nat} (hden : 0 < den) (q : ℤ) :
    let m := Rounding.halfEven (num * 2 ^ (-q).toNat) (den * 2 ^ q.toNat)
    ∀ t : ℤ, |(num : ℚ) / den - m * 2 ^ q| ≤ |(num : ℚ) / den - t * 2 ^ q| ∧
      (t ≠ m → |(num : ℚ) / den - m * 2 ^ q| = |(num : ℚ) / den - t * 2 ^ q| → m % 2 = 0) := by
  intro m t
  have hpower := two_zpow_pos q
  have hdivisor : 0 < den * 2 ^ q.toNat := Nat.mul_pos hden (Nat.two_pow_pos _)
  have hscaled : (num : ℚ) / den =
      ((num * 2 ^ (-q).toNat : Nat) : ℚ) / (den * 2 ^ q.toNat : Nat) * 2 ^ q := by
    rw [zpow_eq_div two_ne_zero q]
    push_cast
    field_simp
  have hdistance : ∀ t : ℚ, |(num : ℚ) / den - t * 2 ^ q| =
      |((num * 2 ^ (-q).toNat : Nat) : ℚ) / (den * 2 ^ q.toNat : Nat) - t| * 2 ^ q := by
    intro t
    rw [hscaled, ← sub_mul, abs_mul, abs_of_pos hpower]
  obtain ⟨hle, heven⟩ := @Rounding.abs_sub_halfEven_le_abs_sub (num * 2 ^ (-q).toNat) _ hdivisor t
  rw [hdistance, hdistance]
  exact ⟨mul_le_mul_of_nonneg_right hle hpower.le,
    fun ht heq => heven ht (mul_right_cancel₀ hpower.ne' heq)⟩

theorem isNearest_ofRatio_of_pos {num den : Nat} (hnum : 0 < num) (hden : 0 < den)
    (hfinite : (ofRatio false num den).isFinite = true) :
    (ofRatio false num den).IsNearest ((num : ℚ) / den) := by
  obtain ⟨hvalue, hcoefficient⟩ := ofRatio_spec hnum hfinite
  obtain ⟨hfloor, -⟩ := floorLog2_spec hnum hden
  have hgrid := @abs_sub_scaled_le num den hden (max (-1074) (floorLog2 num den - 52))
  revert hvalue hcoefficient hgrid
  obtain ⟨q, hq⟩ : ∃ q, max (-1074) (floorLog2 num den - 52) = q := ⟨_, rfl⟩
  rw [hq]
  generalize Rounding.halfEven (num * 2 ^ (-q).toNat) (den * 2 ^ q.toNat) = m
  intro hvalue hcoefficient hgrid
  -- another number is on the grid of the rounded one, or it is below all of its binade
  have hother : ∀ y : Binary64, y.isFinite = true → (∃ t : ℤ, y.toRat = t * 2 ^ q) ∨
      |(num : ℚ) / den - m * 2 ^ q| < |(num : ℚ) / den - y.toRat| := by
    intro y hy
    obtain ⟨negative, n, r, hc, rfl⟩ := exists_eq_finite hy
    rcases le_or_gt q r with hqr | hrq
    · exact .inl ⟨signed negative (n * 2 ^ (r - q).toNat), (cast_signed_aligned _ n hqr).symm⟩
    · right
      have hbinade : (leading : ℚ) * 2 ^ q ≤ (num : ℚ) / den := by
        have hlow := hc.2.1
        refine le_trans (le_of_eq ?_) hfloor
        rw [show floorLog2 num den = 52 + q by omega, zpow_add₀ two_ne_zero]
        norm_num [leading]
      have hbelow := @toRat_lt_leading negative n q r hc hrq
      have hleading := (hgrid leading).1
      rw [Int.cast_natCast, abs_of_nonneg (sub_nonneg.2 hbinade)] at hleading
      rw [abs_of_nonneg (sub_nonneg.2 (hbelow.le.trans hbinade))]
      linarith
  refine ⟨hfinite, fun y hy => ?_, fun y hy hne htie => ?_⟩
  · rw [hvalue]
    rcases hother y hy with ⟨t, ht⟩ | hlt
    · rw [ht]
      exact (hgrid t).1
    · exact hlt.le
  · rw [hvalue] at hne htie
    rcases hother y hy with ⟨t, ht⟩ | hlt
    · rw [ht] at hne htie
      exact hcoefficient ((hgrid t).2 (fun h => hne (by rw [h, Int.cast_natCast])) htie)
    · exact (hlt.ne htie).elim

/-- Rounding gives a nearest number. -/
theorem isNearest_ofRatio {negative : Bool} {num den : Nat} (hden : 0 < den)
    (hfinite : (ofRatio negative num den).isFinite = true) :
    (ofRatio negative num den).IsNearest ((signed negative num : ℚ) / den) := by
  have hpositive : (ofRatio false num den).isFinite = true →
      (ofRatio false num den).IsNearest ((num : ℚ) / den) := by
    rcases Nat.eq_zero_or_pos num with rfl | hnum
    · intro _
      rw [Nat.cast_zero, zero_div]
      exact isNearest_zero false
    · exact fun h => isNearest_ofRatio_of_pos hnum hden h
  cases negative with
  | false => simpa [signed] using hpositive hfinite
  | true =>
    rw [← Bool.not_false, ofRatio_neg] at hfinite ⊢
    rw [signed_not, Int.cast_neg, neg_div]
    rw [isFinite_neg] at hfinite
    simpa [signed] using (hpositive hfinite).neg

theorem isNearest_ofInt {n : ℤ} (h : n.natAbs ≤ 2 ^ 96) : (ofInt n).IsNearest n := by
  have hfinite : (ofInt n).AtMost 96 :=
    atMost_ofNat (by norm_num) (by norm_num) (by exact_mod_cast h)
  have hnearest := isNearest_ofRatio Nat.one_pos hfinite.isFinite
  rwa [signed_natAbs, Nat.cast_one, div_one] at hnearest

theorem isNearest_toInt (n : Int64) : (ofInt n.toInt).IsNearest n.toInt :=
  isNearest_ofInt ((Integer.natAbs_toInt_le n).trans (by norm_num))

theorem isNearest_ofNat {n : Nat} (h : n ≤ 2 ^ 96) : (ofNat false n).IsNearest n := by
  have hnearest := isNearest_ofInt (n := n) h
  rwa [Int.cast_natCast, ofInt, decide_eq_false (by omega), Int.natAbs_natCast] at hnearest

section Operations

variable {x y : Binary64}

theorem isNearest_ofDyadic {negative : Bool} {m : Nat} {q : ℤ}
    (hfinite : (ofDyadic negative m q).isFinite = true) :
    (ofDyadic negative m q).IsNearest ((signed negative m : ℚ) * 2 ^ q) := by
  rw [zpow_eq_div two_ne_zero]
  unfold ofDyadic at hfinite ⊢
  split
  · rename_i hq
    rw [if_pos hq] at hfinite
    have hnearest := isNearest_ofRatio Nat.one_pos hfinite
    rw [signed_mul] at hnearest
    rw [Int.toNat_of_nonpos (by omega : -q ≤ 0), pow_zero, div_one]
    simpa using hnearest
  · rename_i hq
    rw [if_neg hq] at hfinite
    have hnearest := isNearest_ofRatio (Nat.two_pow_pos _) hfinite
    rw [Int.toNat_of_nonpos (by omega : q ≤ 0), pow_zero, mul_one_div]
    simpa using hnearest

theorem isNearest_mul (hx : x.isFinite = true) (hy : y.isFinite = true)
    (hfinite : (x.mul y).isFinite = true) : (x.mul y).IsNearest (x.toRat * y.toRat) := by
  obtain ⟨a, m, q, hc, rfl⟩ := exists_eq_finite hx
  obtain ⟨b, n, r, hc', rfl⟩ := exists_eq_finite hy
  have hnearest := isNearest_ofDyadic hfinite
  rw [signed_xor_mul, zpow_add₀ two_ne_zero, Int.cast_mul, mul_mul_mul_comm] at hnearest
  exact hnearest

theorem isNearest_add (hx : x.isFinite = true) (hy : y.isFinite = true)
    (hfinite : (x.add y).isFinite = true) : (x.add y).IsNearest (x.toRat + y.toRat) := by
  obtain ⟨a, m, q, hc, rfl⟩ := exists_eq_finite hx
  obtain ⟨b, n, r, hc', rfl⟩ := exists_eq_finite hy
  have hsum : (finite a m q hc).toRat + (finite b n r hc').toRat =
      ((signed a (m * 2 ^ (q - min q r).toNat) + signed b (n * 2 ^ (r - min q r).toNat) : ℤ) : ℚ) *
        2 ^ min q r := by
    rw [Int.cast_add, add_mul, cast_signed_aligned a m (min_le_left q r),
      cast_signed_aligned b n (min_le_right q r)]
    rfl
  rw [hsum]
  simp only [add] at hfinite ⊢
  split
  · rename_i hzero
    rw [hzero, Int.cast_zero, zero_mul]
    exact isNearest_zero _
  · rename_i hzero
    rw [if_neg hzero] at hfinite
    have hnearest := isNearest_ofDyadic hfinite
    rwa [signed_natAbs] at hnearest

theorem isNearest_div (hx : x.isFinite = true) (hy : y.isFinite = true) (hzero : y.toRat ≠ 0)
    (hfinite : (x.div y).isFinite = true) : (x.div y).IsNearest (x.toRat / y.toRat) := by
  obtain ⟨a, m, q, hc, rfl⟩ := exists_eq_finite hx
  obtain ⟨b, n, r, hc', rfl⟩ := exists_eq_finite hy
  have hn : n ≠ 0 := by
    rintro rfl
    exact hzero (by cases b <;> simp [toRat, signed])
  simp only [div, if_neg hn] at hfinite ⊢
  split
  · rename_i hle
    rw [if_pos hle] at hfinite
    have hnearest := isNearest_ofRatio (Nat.pos_of_ne_zero hn) hfinite
    rwa [signed_xor_div, ← mul_div_mul_right _ _ (two_zpow_pos r).ne',
      cast_signed_aligned a m hle] at hnearest
  · rename_i hlt
    rw [if_neg hlt] at hfinite
    have hnearest := isNearest_ofRatio
      (Nat.mul_pos (Nat.pos_of_ne_zero hn) (Nat.two_pow_pos _)) hfinite
    rwa [signed_xor_div, ← mul_div_mul_right _ _ (two_zpow_pos q).ne',
      cast_signed_aligned b n (by omega)] at hnearest

theorem isFinite_mul (hx : x.isFinite = true) (hy : y.isFinite = true)
    (h : |x.toRat * y.toRat| ≤ 2 ^ (1023 : ℤ)) : (x.mul y).isFinite = true := by
  obtain ⟨a, m, q, hc, rfl⟩ := exists_eq_finite hx
  obtain ⟨b, n, r, hc', rfl⟩ := exists_eq_finite hy
  refine AtMost.isFinite (atMost_ofDyadic (by decide) le_rfl ?_)
  rwa [abs_mul, abs_toRat, abs_toRat, mul_mul_mul_comm, ← zpow_add₀ two_ne_zero,
    ← Nat.cast_mul] at h

theorem isFinite_div (hx : x.isFinite = true) (hy : y.isFinite = true) (hzero : y.toRat ≠ 0)
    (h : |x.toRat / y.toRat| ≤ 2 ^ (1023 : ℤ)) : (x.div y).isFinite = true := by
  obtain ⟨a, m, q, hc, rfl⟩ := exists_eq_finite hx
  obtain ⟨b, n, r, hc', rfl⟩ := exists_eq_finite hy
  have hn : 0 < n := by
    rw [Nat.pos_iff_ne_zero]
    rintro rfl
    rw [← abs_ne_zero, abs_toRat] at hzero
    simp at hzero
  rw [abs_div, abs_toRat, abs_toRat] at h
  exact (atMost_div_of_le hn h (by decide) le_rfl).isFinite

end Operations

/-! ## Numbers that are floats -/

/-- Coefficients of 53 bits over powers in the normal range. -/
theorem exists_toRat_eq {k : Nat} {e : ℤ} (hk : k < 2 * leading) (hlow : -1022 ≤ e)
    (hhigh : e ≤ 971) : ∃ x : Binary64, x.isFinite = true ∧ x.toRat = k * 2 ^ e := by
  rcases Nat.eq_zero_or_pos k with rfl | hpos
  · exact ⟨zero false, rfl, by simp⟩
  · have hlog : k.log2 ≤ 52 := by
      have hlt := (Nat.log2_lt hpos.ne').2 (show k < 2 ^ 53 from hk)
      omega
    have hpower : 2 ^ k.log2 * 2 ^ (52 - k.log2) = 2 ^ 52 := by
      rw [← Nat.pow_add]
      congr 1
      omega
    have hleading : leading ≤ k * 2 ^ (52 - k.log2) := by
      rw [show leading = 2 ^ 52 from rfl, ← hpower]
      exact Nat.mul_le_mul_right _ (Nat.log2_self_le hpos.ne')
    have hbits : k * 2 ^ (52 - k.log2) < 2 * leading := by
      calc k * 2 ^ (52 - k.log2) < 2 ^ (k.log2 + 1) * 2 ^ (52 - k.log2) :=
            Nat.mul_lt_mul_of_pos_right Nat.lt_log2_self (Nat.two_pow_pos _)
        _ = 2 * (2 ^ k.log2 * 2 ^ (52 - k.log2)) := by rw [Nat.pow_succ]; ring
        _ = 2 * leading := by rw [hpower]; rfl
    have hc : Canonical (k * 2 ^ (52 - k.log2)) (e - (52 - k.log2 : Nat)) :=
      ⟨hbits, by omega, by omega, .inl hleading⟩
    refine ⟨finite false _ _ hc, rfl, ?_⟩
    have hshift := two_pow_toNat_mul (q := e - (52 - k.log2 : Nat)) (k := e) (by omega)
    rw [sub_sub_cancel, Int.toNat_natCast] at hshift
    rw [toRat, signed, if_neg Bool.false_ne_true, ← hshift]
    push_cast
    ring

/-- Rounding does not pass a power of two. -/
theorem IsNearest.two_zpow_le_abs {x : Binary64} {v : ℚ} {e : ℤ} (h : x.IsNearest v)
    (hlow : -1022 ≤ e) (hhigh : e ≤ 971) (hle : 2 ^ e ≤ |v|) : 2 ^ e ≤ |x.toRat| := by
  obtain ⟨y, hy, hvalue⟩ := exists_toRat_eq (k := 1) (by decide) hlow hhigh
  rw [Nat.cast_one, one_mul] at hvalue
  rw [← abs_of_pos (two_zpow_pos e), ← hvalue] at hle ⊢
  exact h.abs_le_abs_toRat hy hle

/-- Multiples up to `2 ^ 53` of a power in the normal range are floats. -/
theorem exists_toRat_eq_multiple {n e : ℤ} (hn : n.natAbs ≤ 2 ^ 53) (hlow : -1022 ≤ e)
    (hhigh : e ≤ 970) : ∃ x : Binary64, x.isFinite = true ∧ x.toRat = n * 2 ^ e := by
  obtain ⟨x, hx, hvalue⟩ : ∃ x : Binary64, x.isFinite = true ∧ x.toRat = n.natAbs * 2 ^ e := by
    rcases hn.lt_or_eq with hlt | heq
    · exact exists_toRat_eq hlt hlow (by omega)
    · obtain ⟨x, hx, hvalue⟩ := exists_toRat_eq (k := leading) (e := e + 1) (by decide) (by omega)
        (by omega)
      refine ⟨x, hx, ?_⟩
      rw [hvalue, heq, zpow_add_one₀ two_ne_zero]
      norm_num [leading]
      ring
  rcases le_or_gt 0 n with hpos | hneg
  · refine ⟨x, hx, ?_⟩
    rw [hvalue, ← Int.cast_natCast, Int.natAbs_of_nonneg hpos]
  · refine ⟨x.neg, by simpa using hx, ?_⟩
    rw [toRat_neg, hvalue, ← Int.cast_natCast, Int.ofNat_natAbs_of_nonpos hneg.le, Int.cast_neg,
      neg_mul, InvolutiveNeg.neg_neg]

theorem exists_abs_toRat_eq {c e : Nat} (hc : c ≤ 2 ^ 53) (he : e ≤ 970) :
    ∃ x : Binary64, x.isFinite = true ∧ |x.toRat| = (c * 2 ^ e : Nat) := by
  obtain ⟨x, hx, hvalue⟩ := exists_toRat_eq_multiple (n := c) (e := e) hc (by omega) (by omega)
  refine ⟨x, hx, ?_⟩
  rw [hvalue, abs_of_nonneg (by positivity)]
  push_cast
  rfl

theorem abs_cast_int (n : ℤ) : |(n : ℚ)| = n.natAbs := by
  rw [← Int.cast_abs, Int.abs_eq_natAbs, Int.cast_natCast]

theorem abs_toRat_ofInt_le {n : ℤ} {c e : Nat} (hn : n.natAbs ≤ 2 ^ 96) (hc : c ≤ 2 ^ 53)
    (he : e ≤ 970) (hle : n.natAbs ≤ c * 2 ^ e) : |(ofInt n).toRat| ≤ (c * 2 ^ e : Nat) := by
  obtain ⟨x, hx, hvalue⟩ := exists_abs_toRat_eq hc he
  rw [← hvalue]
  refine (isNearest_ofInt hn).abs_toRat_le_abs hx ?_
  rw [hvalue, abs_cast_int]
  exact_mod_cast hle

theorem le_abs_toRat_ofInt {n : ℤ} {c e : Nat} (hn : n.natAbs ≤ 2 ^ 96) (hc : c ≤ 2 ^ 53)
    (he : e ≤ 970) (hle : c * 2 ^ e ≤ n.natAbs) : (c * 2 ^ e : Nat) ≤ |(ofInt n).toRat| := by
  obtain ⟨x, hx, hvalue⟩ := exists_abs_toRat_eq hc he
  rw [← hvalue]
  refine (isNearest_ofInt hn).abs_le_abs_toRat hx ?_
  rw [hvalue, abs_cast_int]
  exact_mod_cast hle

theorem abs_toRat_ofInt_bounds {n : ℤ} (hn : n.natAbs ≤ 2 ^ 96) :
    |(ofInt n).toRat| ≤ 2 * |(n : ℚ)| ∧ |(n : ℚ)| ≤ 2 * |(ofInt n).toRat| := by
  rcases eq_or_ne n 0 with rfl | hzero
  · simp [show (ofInt 0).toRat = 0 from toRat_zero false]
  · -- the powers of two around the number are floats
    have hne := Int.natAbs_ne_zero.2 hzero
    have hlog : n.natAbs.log2 < 97 := (Nat.log2_lt hne).2 (by omega)
    have hlow : ((2 ^ n.natAbs.log2 : Nat) : ℚ) ≤ n.natAbs := by
      exact_mod_cast Nat.log2_self_le hne
    have hhigh : (n.natAbs : ℚ) < (2 ^ (n.natAbs.log2 + 1) : Nat) := by
      exact_mod_cast Nat.lt_log2_self
    have habove := abs_toRat_ofInt_le (c := 1) (e := n.natAbs.log2 + 1) hn (by decide) (by omega)
      (by rw [one_mul]; exact Nat.lt_log2_self.le)
    have hbelow := le_abs_toRat_ofInt (c := 1) (e := n.natAbs.log2) hn (by decide) (by omega)
      (by rw [one_mul]; exact Nat.log2_self_le hne)
    rw [Nat.pow_succ] at habove hhigh
    push_cast at habove hbelow hlow hhigh
    rw [abs_cast_int]
    constructor <;> linarith

theorem toRat_ofInt {n : ℤ} (hn : n.natAbs ≤ 2 ^ 53) : (ofInt n).toRat = n := by
  obtain ⟨x, hx, hvalue⟩ := exists_toRat_eq_multiple (e := 0) hn (by norm_num) (by norm_num)
  rw [zpow_zero, mul_one] at hvalue
  have hsmall : n.natAbs ≤ 2 ^ 96 := hn.trans (by norm_num)
  exact (isNearest_ofInt hsmall).toRat_eq hx hvalue

/-- The spacing of floats below `2 ^ 63` is at most `2 ^ 10`. -/
theorem abs_sub_toRat_ofInt_le {n : ℤ} (hn : n.natAbs ≤ 2 ^ 63) :
    |(n : ℚ) - (ofInt n).toRat| ≤ 2 ^ 9 := by
  obtain ⟨x, hx, hvalue⟩ := exists_toRat_eq_multiple (n := (n + 2 ^ 9) / 2 ^ 10) (e := 10)
    (by omega) (by norm_num) (by norm_num)
  have hsmall : n.natAbs ≤ 2 ^ 96 := hn.trans (by norm_num)
  refine ((isNearest_ofInt hsmall).abs_sub_le x hx).trans ?_
  have hbound : |n - (n + 2 ^ 9) / 2 ^ 10 * 2 ^ 10| ≤ 2 ^ 9 := by
    rw [abs_le]
    omega
  rw [hvalue]
  exact_mod_cast hbound

end Binary64

end FormulaPipeline
