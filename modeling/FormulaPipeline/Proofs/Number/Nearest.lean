import FormulaPipeline.Number.Numeral
import Mathlib.Algebra.Order.Field.Power
import Mathlib.Algebra.Order.Field.Rat
import Mathlib.Tactic.FieldSimp
import Mathlib.Tactic.Linarith
import Mathlib.Tactic.Positivity
import Mathlib.Tactic.Ring

/-!
# Rounding to the nearest number

The rationals that round to a finite number form an interval around it. A quotient from this
interval is rounded to the number, whatever numerator and denominator it is given by.
-/

namespace FormulaPipeline

namespace Rounding

/-- A whole number is the rounded quotient when it is at most a half away, and less than a half when
it is odd. -/
theorem halfEven_eq {num den m : Nat} (hden : 0 < den) (hlow : 2 * (m * den) ≤ 2 * num + den)
    (hhigh : 2 * num ≤ 2 * (m * den) + den)
    (hodd : m % 2 = 1 → 2 * (m * den) < 2 * num + den ∧ 2 * num < 2 * (m * den) + den) :
    halfEven num den = m := by
  have hdiv : den * (num / den) + num % den = num := Nat.div_add_mod num den
  have hmod : num % den < den := Nat.mod_lt num hden
  unfold halfEven
  generalize num / den = below at hdiv ⊢
  generalize num % den = r at hdiv hmod ⊢
  rw [Nat.mul_comm] at hdiv
  have hle : below ≤ m := by
    by_contra hlt
    have hmul : (m + 1) * den ≤ below * den := Nat.mul_le_mul_right den (by omega)
    rw [Nat.succ_mul] at hmul
    omega
  have hge : m ≤ below + 1 := by
    by_contra hlt
    have hmul : (below + 2) * den ≤ m * den := Nat.mul_le_mul_right den (by omega)
    rw [Nat.add_mul] at hmul
    omega
  obtain rfl | rfl : m = below ∨ m = below + 1 := by omega
  · simp only
    rw [if_pos]
    omega
  · have hmul : (below + 1) * den = below * den + den := Nat.succ_mul below den
    rw [hmul] at hlow hhigh hodd
    simp only
    rw [if_neg]
    omega

end Rounding

namespace Binary64

theorem zpow_eq_div {b : ℚ} (hb : b ≠ 0) (z : ℤ) : b ^ z = b ^ z.toNat / b ^ (-z).toNat := by
  conv_lhs => rw [← Int.toNat_sub_toNat_neg z]
  rw [zpow_sub₀ hb, zpow_natCast, zpow_natCast]

theorem two_zpow_pos (z : ℤ) : (0 : ℚ) < 2 ^ z := zpow_pos (by norm_num) z

theorem two_zpow_lt_iff {a b : ℤ} : (2 : ℚ) ^ a < 2 ^ b ↔ a < b :=
  zpow_lt_zpow_iff_right₀ (by norm_num)

theorem two_zpow_log2_le {n : Nat} (hn : 0 < n) : (2 : ℚ) ^ (n.log2 : ℤ) ≤ n := by
  rw [zpow_natCast]
  exact_mod_cast Nat.log2_self_le hn.ne'

theorem lt_two_zpow_log2 (n : Nat) : (n : ℚ) < 2 ^ ((n.log2 : ℤ) + 1) := by
  have hlt := Nat.lt_log2_self (n := n)
  exact_mod_cast hlt

/-- Comparisons with powers of two, as `floorLog2` makes them. -/
theorem lt_two_zpow_iff {num den : Nat} (hden : 0 < den) (e : ℤ) :
    (if 0 ≤ e then num < den * 2 ^ e.toNat else num * 2 ^ (-e).toNat < den) ↔
      (num : ℚ) / den < 2 ^ e := by
  have hden' : (0 : ℚ) < den := by exact_mod_cast hden
  have hlt_iff : (num : ℚ) / den < 2 ^ e ↔ num * 2 ^ (-e).toNat < den * 2 ^ e.toNat := by
    rw [zpow_eq_div two_ne_zero, div_lt_div_iff₀ hden' (by positivity), mul_comm _ (den : ℚ)]
    exact_mod_cast Iff.rfl
  rw [hlt_iff]
  split
  · rw [Int.toNat_of_nonpos (by omega : -e ≤ 0), Nat.pow_zero, Nat.mul_one]
  · rw [Int.toNat_of_nonpos (by omega : e ≤ 0), Nat.pow_zero, Nat.mul_one]

/-- The exponent of the leading digit of a quotient. -/
theorem floorLog2_spec {num den : Nat} (hnum : 0 < num) (hden : 0 < den) :
    (2 : ℚ) ^ floorLog2 num den ≤ (num : ℚ) / den ∧
      (num : ℚ) / den < 2 ^ (floorLog2 num den + 1) := by
  have hden' : (0 : ℚ) < den := by exact_mod_cast hden
  -- the difference of the lengths is right or one too much
  have hhigh : (num : ℚ) / den < 2 ^ ((num.log2 : ℤ) - den.log2 + 1) := by
    rw [div_lt_iff₀ hden', show (num.log2 : ℤ) - den.log2 + 1 = num.log2 + 1 - den.log2 by ring,
      zpow_sub₀ two_ne_zero, div_mul_eq_mul_div, lt_div_iff₀ (two_zpow_pos _)]
    exact mul_lt_mul (lt_two_zpow_log2 num) (two_zpow_log2_le hden) (two_zpow_pos _)
      (two_zpow_pos _).le
  have hlow : (2 : ℚ) ^ ((num.log2 : ℤ) - den.log2 - 1) ≤ (num : ℚ) / den := by
    rw [le_div_iff₀ hden', show (num.log2 : ℤ) - den.log2 - 1 = num.log2 - (den.log2 + 1) by ring,
      zpow_sub₀ two_ne_zero, div_mul_eq_mul_div, div_le_iff₀ (two_zpow_pos _)]
    exact mul_le_mul (two_zpow_log2_le hnum) (lt_two_zpow_log2 den).le hden'.le (by positivity)
  unfold floorLog2
  simp only [lt_two_zpow_iff hden]
  split
  · rename_i hlt
    exact ⟨hlow, by rwa [sub_add_cancel]⟩
  · rename_i hnot
    exact ⟨not_lt.1 hnot, hhigh⟩

/-- A number in the interval of those that round to `m * 2 ^ q`. -/
structure Within (m : Nat) (q : ℤ) (x : ℚ) : Prop where
  low : ((interval m q).low : ℚ) * 2 ^ (q - 2) ≤ x
  high : x ≤ ((interval m q).high : ℚ) * 2 ^ (q - 2)
  inside : (interval m q).closed = false →
    ((interval m q).low : ℚ) * 2 ^ (q - 2) < x ∧ x < ((interval m q).high : ℚ) * 2 ^ (q - 2)

/-- The quotient over a power of two as one fraction. -/
theorem halfEven_uniform (num den : Nat) (q : ℤ) :
    (if 0 ≤ q then Rounding.halfEven num (den * 2 ^ q.toNat)
      else Rounding.halfEven (num * 2 ^ (-q).toNat) den) =
      Rounding.halfEven (num * 2 ^ (-q).toNat) (den * 2 ^ q.toNat) := by
  split
  · rw [Int.toNat_of_nonpos (by omega : -q ≤ 0), Nat.pow_zero, Nat.mul_one]
  · rw [Int.toNat_of_nonpos (by omega : q ≤ 0), Nat.pow_zero, Nat.mul_one]

/-- The coefficient of a quotient over a power of two. -/
theorem halfEven_scaled {num den m : Nat} (hden : 0 < den) (q : ℤ)
    (hlow : (4 * m - 2 : ℚ) * 2 ^ (q - 2) ≤ (num : ℚ) / den)
    (hhigh : (num : ℚ) / den ≤ (4 * m + 2 : ℚ) * 2 ^ (q - 2))
    (hodd : m % 2 = 1 → (4 * m - 2 : ℚ) * 2 ^ (q - 2) < (num : ℚ) / den ∧
      (num : ℚ) / den < (4 * m + 2 : ℚ) * 2 ^ (q - 2)) :
    (if 0 ≤ q then Rounding.halfEven num (den * 2 ^ q.toNat)
      else Rounding.halfEven (num * 2 ^ (-q).toNat) den) = m := by
  have hden' : (0 : ℚ) < den := by exact_mod_cast hden
  have hpow : ∀ a : ℚ, a * (2 : ℚ) ^ (q - 2) = a * 2 ^ q.toNat / (4 * 2 ^ (-q).toNat) := by
    intro a
    rw [zpow_sub₀ two_ne_zero, zpow_eq_div two_ne_zero q]
    field_simp
    norm_num
  have hpos : (0 : ℚ) < 4 * 2 ^ (-q).toNat := by positivity
  rw [hpow, div_le_div_iff₀ hpos hden'] at hlow
  rw [hpow, div_le_div_iff₀ hden' hpos] at hhigh
  rw [hpow, hpow, div_lt_div_iff₀ hpos hden', div_lt_div_iff₀ hden' hpos] at hodd
  rw [halfEven_uniform]
  refine Rounding.halfEven_eq (Nat.mul_pos hden (Nat.two_pow_pos _)) ?_ ?_ fun hm => ?_
  · have hle : (2 * (m * (den * 2 ^ q.toNat)) : ℚ) ≤
        2 * (num * 2 ^ (-q).toNat) + den * 2 ^ q.toNat := by linarith
    exact_mod_cast hle
  · have hle : (2 * (num * 2 ^ (-q).toNat) : ℚ) ≤
        2 * (m * (den * 2 ^ q.toNat)) + den * 2 ^ q.toNat := by linarith
    exact_mod_cast hle
  · obtain ⟨hlow, hhigh⟩ := hodd hm
    have hlt : (2 * (m * (den * 2 ^ q.toNat)) : ℚ) <
        2 * (num * 2 ^ (-q).toNat) + den * 2 ^ q.toNat := by linarith
    have hlt' : (2 * (num * 2 ^ (-q).toNat) : ℚ) <
        2 * (m * (den * 2 ^ q.toNat)) + den * 2 ^ q.toNat := by linarith
    exact ⟨by exact_mod_cast hlt, by exact_mod_cast hlt'⟩

theorem pack_of_canonical {negative : Bool} {m : Nat} {q : ℤ} (h : Canonical m q) :
    pack negative m q = .finite negative m q h := dif_pos h

namespace Within

variable {m : Nat} {q : ℤ} {x : ℚ}

theorem half_low (hx : Within m q x) : (4 * m - 2 : ℚ) * 2 ^ (q - 2) ≤ x := by
  refine le_trans (mul_le_mul_of_nonneg_right ?_ (two_zpow_pos _).le) hx.low
  have hle : 4 * m ≤ (interval m q).low + 2 := by
    simp only [interval]
    split <;> omega
  have hle' : (4 * m : ℚ) ≤ (interval m q).low + 2 := by exact_mod_cast hle
  linarith

theorem half_high (hx : Within m q x) : x ≤ (4 * m + 2 : ℚ) * 2 ^ (q - 2) := by
  have h := hx.high
  simp only [interval] at h
  exact_mod_cast h

/-- The interval of an odd coefficient is open, and it is not below a power of two. -/
theorem half_of_odd (hx : Within m q x) (hm : m % 2 = 1) :
    (4 * m - 2 : ℚ) * 2 ^ (q - 2) < x ∧ x < (4 * m + 2 : ℚ) * 2 ^ (q - 2) := by
  have hne : m ≠ leading := by
    rintro rfl
    exact absurd hm (by decide)
  have hlow : (interval m q).low = 4 * m - 2 := if_neg fun h => hne h.1
  have hcast : ((4 * m - 2 : Nat) : ℚ) = 4 * m - 2 := by
    rw [Nat.cast_sub (by omega)]
    norm_num
  have h := hx.inside (by simp [interval, hm])
  rw [hlow, hcast] at h
  exact ⟨h.1, by exact_mod_cast h.2⟩

theorem two_zpow_le (hx : Within m q x) (hm : 0 < m) : (2 : ℚ) ^ (q - 1) ≤ x := by
  have hm' : (1 : ℚ) ≤ m := by exact_mod_cast hm
  refine le_trans ?_ hx.half_low
  rw [show q - 1 = 1 + (q - 2) by ring, zpow_add₀ two_ne_zero, zpow_one]
  exact mul_le_mul_of_nonneg_right (by linarith) (two_zpow_pos _).le

/-- The numbers of the interval have no more digits than the coefficient can have. -/
theorem lt_two_zpow (hx : Within m q x) (hm : m < 2 * leading) : x < 2 ^ (q + 53) := by
  have hm' : (m : ℚ) + 1 ≤ 2 * leading := by exact_mod_cast hm
  refine hx.half_high.trans_lt ?_
  rw [show q + 53 = 55 + (q - 2) by ring, zpow_add₀ two_ne_zero]
  refine mul_lt_mul_of_pos_right ?_ (two_zpow_pos _)
  norm_num [leading] at hm' ⊢
  linarith

/-- The interval of a normal number reaches into the next lower binade only below a power of two,
where the spacing halves. -/
theorem eq_leading (hx : Within m q x) (hm : leading ≤ m) (hq : -1074 < q)
    (hlt : x < 2 ^ (q + 52)) :
    m = leading ∧ (4 * leading - 1 : ℚ) * 2 ^ (q - 2) ≤ x := by
  have heq : m = leading := by
    refine le_antisymm (not_lt.1 fun hgt => ?_) hm
    have hgt' : (leading : ℚ) + 1 ≤ m := by exact_mod_cast hgt
    rw [show q + 52 = 54 + (q - 2) by ring, zpow_add₀ two_ne_zero] at hlt
    have hcoefficient := lt_of_mul_lt_mul_right (hx.half_low.trans_lt hlt) (two_zpow_pos _).le
    have hleading : (leading : ℚ) = 2 ^ 52 := by norm_num [leading]
    norm_num at hcoefficient
    linarith
  subst heq
  have hlow := hx.low
  rw [show (interval leading q).low = 4 * leading - 1 from if_pos ⟨rfl, hq⟩] at hlow
  exact ⟨rfl, by exact_mod_cast hlow⟩

end Within

theorem ofRatio_eq_pack {negative : Bool} {num den m : Nat} {q : ℤ} (hnum : 0 < num)
    (hq : max (-1074) (floorLog2 num den - 52) = q)
    (hm : (if 0 ≤ q then Rounding.halfEven num (den * 2 ^ q.toNat)
      else Rounding.halfEven (num * 2 ^ (-q).toNat) den) = m) :
    ofRatio negative num den =
      if m = 2 * leading then pack negative leading (q + 1) else pack negative m q := by
  rw [ofRatio, if_neg hnum.ne']
  simp only [hq, hm]

/-- A quotient just below a power of two is rounded up to it. -/
theorem ofRatio_eq_leading {negative : Bool} {num den : Nat} {q : ℤ} (h : Canonical leading q)
    (hnum : 0 < num) (hden : 0 < den) (hq : -1074 < q)
    (hlow : (4 * leading - 1 : ℚ) * 2 ^ (q - 2) ≤ (num : ℚ) / den)
    (hlt : (num : ℚ) / den < 2 ^ (q + 52)) :
    ofRatio negative num den = .finite negative leading q h := by
  obtain ⟨hfloor, hceil⟩ := floorLog2_spec hnum hden
  have hscale : (2 : ℚ) ^ (q + 52) = 4 * leading * 2 ^ (q - 2) := by
    rw [show q + 52 = 54 + (q - 2) by ring, zpow_add₀ two_ne_zero]
    norm_num [leading]
  have hhalf : (2 : ℚ) ^ (q - 1 - 2) = 2 ^ (q - 2) / 2 := by
    rw [show q - 1 - 2 = q - 2 - 1 by ring, zpow_sub_one₀ two_ne_zero]
    rfl
  have hunit := two_zpow_pos (q - 2)
  have hexponent : max (-1074) (floorLog2 num den - 52) = q - 1 := by
    have hhigh := two_zpow_lt_iff.1 (hfloor.trans_lt hlt)
    have hge : (2 : ℚ) ^ (q + 51) ≤ (num : ℚ) / den := by
      refine le_trans ?_ hlow
      rw [show q + 51 = 53 + (q - 2) by ring, zpow_add₀ two_ne_zero]
      exact mul_le_mul_of_nonneg_right (by norm_num [leading]) hunit.le
    have hlow := two_zpow_lt_iff.1 (hge.trans_lt hceil)
    omega
  have hcoefficient := @halfEven_scaled num den (2 * leading) hden (q - 1)
    (by rw [hhalf]; push_cast; linarith) (by rw [hhalf]; push_cast; linarith)
    (fun h => absurd h (by decide))
  rw [ofRatio_eq_pack hnum hexponent hcoefficient, if_pos rfl, sub_add_cancel]
  exact pack_of_canonical h

/-- A quotient in the interval of a number is rounded to this number. -/
theorem ofRatio_eq {negative : Bool} {num den m : Nat} {q : ℤ} (h : Canonical m q)
    (hnum : 0 < num) (hden : 0 < den) (hx : Within m q ((num : ℚ) / den)) :
    ofRatio negative num den = .finite negative m q h := by
  obtain ⟨hfloor, hceil⟩ := floorLog2_spec hnum hden
  obtain ⟨hmlt, hqlow, -, hnormal⟩ := id h
  have hbound := two_zpow_lt_iff.1 (hfloor.trans_lt (hx.lt_two_zpow hmlt))
  by_cases hbelow : -1074 < q ∧ (num : ℚ) / den < 2 ^ (q + 52)
  · obtain ⟨hq, hlt⟩ := hbelow
    obtain ⟨rfl, hlow⟩ := hx.eq_leading (hnormal.resolve_right hq.ne') hq hlt
    exact ofRatio_eq_leading h hnum hden hq hlow hlt
  · -- the quotient has the exponent of the number
    have hexponent : max (-1074) (floorLog2 num den - 52) = q := by
      rcases hqlow.eq_or_lt with rfl | hq
      · omega
      · have hge := not_lt.1 fun hlt => hbelow ⟨hq, hlt⟩
        have hlow := two_zpow_lt_iff.1 (hge.trans_lt hceil)
        omega
    rw [ofRatio_eq_pack hnum hexponent
      (halfEven_scaled hden q hx.half_low hx.half_high hx.half_of_odd), if_neg hmlt.ne]
    exact pack_of_canonical h

end Binary64

end FormulaPipeline
