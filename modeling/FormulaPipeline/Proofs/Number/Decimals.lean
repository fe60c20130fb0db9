import FormulaPipeline.Proofs.Number.Rational

/-!
# Decimals as rational numbers

Whole numbers pass between decimals and floats by one rounding at most. A product or a quotient is
rounded to zero in decimals if and only if it is at most half of the smallest decimal, and no other
decimal becomes zero as a float or as a whole number.
-/

namespace FormulaPipeline

def Binary64.exponent : Binary64 → ℤ
  | finite _ _ q _ => q
  | _ => 0

namespace Decimal

/-! ## Whole decimals and floats -/

theorem toBinary64_ofWhole {n : ℤ} (h : n.natAbs < limit) :
    (ofWhole n h).toBinary64 = Binary64.ofInt n := by
  have hmagnitude : magnitudeToBinary64 n.natAbs 0 = Binary64.ofRatio false n.natAbs 1 := by
    simp [magnitudeToBinary64, Binary64.ofNat]
  rw [toBinary64, ofWhole, hmagnitude, ← Binary64.ofRatio_neg, Binary64.ofInt, Binary64.ofNat]
  split <;> simp [*]

/-- A coefficient with room for all its twos takes them in. -/
theorem releaseFives_of_lt {n b : Nat} {e : ℤ} (h : b * 2 ^ n < limit) :
    releaseFives n b e = some (b * 2 ^ n, e - n) := by
  induction n generalizing b e with
  | zero => simp [releaseFives]
  | succ n ih =>
    have hroom : b * 2 * 2 ^ n < limit := by
      rwa [Nat.mul_assoc, ← Nat.pow_succ']
    have hstep : b * 2 < limit := (Nat.le_mul_of_pos_right _ (Nat.two_pow_pos n)).trans_lt hroom
    rw [releaseFives, if_pos hstep, ih hroom, Nat.mul_assoc, ← Nat.pow_succ', Nat.cast_succ]
    congr 2
    ring

theorem ofDyadic?_whole {negative : Bool} {m : Nat} {q : ℤ} (hq : 0 ≤ q)
    (h : m * 2 ^ q.toNat < limit) :
    ofDyadic? negative m q = make? (Binary64.signed negative (m * 2 ^ q.toNat)) 0 := by
  simp [ofDyadic?, hq, releaseFives_of_lt h, absorbTens, dropPlaces, dropExcess, dropZeros]

/-- A float of 54 bits or more is whole, and a decimal takes it unchanged while it has room. -/
theorem ofBinary64?_of_large {x : Binary64} (hx : x.isFinite = true) (hlow : 2 ^ 53 ≤ |x.toRat|)
    (hhigh : |x.toRat| < limit) :
    ∃ (n : ℤ) (hn : n.natAbs < limit), x.toRat = n ∧ ofBinary64? x = some (ofWhole n hn) := by
  obtain ⟨negative, m, q, hc, rfl⟩ := Binary64.exists_eq_finite hx
  rw [Binary64.abs_toRat] at hlow hhigh
  have hm : m ≠ 0 := by
    rintro rfl
    norm_num at hlow
  have hq : 0 ≤ q := by
    by_contra hneg
    have hbits : (m : ℚ) < 2 ^ 53 := by exact_mod_cast hc.1
    have hpower : (2 : ℚ) ^ q ≤ 1 := by
      rw [← zpow_zero (2 : ℚ)]
      exact Binary64.two_zpow_le_iff.2 (by omega)
    have hmul := mul_le_mul_of_nonneg_left hpower (Nat.cast_nonneg (α := ℚ) m)
    linarith
  have hpower : (2 : ℚ) ^ q = (2 ^ q.toNat : Nat) := by
    rw [Nat.cast_pow, Nat.cast_ofNat, ← zpow_natCast, Int.toNat_of_nonneg hq]
  have hroom : m * 2 ^ q.toNat < limit := by
    rw [hpower] at hhigh
    exact_mod_cast hhigh
  refine ⟨Binary64.signed negative (m * 2 ^ q.toNat), ?_, ?_, ?_⟩
  · rwa [Binary64.natAbs_signed]
  · rw [Binary64.toRat, hpower, Binary64.signed_mul]
    push_cast
    ring
  · rw [ofBinary64?, if_neg hm, ofDyadic?_whole hq hroom]
    exact make?_zero _

/-! ## Results that vanish -/

def toRat (d : Decimal) : ℚ := d.coefficient / 10 ^ d.scale

/-- Half of the smallest positive decimal. -/
def halfUnit : ℚ := 1 / (2 * 10 ^ 28)

theorem toRat_eq_zero_iff {d : Decimal} : d.toRat = 0 ↔ d.coefficient = 0 := by
  have hpower : (10 : ℚ) ^ d.scale ≠ 0 := by positivity
  rw [toRat, div_eq_zero_iff, or_iff_left hpower, Int.cast_eq_zero]

theorem toRat_ofWhole {n : ℤ} (h : n.natAbs < limit) : (ofWhole n h).toRat = n := by
  simp [toRat, ofWhole]

theorem le_halfUnit_iff {num : ℤ} {den : Nat} (hden : 0 < den) :
    |(num : ℚ) / den| ≤ halfUnit ↔ 2 * (num.natAbs * 10 ^ 28) ≤ den := by
  have hden' : (0 : ℚ) < den := by exact_mod_cast hden
  rw [halfUnit, abs_div, abs_of_pos hden', Binary64.abs_cast_int,
    div_le_div_iff₀ hden' (by positivity), one_mul]
  constructor
  · intro h
    have h' : ((2 * (num.natAbs * 10 ^ 28) : Nat) : ℚ) ≤ den := by
      push_cast
      linarith
    exact_mod_cast h'
  · intro h
    have h' : ((2 * (num.natAbs * 10 ^ 28) : Nat) : ℚ) ≤ den := by exact_mod_cast h
    push_cast at h'
    linarith

theorem coefficient_eq_zero_iff_scaled {num : ℤ} {den places : Nat} (hden : 0 < den)
    (hplaces : places ≤ 28) {d : Decimal} (h : ofQuotient? num den places = some d) :
    d.coefficient = 0 ↔ 2 * (num.natAbs * 10 ^ places) ≤ den := by
  obtain ⟨hcoefficient, hscale⟩ := ofQuotient?_eq_some hplaces h
  by_cases hnum : num = 0
  · simp [hcoefficient, hnum]
  have hzero : d.coefficient = 0 ↔ 2 * (num.natAbs * 10 ^ d.scale) ≤ den := by
    rw [← Int.natAbs_eq_zero, hcoefficient, natAbs_sign_mul hnum,
      Rounding.halfEven_eq_zero_iff hden]
  rw [hzero]
  obtain hscale | ⟨hlt, hlimit⟩ := hscale
  · rw [hscale]
  · -- a place more gives a coefficient that is too long, so this one is far from zero
    have hlarge : den < 2 * (num.natAbs * 10 ^ d.scale) := by
      have hlow := @Rounding.two_mul_halfEven_le (num.natAbs * 10 ^ (d.scale + 1)) _ hden
      have hmul := Nat.mul_le_mul_right den hlimit
      rw [Nat.pow_succ, ← Nat.mul_assoc num.natAbs] at hlow hmul
      simp only [limit] at hmul
      omega
    have hmore : 2 * (num.natAbs * 10 ^ d.scale) ≤ 2 * (num.natAbs * 10 ^ places) :=
      Nat.mul_le_mul_left 2 (Nat.mul_le_mul_left _ (Nat.pow_le_pow_right (by decide) hlt.le))
    exact iff_of_false (by omega) (by omega)

/-- A quotient with all places, or with places in which it is exact, is rounded to zero if and only
if it is at most half of the smallest decimal. -/
theorem coefficient_eq_zero_iff {num : ℤ} {den places : Nat} (hden : 0 < den)
    (hplaces : places ≤ 28) (hexact : places = 28 ∨ den ∣ num.natAbs * 10 ^ places) {d : Decimal}
    (h : ofQuotient? num den places = some d) :
    d.coefficient = 0 ↔ |(num : ℚ) / den| ≤ halfUnit := by
  rw [coefficient_eq_zero_iff_scaled hden hplaces h, le_halfUnit_iff hden]
  obtain rfl | hdvd := hexact
  · rfl
  · rcases Nat.eq_zero_or_pos num.natAbs with hnum | hnum
    · simp [hnum]
    · have hle := Nat.le_of_dvd (Nat.mul_pos hnum (by positivity)) hdvd
      have hmore : num.natAbs * 10 ^ places ≤ num.natAbs * 10 ^ 28 :=
        Nat.mul_le_mul_left _ (Nat.pow_le_pow_right (by decide) hplaces)
      exact iff_of_false (by omega) (by omega)

theorem exists_ofQuotient?_of_le_halfUnit {num : ℤ} {den : Nat} (hden : 0 < den)
    (h : |(num : ℚ) / den| ≤ halfUnit) (places : Nat) :
    ∃ d, ofQuotient? num den places = some d := by
  rw [le_halfUnit_iff hden] at h
  have hzero : Rounding.halfEven num.natAbs den = 0 :=
    (Rounding.halfEven_eq_zero_iff hden).2 (by omega)
  exact exists_ofQuotient?_eq (by rw [hzero]; decide) places

section Operations

variable {x y d : Decimal}

theorem toRat_mul : x.toRat * y.toRat =
    ((x.coefficient * y.coefficient : ℤ) : ℚ) / (10 ^ (x.scale + y.scale) : Nat) := by
  rw [toRat, toRat, div_mul_div_comm, ← pow_add]
  push_cast
  rfl

theorem abs_toRat_div (hy : y.coefficient ≠ 0) : |x.toRat / y.toRat| =
    |((x.coefficient * y.coefficient.sign * 10 ^ y.scale : ℤ) : ℚ) /
      (y.coefficient.natAbs * 10 ^ x.scale : Nat)| := by
  have hsign : |(y.coefficient.sign : ℚ)| = 1 := by
    rw [Binary64.abs_cast_int, Int.natAbs_sign_of_ne_zero hy, Nat.cast_one]
  have hy' : (y.coefficient.natAbs : ℚ) ≠ 0 := by exact_mod_cast Int.natAbs_ne_zero.2 hy
  simp only [toRat, abs_div, abs_mul, abs_pow, Int.cast_mul, Int.cast_pow, Nat.cast_mul,
    Nat.cast_pow, hsign, Binary64.abs_cast_int, Nat.abs_cast, Int.cast_ofNat, Nat.cast_ofNat,
    Nat.abs_ofNat, mul_one]
  field_simp

theorem mul?_eq_zero_iff (h : x.mul? y = some d) :
    d.coefficient = 0 ↔ |x.toRat * y.toRat| ≤ halfUnit := by
  rw [toRat_mul]
  refine coefficient_eq_zero_iff (by positivity) (min_le_left 28 _) ?_ h
  rcases le_total 28 (x.scale + y.scale) with hle | hle
  · exact .inl (min_eq_left hle)
  · exact .inr (by rw [min_eq_right hle]; exact Nat.dvd_mul_left _ _)

theorem exists_mul?_of_le_halfUnit (h : |x.toRat * y.toRat| ≤ halfUnit) :
    ∃ d, x.mul? y = some d := by
  rw [toRat_mul] at h
  exact exists_ofQuotient?_of_le_halfUnit (by positivity) h _

theorem div?_eq_zero_iff (hy : y.coefficient ≠ 0) (h : x.div? y = some d) :
    d.coefficient = 0 ↔ |x.toRat / y.toRat| ≤ halfUnit := by
  have hden : 0 < y.coefficient.natAbs * 10 ^ x.scale :=
    Nat.mul_pos (Int.natAbs_pos.2 hy) (by positivity)
  rw [abs_toRat_div hy]
  simp only [div?, if_neg hy] at h
  split at h
  · rename_i hexact
    exact coefficient_eq_zero_iff hden (by have := x.scale_le; omega)
      (.inr (Nat.dvd_of_mod_eq_zero hexact)) h
  · obtain ⟨e, he, rfl⟩ := Option.map_eq_some_iff.1 h
    rw [← coefficient_eq_zero_iff hden le_rfl (.inl rfl) he]
    have htrim := (trimZeros_spec e).2
    constructor
    · intro hzero
      rw [← htrim, hzero, zero_mul]
    · intro hzero
      rw [hzero] at htrim
      exact (mul_eq_zero.1 htrim).resolve_right (by positivity)

theorem exists_div?_of_le_halfUnit (hy : y.coefficient ≠ 0)
    (h : |x.toRat / y.toRat| ≤ halfUnit) : ∃ d, x.div? y = some d := by
  have hden : 0 < y.coefficient.natAbs * 10 ^ x.scale :=
    Nat.mul_pos (Int.natAbs_pos.2 hy) (by positivity)
  rw [abs_toRat_div hy] at h
  have hquotient := exists_ofQuotient?_of_le_halfUnit hden h
  simp only [div?, if_neg hy]
  split
  · exact hquotient _
  · obtain ⟨e, he⟩ := hquotient 28
    exact ⟨e.trimZeros, by rw [he]; rfl⟩

end Operations

/-! ## Decimals other than zero as floats -/

section Nonzero

open Binary64

theorem IsUnit.isFinite {x : Binary64} (h : IsUnit x) : x.isFinite = true := h.atMost.isFinite

theorem IsUnit.exponent_bounds {x : Binary64} (h : IsUnit x) :
    -52 ≤ x.exponent ∧ x.exponent ≤ 41 ∧
      2 ^ (52 + x.exponent) ≤ |x.toRat| ∧ |x.toRat| < 2 ^ (53 + x.exponent) := by
  obtain ⟨negative, m, q, hc, rfl⟩ := exists_eq_finite h.isFinite
  have hlow : ((2 : ℚ) ^ (52 : ℤ)) ≤ m := by exact_mod_cast h.1
  have hhigh : (m : ℚ) < 2 ^ (53 : ℤ) := by exact_mod_cast hc.1
  rw [abs_toRat, exponent, zpow_add₀ two_ne_zero, zpow_add₀ two_ne_zero]
  exact ⟨h.2.1, h.2.2, mul_le_mul_of_nonneg_right hlow (two_zpow_pos q).le,
    mul_lt_mul_of_pos_right hhigh (two_zpow_pos q)⟩

/-- The float of a power of ten and the product that stands for it have one exponent. -/
theorem exponent_powers : ∀ scale : Nat, scale ≤ 28 →
    (powTen scale).exponent = (ofNat false (10 ^ scale)).exponent := by
  decide +kernel

/-- Rounding to whole numbers does not lose a number from one half on. -/
theorem one_le_abs_round {x : Binary64} (hx : x.isFinite = true) (hround : x.round.isFinite = true)
    (h : 2 ^ (-1 : ℤ) ≤ |x.toRat|) : 1 ≤ |x.round.toRat| := by
  obtain ⟨negative, m, q, hc, rfl⟩ := exists_eq_finite hx
  rw [abs_toRat] at h
  have hm : 0 < m := by
    rw [Nat.pos_iff_ne_zero]
    rintro rfl
    norm_num at h
  obtain ⟨n, hn, heq⟩ : ∃ n, 1 ≤ n ∧ (finite negative m q hc).round = ofNat negative n := by
    refine ⟨_, ?_, rfl⟩
    dsimp only
    split
    · exact Nat.mul_pos hm (Nat.two_pow_pos _)
    · rename_i hq
      have hhalf : 2 ^ (-q).toNat ≤ 2 * m := by
        rw [zpow_eq_div two_ne_zero q, Int.toNat_of_nonpos (by omega : q ≤ 0), pow_zero,
          mul_one_div, zpow_neg_one, le_div_iff₀ (by positivity)] at h
        have hscaled : ((2 ^ (-q).toNat : Nat) : ℚ) ≤ (2 * m : Nat) := by
          push_cast
          linarith
        exact_mod_cast hscaled
      exact Rounding.one_le_halfUp (Nat.two_pow_pos _) hhalf
  rw [heq] at hround ⊢
  have hnearest := isNearest_ofRatio Nat.one_pos hround
  refine hnearest.two_zpow_le_abs (e := 0) (by decide) (by decide) ?_
  rw [Nat.cast_one, div_one, abs_cast_int, natAbs_signed, zpow_zero]
  exact_mod_cast hn

variable {coefficient scale : Nat}

theorem isNearest_fraction {n : Nat} (hn : n < limit) (hscale : scale ≤ 28) :
    ((ofNat false n).div (ofNat false (10 ^ scale))).IsNearest
      ((ofNat false n).toRat / (ofNat false (10 ^ scale)).toRat) := by
  obtain ⟨-, -, hpower, -⟩ := (isUnit_powers scale hscale).1.exponent_bounds
  exact isNearest_div (atMost_ofNat_of_lt hn).isFinite (isUnit_powers scale hscale).1.isFinite
    (abs_pos.1 ((two_zpow_pos _).trans_le hpower)) (atMost_fraction hscale hn).isFinite

theorem fraction_eq_zero (hscale : scale ≤ 28) :
    ((ofNat false 0).div (ofNat false (10 ^ scale))).toRat = 0 := by
  have hnearest := isNearest_fraction (n := 0) (by decide) hscale
  rw [show (ofNat false 0).toRat = 0 from toRat_zero false, zero_div] at hnearest
  exact hnearest.toRat_eq (y := Binary64.zero false) rfl (toRat_zero false)

/-- A fraction other than zero is at least the unit of its places in floats. -/
theorem two_zpow_le_fraction {n : Nat} (hne : n ≠ 0) (hn : n < limit) (hscale : scale ≤ 28) :
    2 ^ (-(53 + (powTen scale).exponent)) ≤
      ((ofNat false n).div (ofNat false (10 ^ scale))).toRat := by
  obtain ⟨hlow, hhigh, hpower, hpower'⟩ := (isUnit_powers scale hscale).1.exponent_bounds
  rw [← exponent_powers scale hscale] at hlow hhigh hpower hpower'
  have hnumerator := isNearest_ofNat (n := n) hn.le
  have hdenominator := isNearest_ofNat (n := 10 ^ scale)
    ((Nat.pow_le_pow_right (by decide) hscale).trans (by norm_num))
  have hone : (2 : ℚ) ^ (0 : ℤ) ≤ |(ofNat false n).toRat| := by
    refine hnumerator.two_zpow_le_abs (by decide) (by decide) ?_
    rw [zpow_zero, Nat.abs_cast]
    exact_mod_cast Nat.pos_of_ne_zero hne
  have hquotient := isNearest_fraction hn hscale
  have hnonneg := hquotient.nonneg (div_nonneg (hnumerator.nonneg (Nat.cast_nonneg _))
    (hdenominator.nonneg (Nat.cast_nonneg _)))
  rw [← abs_of_nonneg hnonneg]
  refine hquotient.two_zpow_le_abs (by omega) (by omega) ?_
  rw [abs_div, le_div_iff₀ ((two_zpow_pos _).trans_le hpower), zpow_neg,
    inv_mul_le_iff₀ (two_zpow_pos _)]
  rw [zpow_zero] at hone
  calc |(ofNat false (10 ^ scale)).toRat| ≤ 2 ^ (53 + (powTen scale).exponent) * 1 := by
        rw [mul_one]
        exact hpower'.le
    _ ≤ _ := mul_le_mul_of_nonneg_left hone (two_zpow_pos _).le

/-- Rounding to the places of a decimal does not lose a fraction. -/
theorem toRat_scaled_ne_zero {whole fraction unit : Binary64} (hwhole : whole.AtMost 96)
    (hfraction : fraction.AtMost 96) (hunit : IsUnit unit) (hnonneg : 0 ≤ whole.toRat)
    (hleast : 2 ^ (-(53 + unit.exponent)) ≤ fraction.toRat) :
    ((((whole.add fraction).mul unit).round).div unit).toRat ≠ 0 := by
  obtain ⟨hlow, hhigh, hpower, hpower'⟩ := hunit.exponent_bounds
  obtain ⟨hsum, hscaled, hrounded⟩ := atMost_scaled hwhole hfraction hunit
  have hpos : 0 < |unit.toRat| := (two_zpow_pos _).trans_le hpower
  have hsumleast : 2 ^ (-(53 + unit.exponent)) ≤ |(whole.add fraction).toRat| := by
    refine (isNearest_add hwhole.isFinite hfraction.isFinite hsum.isFinite).two_zpow_le_abs
      (by omega) (by omega) ?_
    exact (hleast.trans (le_add_of_nonneg_left hnonneg)).trans (le_abs_self _)
  have hhalf : 2 ^ (-1 : ℤ) ≤ |((whole.add fraction).mul unit).toRat| := by
    refine (isNearest_mul hsum.isFinite hunit.isFinite hscaled.isFinite).two_zpow_le_abs
      (by decide) (by decide) ?_
    rw [abs_mul]
    calc (2 : ℚ) ^ (-1 : ℤ) = 2 ^ (-(53 + unit.exponent)) * 2 ^ (52 + unit.exponent) := by
          rw [← zpow_add₀ two_ne_zero]
          congr 1
          ring
      _ ≤ _ := mul_le_mul hsumleast hpower (two_zpow_pos _).le (abs_nonneg _)
  have hone := one_le_abs_round hscaled.isFinite hrounded.isFinite hhalf
  have hquotient := isNearest_div hrounded.isFinite hunit.isFinite (abs_pos.1 hpos)
    (hunit.atMost_div hrounded (by norm_num) (by norm_num)).isFinite
  have hresult := hquotient.two_zpow_le_abs (e := -(53 + unit.exponent)) (by omega) (by omega) (by
    rw [abs_div, le_div_iff₀ hpos, zpow_neg, inv_mul_le_iff₀ (two_zpow_pos _)]
    calc |unit.toRat| ≤ 2 ^ (53 + unit.exponent) * 1 := by
          rw [mul_one]
          exact hpower'.le
      _ ≤ _ := mul_le_mul_of_nonneg_left hone (two_zpow_pos _).le)
  exact abs_pos.1 ((two_zpow_pos _).trans_le hresult)

theorem toRat_magnitudeToBinary64_ne_zero (hcoefficient : coefficient < limit)
    (hscale : scale ≤ 28) (hne : coefficient ≠ 0) :
    (magnitudeToBinary64 coefficient scale).toRat ≠ 0 := by
  have hwhole := (Nat.div_le_self _ (10 ^ scale)).trans_lt hcoefficient
  have hrest := (Nat.mod_le _ (10 ^ scale)).trans_lt hcoefficient
  have hsplit := Nat.div_add_mod coefficient (10 ^ scale)
  have hfraction := atMost_fraction hscale hrest
  simp only [magnitudeToBinary64]
  split
  · rename_i hzero
    rw [ne_eq, ← isZero_iff (atMost_ofNat_of_lt hwhole).isFinite, isZero_ofNat_iff]
    intro hquotient
    rw [hquotient, Nat.mul_zero, Nat.zero_add] at hsplit
    rcases hzero with rfl | hzero
    · exact hne (by rw [← hsplit, pow_zero, Nat.mod_one])
    · rw [isZero_iff hfraction.isFinite] at hzero
      have hleast := two_zpow_le_fraction (by rwa [hsplit]) hrest hscale
      rw [hzero] at hleast
      exact (two_zpow_pos _).not_ge hleast
  · rename_i hzero
    rw [not_or, isZero_iff hfraction.isFinite] at hzero
    have hne' : coefficient % 10 ^ scale ≠ 0 := by
      intro hmod
      rw [hmod] at hzero
      exact hzero.2 (fraction_eq_zero hscale)
    exact toRat_scaled_ne_zero (atMost_ofNat_of_lt hwhole) hfraction (isUnit_powers scale hscale).2
      ((isNearest_ofNat hwhole.le).nonneg (Nat.cast_nonneg _))
      (two_zpow_le_fraction hne' hrest hscale)

theorem toRat_toBinary64_ne_zero {d : Decimal} (h : d.coefficient ≠ 0) :
    d.toBinary64.toRat ≠ 0 := by
  have hne := toRat_magnitudeToBinary64_ne_zero d.coefficient_lt d.scale_le (Int.natAbs_ne_zero.2 h)
  simp only [toBinary64]
  split
  · rwa [toRat_neg, neg_ne_zero]
  · exact hne

end Nonzero

end Decimal

namespace Numeric

theorem ofDecimal_of_part {d : Decimal} (h : d.isWhole = false) :
    ofDecimal d = float d.toBinary64 := by
  simp [ofDecimal, h]

theorem ofDecimal_ofWhole {n : ℤ} (h : n.natAbs < Decimal.limit) :
    ofDecimal (.ofWhole n h) = ((Integer.ofInt? n).map .int).getD (.float (Binary64.ofInt n)) := by
  have hwhole : (Decimal.ofWhole n h).isWhole = true := by simp [Decimal.isWhole, Decimal.ofWhole]
  have htruncate : (Decimal.ofWhole n h).truncate = n := by simp [Decimal.truncate, Decimal.ofWhole]
  rw [ofDecimal, if_pos hwhole, htruncate, Decimal.toBinary64_ofWhole]
  cases Integer.ofInt? n <;> rfl

theorem ofDecimal_ofWhole_eq_int_iff {n : ℤ} {h : n.natAbs < Decimal.limit} {k : Int64} :
    ofDecimal (.ofWhole n h) = int k ↔ k.toInt = n := by
  rw [ofDecimal_ofWhole, ← Integer.ofInt?_eq_some_iff]
  cases Integer.ofInt? n <;> simp

theorem ofDecimal_ofWhole_of_large {n : ℤ} (h : n.natAbs < Decimal.limit)
    (hnone : ∀ k : Int64, k.toInt ≠ n) : ofDecimal (.ofWhole n h) = float (Binary64.ofInt n) := by
  rw [ofDecimal_ofWhole, Integer.ofInt?_eq_none_iff.2 hnone]
  rfl

end Numeric

end FormulaPipeline
