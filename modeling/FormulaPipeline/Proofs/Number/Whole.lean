import FormulaPipeline.Proofs.Number.Magnitude
import FormulaPipeline.Value.Numeric

/-!
# Whole numbers in every layer

A whole number of 64 bits passes through decimals unchanged: sums, products and remainders of whole
decimals are exact, and a quotient that is not whole is never rounded to a whole decimal, because
a decimal has room for more places than the quotient needs to be told from its neighbours.
-/

namespace FormulaPipeline

namespace Integer

theorem ofInt?_eq_some_iff {n : Int} {k : Int64} : ofInt? n = some k ↔ k.toInt = n := by
  unfold ofInt?
  constructor
  · intro h
    split at h
    · rename_i hrange
      rw [← Option.some.inj h]
      exact Int64.toInt_ofInt_of_le hrange.1 (Int.lt_add_one_of_le hrange.2)
    · cases h
  · rintro rfl
    rw [if_pos ⟨k.le_toInt, Int.le_of_lt_add_one k.toInt_lt⟩, Int64.ofInt_toInt]

theorem ofInt?_toInt (k : Int64) : ofInt? k.toInt = some k := ofInt?_eq_some_iff.2 rfl

theorem ofInt?_eq_none_iff {n : Int} : ofInt? n = none ↔ ∀ k : Int64, k.toInt ≠ n := by
  simp only [Option.eq_none_iff_forall_ne_some, ne_eq, ofInt?_eq_some_iff]

theorem natAbs_toInt_le (k : Int64) : k.toInt.natAbs ≤ 2 ^ 63 := by
  have hlow := k.le_toInt
  have hhigh := k.toInt_lt
  omega

end Integer

namespace Rounding

variable {num den : Nat}

theorem halfEven_one (num : Nat) : halfEven num 1 = num := by
  simp [halfEven, Nat.mod_one]

theorem halfEven_of_dvd (hden : 0 < den) (h : den ∣ num) : halfEven num den = num / den := by
  simp [halfEven, Nat.mod_eq_zero_of_dvd h, hden]

theorem two_mul_halfEven_le (hden : 0 < den) : 2 * (halfEven num den * den) ≤ 2 * num + den := by
  have hdiv : den * (num / den) + num % den = num := Nat.div_add_mod num den
  rw [Nat.mul_comm] at hdiv
  simp only [halfEven]
  split
  · omega
  · rw [Nat.add_one_mul (num / den)]
    omega

theorem le_two_mul_halfEven (hden : 0 < den) : 2 * num ≤ 2 * (halfEven num den * den) + den := by
  have hdiv : den * (num / den) + num % den = num := Nat.div_add_mod num den
  have hmod : num % den < den := Nat.mod_lt num hden
  rw [Nat.mul_comm] at hdiv
  simp only [halfEven]
  split
  · omega
  · rw [Nat.add_one_mul (num / den)]
    omega

theorem halfEven_eq_zero_iff (hden : 0 < den) : halfEven num den = 0 ↔ 2 * num ≤ den := by
  have hlow := @two_mul_halfEven_le num den hden
  have hhigh := @le_two_mul_halfEven num den hden
  constructor
  · intro h
    rw [h] at hhigh
    omega
  · intro h
    have hsmall : num / den = 0 := Nat.div_eq_of_lt (by omega)
    have hmod : num % den = num := Nat.mod_eq_of_lt (by omega)
    simp only [halfEven, hsmall, hmod]
    exact if_pos (h.lt_or_eq.imp_right fun htie => ⟨htie, trivial⟩)

theorem one_le_halfUp (hden : 0 < den) (h : den ≤ 2 * num) : 1 ≤ halfUp num den := by
  rcases Nat.lt_or_ge num den with hlt | hle
  · have hmod : num % den = num := Nat.mod_eq_of_lt hlt
    simp only [halfUp, hmod]
    rw [if_neg (by omega)]
    exact Nat.le_add_left _ _
  · have hone : 1 ≤ num / den := (Nat.one_le_div_iff hden).2 hle
    simp only [halfUp]
    split <;> omega

/-- Over a unit that is fine enough a quotient that is not whole stays away from whole numbers. -/
theorem not_dvd_halfEven {unit : Nat} (hden : 0 < den) (hpart : ¬den ∣ num)
    (hunit : den < 2 * unit) : ¬unit ∣ halfEven (num * unit) den := by
  rintro ⟨c, hc⟩
  have hlow := @two_mul_halfEven_le (num * unit) _ hden
  have hhigh := @le_two_mul_halfEven (num * unit) _ hden
  rw [hc, show unit * c * den = c * den * unit by ring] at hlow hhigh
  have hne : c * den ≠ num := fun h => hpart ⟨c, by rw [← h, Nat.mul_comm]⟩
  rcases Nat.lt_or_gt_of_ne hne with hlt | hlt
  · have hmul : (c * den + 1) * unit ≤ num * unit := Nat.mul_le_mul_right unit hlt
    rw [Nat.succ_mul] at hmul
    omega
  · have hmul : (num + 1) * unit ≤ c * den * unit := Nat.mul_le_mul_right unit hlt
    rw [Nat.succ_mul] at hmul
    omega

end Rounding

namespace Binary64

theorem isZero_pack {negative : Bool} {m : Nat} {q : ℤ} (hm : 1 ≤ m) :
    (pack negative m q).isZero = false := by
  obtain ⟨k, rfl⟩ := Nat.exists_eq_add_of_le' hm
  unfold pack
  split <;> rfl

/-- No whole number but zero is rounded to zero. -/
theorem isZero_ofNat_iff {negative : Bool} {n : Nat} :
    (ofNat negative n).isZero = true ↔ n = 0 := by
  constructor
  · intro h
    by_contra hn
    have hpos : 0 < n := Nat.pos_of_ne_zero hn
    obtain ⟨hfloor, hceil⟩ := floorLog2_spec hpos Nat.one_pos
    have hexponent : 0 ≤ floorLog2 n 1 := by
      have hone : (2 : ℚ) ^ (0 : ℤ) < 2 ^ (floorLog2 n 1 + 1) := by
        refine lt_of_le_of_lt ?_ hceil
        rw [zpow_zero, Nat.cast_one, div_one]
        exact_mod_cast hpos
      have hlt := two_zpow_lt_iff.1 hone
      omega
    obtain ⟨q, hq⟩ : ∃ q, max (-1074) (floorLog2 n 1 - 52) = q := ⟨_, rfl⟩
    obtain ⟨m, hm⟩ : ∃ m, (if 0 ≤ q then Rounding.halfEven n (1 * 2 ^ q.toNat)
      else Rounding.halfEven (n * 2 ^ (-q).toNat) 1) = m := ⟨_, rfl⟩
    have hone : 1 ≤ m := by
      rw [← hm]
      apply le_halfEven_scaled Nat.one_pos
      rw [Nat.cast_one (R := ℚ), one_mul]
      exact (two_zpow_le_iff.2 (by omega)).trans hfloor
    rw [ofNat, ofRatio_eq_pack hpos hq hm] at h
    split at h
    · rw [isZero_pack (by decide)] at h
      cases h
    · rw [isZero_pack hone] at h
      cases h
  · rintro rfl
    rfl

theorem isZero_ofInt_iff {n : Int} : (ofInt n).isZero = true ↔ n = 0 := by
  rw [ofInt, isZero_ofNat_iff, Int.natAbs_eq_zero]

end Binary64

namespace Decimal

/-! ## Whole decimals -/

/-- A whole number as a decimal. -/
def ofWhole (n : Int) (h : n.natAbs < limit) : Decimal := ⟨n, 0, h, zero.scale_le⟩

theorem make?_zero {n : Int} (h : n.natAbs < limit) : make? n 0 = some (ofWhole n h) :=
  dif_pos ⟨h, Nat.zero_le _⟩

theorem natAbs_toInt_lt (k : Int64) : k.toInt.natAbs < limit :=
  (Integer.natAbs_toInt_le k).trans_lt (by decide)

theorem ofInt?_toInt (k : Int64) : ofInt? k.toInt = some (ofWhole k.toInt (natAbs_toInt_lt k)) :=
  make?_zero _

theorem ofQuotient?_whole (n : Int) : ofQuotient? n 1 0 = make? n 0 := by
  rw [ofQuotient?, Rounding.halfEven_one, Int.sign_mul_natAbs]

variable {a b : Int} {ha : a.natAbs < limit} {hb : b.natAbs < limit}

theorem add?_whole : (ofWhole a ha).add? (ofWhole b hb) = make? (a + b) 0 := by
  rw [add?]
  split
  · rename_i hzero
    obtain rfl : a = 0 := hzero
    rw [zero_add, make?_zero hb]
  · split
    · rename_i hzero
      obtain rfl : b = 0 := hzero
      rw [add_zero, make?_zero ha]
    · simp [ofWhole, coefficientAt, ofQuotient?_whole]

theorem sub?_whole : (ofWhole a ha).sub? (ofWhole b hb) = make? (a - b) 0 :=
  @add?_whole a (-b) ha (by rwa [Int.natAbs_neg])

theorem mul?_whole : (ofWhole a ha).mul? (ofWhole b hb) = make? (a * b) 0 := by
  simp [mul?, ofWhole, ofQuotient?_whole]

theorem rem?_whole (hzero : b ≠ 0) : (ofWhole a ha).rem? (ofWhole b hb) = make? (a.tmod b) 0 := by
  simp only [rem?, ofWhole, hzero, if_false, coefficientAt, Nat.max_self, Nat.sub_self, pow_zero,
    mul_one]
  split
  · rename_i hlt
    have hquotient : a.tdiv b = 0 := by
      rw [← Int.natAbs_eq_zero, Int.natAbs_tdiv]
      exact Nat.div_eq_of_lt hlt
    have hsmall : a.tmod b = a := by
      rw [Int.tmod_def, hquotient, mul_zero, sub_zero]
    rw [hsmall, make?_zero ha]
    rfl
  · rfl

/-! ## Quotients -/

theorem div?_whole_mul {c : Int} (hzero : b ≠ 0) (hc : a = b * c) :
    (ofWhole a ha).div? (ofWhole b hb) = make? c 0 := by
  subst hc
  have hpos : 0 < b.natAbs := Int.natAbs_pos.2 hzero
  have hnum : b * c * b.sign = b.natAbs * c := by rw [mul_right_comm, Int.mul_sign_self]
  have hsign : ((b.natAbs : Int) * c).sign = c.sign := by
    rw [Int.sign_mul, Int.sign_eq_one_of_pos (Int.natCast_pos.2 hpos), one_mul]
  have habs : ((b.natAbs : Int) * c).natAbs = b.natAbs * c.natAbs := by
    rw [Int.natAbs_mul, Int.natAbs_natCast]
  simp only [div?, ofWhole, hzero, if_false, pow_zero, mul_one, Nat.sub_self, hnum, habs,
    Nat.mul_mod_right, if_true]
  rw [ofQuotient?, hsign, habs, Rounding.halfEven_of_dvd hpos (Nat.dvd_mul_right _ _),
    Nat.mul_div_cancel_left _ hpos, Int.sign_mul_natAbs]

theorem isWhole_eq_true_iff {d : Decimal} :
    d.isWhole = true ↔ 10 ^ d.scale ∣ d.coefficient.natAbs := by
  rw [isWhole, beq_iff_eq, ← Int.dvd_iff_emod_eq_zero, ← Int.natAbs_dvd_natAbs, Int.natAbs_pow]
  rfl

theorem make?_eq_some {c : Int} {places : Nat} {d : Decimal} (h : make? c places = some d) :
    d.coefficient = c ∧ d.scale = places := by
  unfold make? at h
  split at h
  · obtain rfl := Option.some.inj h
    exact ⟨rfl, rfl⟩
  · cases h

theorem natAbs_sign_mul {num : Int} (hnum : num ≠ 0) (n : Nat) : (num.sign * n).natAbs = n := by
  rw [Int.natAbs_mul, Int.natAbs_sign_of_ne_zero hnum, one_mul, Int.natAbs_natCast]

theorem natAbs_sign_mul_le (num : Int) (n : Nat) : (num.sign * n).natAbs ≤ n := by
  by_cases hnum : num = 0
  · simp [hnum]
  · exact (natAbs_sign_mul hnum n).le

/-- A quotient has all its places, or one place more would not fit. -/
theorem ofQuotient?_eq_some {num : Int} {den places : Nat} (hplaces : places ≤ 28) {d : Decimal}
    (h : ofQuotient? num den places = some d) :
    d.coefficient = num.sign * Rounding.halfEven (num.natAbs * 10 ^ d.scale) den ∧
      (d.scale = places ∨
        d.scale < places ∧ limit ≤ Rounding.halfEven (num.natAbs * 10 ^ (d.scale + 1)) den) := by
  induction places with
  | zero =>
    obtain ⟨hcoefficient, hscale⟩ := make?_eq_some h
    rw [hscale, pow_zero, mul_one]
    exact ⟨hcoefficient, .inl rfl⟩
  | succ places ih =>
    rw [ofQuotient?] at h
    split at h
    · rename_i e hmake
      obtain rfl := Option.some.inj h
      obtain ⟨hcoefficient, hscale⟩ := make?_eq_some hmake
      rw [hscale]
      exact ⟨hcoefficient, .inl rfl⟩
    · rename_i hfull
      obtain ⟨hcoefficient, hscale⟩ := ih (by omega) h
      refine ⟨hcoefficient, .inr (hscale.elim (fun hscale => ?_) fun ⟨hlt, hlimit⟩ =>
        ⟨hlt.trans (Nat.lt_succ_self _), hlimit⟩)⟩
      rw [hscale]
      refine ⟨Nat.lt_succ_self _, ?_⟩
      by_contra hlt
      rw [make?, dif_pos ⟨(natAbs_sign_mul_le num _).trans_lt (not_le.1 hlt), hplaces⟩] at hfull
      cases hfull

theorem exists_ofQuotient?_eq {num : Int} {den : Nat}
    (hroom : Rounding.halfEven num.natAbs den < limit) (places : Nat) :
    ∃ d, ofQuotient? num den places = some d := by
  induction places with
  | zero => exact ⟨_, dif_pos ⟨(natAbs_sign_mul_le num _).trans_lt hroom, Nat.zero_le _⟩⟩
  | succ places ih =>
    rw [ofQuotient?]
    split
    · exact ⟨_, rfl⟩
    · exact ih

/-- A quotient that is not whole gets enough places, when what does not fit is finer than that. -/
theorem ofQuotient?_of_not_dvd {num : Int} {den : Nat} (hnum : num.natAbs ≤ 2 ^ 63 * den)
    (hden : 0 < den) (hpart : ¬den ∣ num.natAbs) {places : Nat} (hplaces : places ≤ 28)
    (hunit : den < 2 * 10 ^ places)
    (hfull : ∀ p, limit ≤ Rounding.halfEven (num.natAbs * 10 ^ (p + 1)) den → den < 2 * 10 ^ p) :
    ∃ d, ofQuotient? num den places = some d ∧ d.isWhole = false := by
  have hzero : num ≠ 0 := by
    rintro rfl
    exact hpart (Nat.dvd_zero _)
  have hroom : Rounding.halfEven num.natAbs den < limit :=
    (Rounding.halfEven_le hden hnum).trans_lt (by decide)
  obtain ⟨d, hd⟩ := exists_ofQuotient?_eq hroom places
  obtain ⟨hcoefficient, hscale⟩ := ofQuotient?_eq_some hplaces hd
  refine ⟨d, hd, ?_⟩
  rw [← Bool.not_eq_true, isWhole_eq_true_iff, hcoefficient, natAbs_sign_mul hzero]
  exact Rounding.not_dvd_halfEven hden hpart
    (hscale.elim (fun h => h ▸ hunit) fun h => hfull d.scale h.2)

/-- Places that hold zeros are dropped from a number, and the number stays the same. -/
theorem dropZeros_spec (places b : Nat) :
    (dropZeros places b).2 ≤ places ∧
      (dropZeros places b).1 * 10 ^ (places - (dropZeros places b).2) = b := by
  induction places generalizing b with
  | zero => simp [dropZeros]
  | succ places ih =>
    rw [dropZeros]
    split
    · rename_i hzero
      obtain ⟨hle, heq⟩ := ih (b / 10)
      refine ⟨by omega, ?_⟩
      rw [Nat.succ_sub hle, Nat.pow_succ, ← Nat.mul_assoc, heq]
      omega
    · simp

theorem trimZeros_spec (d : Decimal) : d.trimZeros.scale ≤ d.scale ∧
    d.trimZeros.coefficient * 10 ^ (d.scale - d.trimZeros.scale) = d.coefficient := by
  obtain ⟨hle, heq⟩ := dropZeros_spec d.scale d.coefficient.natAbs
  simp only [trimZeros]
  generalize (dropZeros d.scale d.coefficient.natAbs).1 = c at heq ⊢
  generalize (dropZeros d.scale d.coefficient.natAbs).2 = places at hle heq ⊢
  cases hmake : make? (d.coefficient.sign * c) places with
  | none => simp
  | some trimmed =>
    obtain ⟨hcoefficient, hscale⟩ := make?_eq_some hmake
    rw [Option.getD_some, hcoefficient, hscale]
    refine ⟨hle, ?_⟩
    calc d.coefficient.sign * c * 10 ^ (d.scale - places)
        = d.coefficient.sign * (c * 10 ^ (d.scale - places) : Nat) := by push_cast; ring
      _ = d.coefficient := by rw [heq, Int.sign_mul_natAbs]

theorem isWhole_trimZeros (d : Decimal) : d.trimZeros.isWhole = d.isWhole := by
  obtain ⟨hle, heq⟩ := trimZeros_spec d
  have hpower : 10 ^ d.scale = 10 ^ d.trimZeros.scale * 10 ^ (d.scale - d.trimZeros.scale) := by
    rw [← Nat.pow_add, Nat.add_sub_cancel' hle]
  have habs : d.coefficient.natAbs =
      d.trimZeros.coefficient.natAbs * 10 ^ (d.scale - d.trimZeros.scale) := by
    rw [← heq, Int.natAbs_mul, Int.natAbs_pow]
    rfl
  rw [Bool.eq_iff_iff, isWhole_eq_true_iff, isWhole_eq_true_iff, habs, hpower,
    Nat.mul_dvd_mul_iff_right (by positivity)]

/-- A quotient that is not whole keeps a fraction. -/
theorem div?_whole_of_fine (hzero : b ≠ 0) (hnum : a.natAbs ≤ 2 ^ 63 * b.natAbs)
    (hunit : b.natAbs < 2 * 10 ^ 28)
    (hfull : ∀ p, limit ≤ Rounding.halfEven (a.natAbs * 10 ^ (p + 1)) b.natAbs →
      b.natAbs < 2 * 10 ^ p) (hpart : ¬b ∣ a) :
    ∃ d, (ofWhole a ha).div? (ofWhole b hb) = some d ∧ d.isWhole = false := by
  have hpos : 0 < b.natAbs := Int.natAbs_pos.2 hzero
  have habs : (a * b.sign).natAbs = a.natAbs := by
    rw [Int.natAbs_mul, Int.natAbs_sign_of_ne_zero hzero, mul_one]
  have hpart' : ¬b.natAbs ∣ a.natAbs := by rwa [Int.natAbs_dvd_natAbs]
  rw [← habs] at hnum hfull
  obtain ⟨d, hd, hwhole⟩ := ofQuotient?_of_not_dvd hnum hpos (by rwa [habs]) le_rfl hunit hfull
  refine ⟨d.trimZeros, ?_, (isWhole_trimZeros d).trans hwhole⟩
  simp only [div?, ofWhole, hzero, if_false, pow_zero, mul_one, Nat.sub_self, habs]
  rw [if_neg (by rwa [← Nat.dvd_iff_mod_eq_zero]), hd]
  rfl

theorem div?_whole_of_not_dvd (hzero : b ≠ 0) (hhigh : a.natAbs ≤ 2 ^ 63)
    (hhigh' : b.natAbs ≤ 2 ^ 63) (hpart : ¬b ∣ a) :
    ∃ d, (ofWhole a ha).div? (ofWhole b hb) = some d ∧ d.isWhole = false := by
  have hpos : 0 < b.natAbs := Int.natAbs_pos.2 hzero
  refine div?_whole_of_fine hzero (hhigh.trans (Nat.le_mul_of_pos_right _ hpos)) (by omega)
    (fun p hlimit => ?_) hpart
  have hlow := @Rounding.two_mul_halfEven_le (a.natAbs * 10 ^ (p + 1)) _ hpos
  have hmul := Nat.mul_le_mul_right b.natAbs hlimit
  have hmul' := Nat.mul_le_mul_right (10 ^ (p + 1)) hhigh
  rw [Nat.pow_succ] at hlow hmul hmul'
  simp only [limit] at hmul
  omega

/-- A quotient in the range of 64 bits has room for nine places. -/
theorem div?_whole_of_not_dvd_of_small (hzero : b ≠ 0) (hnum : a.natAbs ≤ 2 ^ 63 * b.natAbs)
    (hsmall : b.natAbs < 2 * 10 ^ 9) (hpart : ¬b ∣ a) :
    ∃ d, (ofWhole a ha).div? (ofWhole b hb) = some d ∧ d.isWhole = false := by
  have hpos : 0 < b.natAbs := Int.natAbs_pos.2 hzero
  refine div?_whole_of_fine hzero hnum (by omega) (fun p hlimit => ?_) hpart
  have hquotient : Rounding.halfEven (a.natAbs * 10 ^ (p + 1)) b.natAbs ≤ 2 ^ 63 * 10 ^ (p + 1) :=
    Rounding.halfEven_le hpos (by
      rw [Nat.mul_right_comm]
      exact Nat.mul_le_mul_right _ hnum)
  have hplaces : 9 ≤ p := by
    by_contra hlt
    have hpower : 10 ^ (p + 1) ≤ 10 ^ 9 := Nat.pow_le_pow_right (by decide) (by omega)
    have hlimit' := hlimit.trans (hquotient.trans (Nat.mul_le_mul_left (2 ^ 63) hpower))
    simp only [limit] at hlimit'
    omega
  exact hsmall.trans_le (Nat.mul_le_mul_left 2 (Nat.pow_le_pow_right (by decide) hplaces))

end Decimal

end FormulaPipeline
