import FormulaPipeline.Evaluation.Arithmetic
import FormulaPipeline.Proofs.Number.Decimals

/-!
# Products and quotients that vanish

A product or a quotient of numbers that have decimals is computed in decimals, and these end at 28
places. A result of at most half of the smallest decimal becomes zero there, and floats are not
tried: that decimals had no room is noticed for large results only. No other product or quotient
vanishes.
-/

namespace FormulaPipeline

namespace Numeric

def toRat : Numeric → ℚ
  | int n => n.toInt
  | float x => x.toRat

/-- A whole number other than zero, or a finite float other than zero. -/
def Nonzero : Numeric → Prop
  | int n => n ≠ 0
  | float x => x.isFinite = true ∧ x.isZero = false

theorem nonzero_ofDecimal {d : Decimal} (h : d.coefficient ≠ 0) : (ofDecimal d).Nonzero := by
  unfold ofDecimal
  split
  · rename_i n hn
    split at hn
    · rename_i hwhole
      rw [Integer.ofInt?_eq_some_iff, Decimal.truncate] at hn
      have hdvd : (10 : ℤ) ^ d.scale ∣ d.coefficient := by
        rw [Decimal.isWhole, beq_iff_eq] at hwhole
        exact Int.dvd_of_emod_eq_zero hwhole
      rintro rfl
      rw [← Int.tdiv_mul_cancel hdvd, ← hn, Int64.toInt_zero, zero_mul] at h
      exact h rfl
    · cases hn
  · have hfinite := Decimal.isFinite_toBinary64 d
    refine ⟨hfinite, ?_⟩
    rw [← Bool.not_eq_true, Binary64.isZero_iff hfinite]
    exact Decimal.toRat_toBinary64_ne_zero h

theorem ofDecimal_of_zero {d : Decimal} (h : d.coefficient = 0) : ofDecimal d = int 0 := by
  have hwhole : d.isWhole = true := by simp [Decimal.isWhole, h]
  have htruncate : d.truncate = 0 := by simp [Decimal.truncate, h]
  rw [ofDecimal, if_pos hwhole, htruncate]
  rfl

/-- The float of a number is at most twice as large and at least half as large. -/
theorem abs_toFloat_bounds (a : Numeric) :
    |a.toFloat.toRat| ≤ 2 * |a.toRat| ∧ |a.toRat| ≤ 2 * |a.toFloat.toRat| := by
  cases a with
  | float x =>
    have hnonneg := abs_nonneg x.toRat
    simp only [toFloat, toRat]
    constructor <;> linarith
  | int n =>
    exact Binary64.abs_toRat_ofInt_bounds ((Integer.natAbs_toInt_le n).trans (by norm_num))

end Numeric

namespace BinaryOp

inductive Scales (x y : ℚ) : BinaryOp → ℚ → Prop
  | multiply : Scales x y .multiply (x * y)
  | divide (hy : y ≠ 0) : Scales x y .divide (x / y)

theorem Scales.unique {op : BinaryOp} {x y v w : ℚ} (hv : op.Scales x y v) (hw : op.Scales x y w) :
    v = w := by
  cases hv <;> cases hw <;> rfl

/-- Both numbers have decimals, and the exact result of these is at most half of the smallest
decimal. -/
def Underflows (op : BinaryOp) (a b : Numeric) : Prop :=
  ∃ x y v, a.toDecimal? = some x ∧ b.toDecimal? = some y ∧ op.Scales x.toRat y.toRat v ∧
    |v| ≤ Decimal.halfUnit

end BinaryOp

namespace Arithmetic

open BinaryOp

/-- The layers of an operation compute its exact results: whole results are exact, decimals are
rounded to zero where they vanish and have room there, and floats are nearest and are not refused
up to `2 ^ 1023`. -/
structure Layers.Computes (k : Layers) (op : BinaryOp) : Prop where
  whole : ∀ {x y r : Int64}, k.whole x y = some r → op.Scales x.toInt y.toInt r.toInt
  decimal : ∀ {x y d : Decimal}, k.decimal x y = some d →
    (d.coefficient = 0 ↔ ∃ v, op.Scales x.toRat y.toRat v ∧ |v| ≤ Decimal.halfUnit)
  exists_decimal : ∀ {x y : Decimal} {v : ℚ}, op.Scales x.toRat y.toRat v →
    |v| ≤ Decimal.halfUnit → ∃ d, k.decimal x y = some d
  float : ∀ {x y : Binary64} {v : ℚ}, x.isFinite = true → y.isFinite = true →
    op.Scales x.toRat y.toRat v → (k.float x y).isFinite = true → (k.float x y).IsNearest v
  isFinite : ∀ {x y : Binary64} {v : ℚ}, x.isFinite = true → y.isFinite = true →
    op.Scales x.toRat y.toRat v → |v| ≤ 2 ^ (1023 : ℤ) → (k.float x y).isFinite = true

theorem multiplication_computes : multiplication.Computes .multiply where
  whole {x y r} h := by
    have hvalue : (r.toInt : ℚ) = x.toInt * y.toInt := by
      exact_mod_cast Integer.ofInt?_eq_some_iff.1 h
    rw [hvalue]
    exact .multiply
  decimal {x y d} h := by
    rw [Decimal.mul?_eq_zero_iff h]
    constructor
    · exact fun hle => ⟨_, .multiply, hle⟩
    · rintro ⟨v, hv, hle⟩
      cases hv
      exact hle
  exists_decimal {x y v} hv hle := by
    cases hv with
    | multiply => exact Decimal.exists_mul?_of_le_halfUnit hle
  float {x y v} hx hy hv hfinite := by
    cases hv with
    | multiply => exact Binary64.isNearest_mul hx hy hfinite
  isFinite {x y v} hx hy hv hle := by
    cases hv with
    | multiply => exact Binary64.isFinite_mul hx hy hle

theorem division_computes : division.Computes .divide where
  whole {x y r} h := by
    simp only [division, Integer.exactDiv?] at h
    split at h
    · cases h
    · rename_i hdvd
      rw [not_or, not_not] at hdvd
      rw [Integer.ofInt?_eq_some_iff] at h
      have hy : y.toInt ≠ 0 := fun hy => hdvd.1 (Int64.toInt_inj.1 hy)
      have hmul : (x.toInt : ℚ) = r.toInt * y.toInt := by
        rw [h]
        exact_mod_cast (Int.tdiv_mul_cancel (Int.dvd_of_tmod_eq_zero hdvd.2)).symm
      have hy' : (y.toInt : ℚ) ≠ 0 := by exact_mod_cast hy
      rw [← (div_eq_iff hy').2 hmul]
      exact .divide hy'
  decimal {x y d} h := by
    have hy : y.coefficient ≠ 0 := by
      intro hzero
      simp [division, Decimal.div?, hzero] at h
    rw [Decimal.div?_eq_zero_iff hy h]
    constructor
    · exact fun hle => ⟨_, .divide (mt Decimal.toRat_eq_zero_iff.1 hy), hle⟩
    · rintro ⟨v, hv, hle⟩
      cases hv
      exact hle
  exists_decimal {x y v} hv hle := by
    cases hv with
    | divide hy => exact Decimal.exists_div?_of_le_halfUnit (mt Decimal.toRat_eq_zero_iff.2 hy) hle
  float {x y v} hx hy hv hfinite := by
    cases hv with
    | divide hzero => exact Binary64.isNearest_div hx hy hzero hfinite
  isFinite {x y v} hx hy hv hle := by
    cases hv with
    | divide hzero => exact Binary64.isFinite_div hx hy hzero hle

variable {k : Layers} {op : BinaryOp} {a b : Numeric}

theorem underflows_iff {x y : Decimal} (hx : a.toDecimal? = some x) (hy : b.toDecimal? = some y) :
    op.Underflows a b ↔ ∃ v, op.Scales x.toRat y.toRat v ∧ |v| ≤ Decimal.halfUnit := by
  constructor
  · rintro ⟨x', y', v, hx', hy', hv, hle⟩
    obtain rfl := Option.some.inj (hx.symm.trans hx')
    obtain rfl := Option.some.inj (hy.symm.trans hy')
    exact ⟨v, hv, hle⟩
  · rintro ⟨v, hv, hle⟩
    exact ⟨x, y, v, hx, hy, hv, hle⟩

theorem halfUnit_lt_int {x y : Int64} {v : ℚ} (hv : op.Scales x.toInt y.toInt v) (hne : v ≠ 0) :
    Decimal.halfUnit < |v| := by
  have hunit : Decimal.halfUnit < 1 / 2 ^ 63 := by norm_num [Decimal.halfUnit]
  refine hunit.trans_le ?_
  cases hv with
  | multiply =>
    have hone : 1 ≤ |x.toInt * y.toInt| := Int.one_le_abs (by exact_mod_cast hne)
    have hone' : (1 : ℚ) ≤ |(x.toInt : ℚ) * y.toInt| := by exact_mod_cast hone
    exact le_trans (by norm_num) hone'
  | divide hy =>
    have hx : x.toInt ≠ 0 := by
      intro hx
      rw [hx, Int.cast_zero, zero_div] at hne
      exact hne rfl
    have hone : (1 : ℚ) ≤ |(x.toInt : ℚ)| := by exact_mod_cast Int.one_le_abs hx
    have hbits : |(y.toInt : ℚ)| ≤ 2 ^ 63 := by
      rw [Binary64.abs_cast_int]
      exact_mod_cast Integer.natAbs_toInt_le y
    rw [abs_div]
    exact div_le_div₀ (abs_nonneg _) hone (abs_pos.2 hy) hbits

theorem not_underflows_int {x y : Int64} {v : ℚ} (hv : op.Scales x.toInt y.toInt v) (hne : v ≠ 0) :
    ¬op.Underflows (.int x) (.int y) := by
  have hdecimal : ∀ n : Int64, (Numeric.int n).toDecimal? = some _ := Decimal.ofInt?_toInt
  rw [underflows_iff (hdecimal x) (hdecimal y)]
  rintro ⟨w, hw, hle⟩
  rw [Decimal.toRat_ofWhole, Decimal.toRat_ofWhole] at hw
  rw [hw.unique hv] at hle
  exact (halfUnit_lt_int hv hne).not_ge hle

theorem whole?_eq_some {r : Numeric} (h : k.whole? a b = some r) :
    ∃ x y n, a = .int x ∧ b = .int y ∧ r = .int n ∧ k.whole x y = some n := by
  unfold Layers.whole? at h
  split at h
  · rename_i x y
    obtain ⟨n, hn, rfl⟩ := Option.map_eq_some_iff.1 h
    exact ⟨x, y, n, rfl, rfl, rfl, hn⟩
  · cases h

theorem decimal?_eq_some {r : Numeric} (h : k.decimal? a b = some r) :
    ∃ x y d, a.toDecimal? = some x ∧ b.toDecimal? = some y ∧ k.decimal x y = some d ∧
      r = .ofDecimal d := by
  unfold Layers.decimal? at h
  split at h
  · rename_i x y hx hy
    obtain ⟨d, hd, rfl⟩ := Option.map_eq_some_iff.1 h
    exact ⟨x, y, d, hx, hy, hd, rfl⟩
  · cases h

/-- The exact result that the float layer sees, of operands that are rounded to floats. -/
theorem exists_scales_toFloat {exact : ℚ} (hexact : op.Scales a.toRat b.toRat exact) :
    ∃ v, op.Scales a.toFloat.toRat b.toFloat.toRat v ∧ |exact| ≤ 4 * |v| ∧ |v| ≤ 4 * |exact| := by
  obtain ⟨ha', ha⟩ := a.abs_toFloat_bounds
  obtain ⟨hb', hb⟩ := b.abs_toFloat_bounds
  cases hexact with
  | multiply =>
    have hlow := mul_le_mul ha hb (abs_nonneg _) (by positivity)
    have hhigh := mul_le_mul ha' hb' (abs_nonneg _) (by positivity)
    refine ⟨_, .multiply, ?_, ?_⟩ <;> rw [abs_mul, abs_mul] <;> linarith
  | divide hy =>
    have hpos := abs_pos.2 hy
    have hpos' : 0 < |b.toFloat.toRat| := by linarith
    refine ⟨_, .divide (abs_pos.1 hpos'), ?_, ?_⟩ <;> rw [abs_div, abs_div]
    · calc |a.toRat| / |b.toRat| ≤ 2 * |a.toFloat.toRat| / (|b.toFloat.toRat| / 2) :=
            div_le_div₀ (by positivity) ha (by positivity) (by linarith)
        _ = 4 * (|a.toFloat.toRat| / |b.toFloat.toRat|) := by
            field_simp
            ring
    · calc |a.toFloat.toRat| / |b.toFloat.toRat| ≤ 2 * |a.toRat| / (|b.toRat| / 2) :=
            div_le_div₀ (by positivity) ha' (by positivity) (by linarith)
        _ = 4 * (|a.toRat| / |b.toRat|) := by
            field_simp
            ring

theorem two_zpow_le_ten_pow : (2 : ℚ) ^ (-1022 : ℤ) ≤ 1 / 10 ^ 300 / 4 := by
  have hten : (10 : ℚ) ^ 300 ≤ 2 ^ (1000 : ℤ) :=
    calc (10 : ℚ) ^ 300 = (10 ^ 3) ^ 100 := by rw [← pow_mul]
      _ ≤ (2 ^ 10) ^ 100 := pow_le_pow_left₀ (by norm_num) (by norm_num) 100
      _ = 2 ^ (1000 : ℤ) := by rw [← pow_mul, ← zpow_natCast]; rfl
  rw [div_div, le_div_iff₀ (by positivity)]
  calc (2 : ℚ) ^ (-1022 : ℤ) * (10 ^ 300 * 4) ≤ 2 ^ (-1022 : ℤ) * (2 ^ (1000 : ℤ) * 2 ^ (2 : ℤ)) :=
        mul_le_mul_of_nonneg_left (mul_le_mul hten (by norm_num) (by norm_num) (by positivity))
          (by positivity)
    _ = 2 ^ (-20 : ℤ) := by rw [← zpow_add₀ two_ne_zero, ← zpow_add₀ two_ne_zero]; rfl
    _ ≤ 1 := by norm_num

theorem float_nonzero {exact : ℚ} (hk : k.Computes op) (ha : a.toFloat.isFinite = true)
    (hb : b.toFloat.isFinite = true) (hexact : op.Scales a.toRat b.toRat exact)
    (hlarge : 1 / 10 ^ 300 ≤ |exact|) (hfinite : (k.float a.toFloat b.toFloat).isFinite = true) :
    (Numeric.float (k.float a.toFloat b.toFloat)).Nonzero := by
  obtain ⟨v, hv, hle, -⟩ := exists_scales_toFloat hexact
  have hleast : (2 : ℚ) ^ (-1022 : ℤ) ≤ |v| := by
    refine two_zpow_le_ten_pow.trans ?_
    rw [div_le_iff₀ (by norm_num)]
    exact hlarge.trans (hle.trans_eq (mul_comm _ _))
  have hresult := (hk.float ha hb hv hfinite).two_zpow_le_abs (by decide) (by decide) hleast
  refine ⟨hfinite, ?_⟩
  rw [← Bool.not_eq_true, Binary64.isZero_iff hfinite]
  exact abs_pos.1 ((Binary64.two_zpow_pos _).trans_le hresult)

theorem float_isFinite {exact : ℚ} (hk : k.Computes op) (ha : a.toFloat.isFinite = true)
    (hb : b.toFloat.isFinite = true) (hexact : op.Scales a.toRat b.toRat exact)
    (hle : |exact| ≤ 2 ^ (1021 : ℤ)) : (k.float a.toFloat b.toFloat).isFinite = true := by
  obtain ⟨v, hv, -, hbound⟩ := exists_scales_toFloat hexact
  refine hk.isFinite ha hb hv (hbound.trans ?_)
  calc 4 * |exact| ≤ 2 ^ (2 : ℤ) * 2 ^ (1021 : ℤ) :=
        mul_le_mul (by norm_num) hle (abs_nonneg _) (by norm_num)
    _ = 2 ^ (1023 : ℤ) := by rw [← zpow_add₀ two_ne_zero]; rfl

theorem Layers.Computes.apply_spec {exact : ℚ} (hk : k.Computes op) (ha : a.toFloat.isFinite = true)
    (hb : b.toFloat.isFinite = true) (hexact : op.Scales a.toRat b.toRat exact)
    (hlarge : 1 / 10 ^ 300 ≤ |exact|) :
    (op.Underflows a b → k.apply op a b = .ok (.int 0)) ∧
    (¬op.Underflows a b → (∃ r : Numeric, k.apply op a b = .ok r.toValue ∧ r.Nonzero) ∨
      2 ^ (1021 : ℤ) < |exact| ∧
        k.apply op a b = .error (.invalidArgument (.outOfRange a.toFloat op b.toFloat))) := by
  have hne : exact ≠ 0 := abs_pos.1 (lt_of_lt_of_le (by norm_num) hlarge)
  cases hwhole : k.whole? a b with
  | some r =>
    have happly : k.apply op a b = .ok r.toValue := by simp [Layers.apply, hwhole]
    obtain ⟨x, y, n, rfl, rfl, rfl, hn⟩ := whole?_eq_some hwhole
    have hn' : exact = n.toInt := hexact.unique (hk.whole hn)
    refine ⟨fun h => (not_underflows_int hexact hne h).elim, fun _ => .inl ⟨_, happly, ?_⟩⟩
    rintro rfl
    exact hne (by rw [hn', Int64.toInt_zero, Int.cast_zero])
  | none =>
    cases hdecimal : k.decimal? a b with
    | some r =>
      have happly : k.apply op a b = .ok r.toValue := by simp [Layers.apply, hwhole, hdecimal]
      obtain ⟨x, y, d, hx, hy, hd, rfl⟩ := decimal?_eq_some hdecimal
      rw [underflows_iff hx hy, ← hk.decimal hd]
      refine ⟨fun h => ?_, fun h => .inl ⟨_, happly, Numeric.nonzero_ofDecimal h⟩⟩
      rw [happly, Numeric.ofDecimal_of_zero h]
      rfl
    | none =>
      refine ⟨fun ⟨x, y, v, hx, hy, hv, hle⟩ => ?_, fun _ => ?_⟩
      · obtain ⟨d, hd⟩ := hk.exists_decimal hv hle
        simp [Layers.decimal?, hx, hy, hd] at hdecimal
      · simp only [Layers.apply, hwhole, hdecimal, Option.or_none]
        split
        · rename_i hfinite
          exact .inl ⟨_, rfl, float_nonzero hk ha hb hexact hlarge hfinite⟩
        · rename_i hinfinite
          refine .inr ⟨?_, rfl⟩
          by_contra hle
          exact hinfinite (float_isFinite hk ha hb hexact (not_lt.1 hle))

theorem operands_toValue (ha : a.toFloat.isFinite = true) (hb : b.toFloat.isFinite = true) :
    operands op a.toValue b.toValue = .ok (a, b) := by
  have hoperand : ∀ c : Numeric, c.toFloat.isFinite = true → operand op c.toValue = .ok c := by
    intro c hc
    cases c with
    | int n => rfl
    | float x =>
      rw [Numeric.toFloat] at hc
      simp [Numeric.toValue, operand, Value.toNumeric?, hc]
  simp [operands, hoperand a ha, hoperand b hb, bind, Except.bind, pure, Except.pure]

end Arithmetic

open Arithmetic

/-- A product or a quotient of finite numbers, of magnitude at least `10 ^ -300`, is zero if it
vanishes in decimals. In no other case is it zero: then it is another number, or it is refused for
being larger than `2 ^ 1021`. -/
theorem BinaryOp.apply_zero_iff_underflows {op : BinaryOp} {a b : Numeric} {exact : ℚ}
    (ha : a.toFloat.isFinite = true) (hb : b.toFloat.isFinite = true)
    (hexact : op.Scales a.toRat b.toRat exact) (hlarge : 1 / 10 ^ 300 ≤ |exact|) :
    (op.Underflows a b → op.apply a.toValue b.toValue = .ok (.int 0)) ∧
    (¬op.Underflows a b →
      (∃ r : Numeric, op.apply a.toValue b.toValue = .ok r.toValue ∧ r.Nonzero) ∨
      2 ^ (1021 : ℤ) < |exact| ∧ op.apply a.toValue b.toValue =
        .error (.invalidArgument (.outOfRange a.toFloat op b.toFloat))) := by
  cases hexact with
  | multiply =>
    have happly : multiply.apply a.toValue b.toValue = multiplication.apply .multiply a b := by
      simp [BinaryOp.apply, compute, operands_toValue ha hb, bind, Except.bind]
    rw [happly]
    exact multiplication_computes.apply_spec ha hb .multiply hlarge
  | divide hy =>
    have hzero : b.toFloat.isZero = false := by
      rw [← Bool.not_eq_true, Binary64.isZero_iff hb]
      intro hzero
      have hbound := b.abs_toFloat_bounds.2
      rw [hzero, abs_zero, mul_zero] at hbound
      exact hy (abs_nonpos_iff.1 hbound)
    have happly : divide.apply a.toValue b.toValue = division.apply .divide a b := by
      simp [BinaryOp.apply, computeNonzero, operands_toValue ha hb, bind, Except.bind, hzero]
    rw [happly]
    exact division_computes.apply_spec ha hb (.divide hy) hlarge

theorem ten_pow_le_two_zpow : 1 / (10 : ℚ) ^ 300 ≤ 2 ^ (-900 : ℤ) := by
  have hpower : (2 : ℚ) ^ (900 : ℤ) = (2 ^ 3) ^ 300 := by
    rw [← pow_mul, ← zpow_natCast]
    rfl
  rw [zpow_neg, hpower, one_div]
  exact inv_anti₀ (by positivity) (pow_le_pow_left₀ (by norm_num) (by norm_num) 300)

/-- A third has a decimal that is not zero. -/
theorem BinaryOp.apply_zero_iff_underflows_of_third :
    (1 / 10 ^ 300 : ℚ) ≤ |1 / 3| ∧
    ∃ r : Numeric, BinaryOp.divide.apply (.int 1) (.int 3) = .ok r.toValue ∧ r.Nonzero := by
  have hlarge : (1 / 10 ^ 300 : ℚ) ≤ |1 / 3| :=
    ten_pow_le_two_zpow.trans ((Binary64.two_zpow_le_iff.2 (by decide : (-900 : ℤ) ≤ -2)).trans
      (by norm_num))
  have hsmall : ¬2 ^ (1021 : ℤ) < |(1 / 3 : ℚ)| := by
    rw [not_lt]
    exact le_trans (by norm_num) (Binary64.two_zpow_le_iff.2 (by decide : (0 : ℤ) ≤ 1021))
  have hfinite : ∀ n : Int64, (Numeric.int n).toFloat.isFinite = true := fun n =>
    (Binary64.isNearest_toInt n).isFinite
  have hexact : BinaryOp.Scales (1 : Int64).toInt (3 : Int64).toInt .divide (1 / 3) := by
    have hone : (1 : Int64).toInt = 1 := by decide
    have hthree : (3 : Int64).toInt = 3 := by decide
    rw [hone, hthree]
    exact_mod_cast Scales.divide (x := 1) (y := 3) (by norm_num)
  have hresult := apply_zero_iff_underflows (hfinite 1) (hfinite 3) hexact hlarge
  exact ⟨hlarge, (hresult.2 (not_underflows_int hexact (by norm_num))).resolve_right
    fun h => hsmall h.1⟩

/-- The square of the float nearest to `10 ^ -20` vanishes, and floats hold it. -/
theorem BinaryOp.square_vanishes :
    let tiny := Binary64.finite false 6646139978924579 (-119) (by decide)
    1 / 10 ^ 300 ≤ |tiny.toRat * tiny.toRat| ∧ (tiny.mul tiny).isZero = false ∧
      BinaryOp.multiply.apply (.float tiny) (.float tiny) = .ok (.int 0) := by
  intro tiny
  refine ⟨?_, by decide +kernel, by rfl⟩
  have htiny : (2 : ℚ) ^ (-67 : ℤ) ≤ |tiny.toRat| := by
    rw [Binary64.abs_toRat]
    norm_num
  rw [abs_mul]
  calc (1 : ℚ) / 10 ^ 300 ≤ 2 ^ (-900 : ℤ) := ten_pow_le_two_zpow
    _ ≤ 2 ^ (-134 : ℤ) := Binary64.two_zpow_le_iff.2 (by decide)
    _ = 2 ^ (-67 : ℤ) * 2 ^ (-67 : ℤ) := by rw [← zpow_add₀ two_ne_zero]; rfl
    _ ≤ |tiny.toRat| * |tiny.toRat| := mul_le_mul htiny htiny (by positivity) (abs_nonneg _)

end FormulaPipeline
