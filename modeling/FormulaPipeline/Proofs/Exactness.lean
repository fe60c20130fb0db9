import FormulaPipeline.Evaluation.Arithmetic
import FormulaPipeline.Proofs.Number.Decimals

/-!
# Arithmetic of whole numbers is exact

An operator on whole numbers of 64 bits gives the exact result where that is such a number too.
Every other exact result comes back as a finite float, so no layer ever gives a wrong whole number.
-/

namespace FormulaPipeline

/-- A value stands for an exact result: it is the whole number of 64 bits that the result is, or a
finite float when the result is none. -/
inductive StandsFor (exact : ℚ) : Value → Prop
  | int {n : Int64} (h : (n.toInt : ℚ) = exact) : StandsFor exact (.int n)
  | float {x : Binary64} (hnone : ∀ n : Int64, (n.toInt : ℚ) ≠ exact) (hx : x.isFinite = true) :
      StandsFor exact (.float x)

/-- The exact results of the arithmetic operators; the remainder is that of the quotient truncated
toward zero. -/
inductive BinaryOp.Exact (x y : ℤ) : BinaryOp → ℚ → Prop
  | add : Exact x y .add (x + y)
  | subtract : Exact x y .subtract (x - y)
  | multiply : Exact x y .multiply (x * y)
  | divide (hy : y ≠ 0) : Exact x y .divide (x / y)
  | modulo (hy : y ≠ 0) : Exact x y .modulo (x.tmod y)

theorem Numeric.standsFor_ofDecimal {n : Int} (h : n.natAbs < Decimal.limit) :
    StandsFor n (ofDecimal (.ofWhole n h)).toValue := by
  by_cases hrange : ∃ k : Int64, k.toInt = n
  · obtain ⟨k, hk⟩ := hrange
    rw [ofDecimal_ofWhole_eq_int_iff.2 hk]
    exact .int (by rw [hk])
  · rw [not_exists] at hrange
    rw [ofDecimal_ofWhole_of_large h hrange, ← Decimal.toBinary64_ofWhole h]
    exact .float (fun k => by exact_mod_cast hrange k) (Decimal.isFinite_toBinary64 _)

namespace Arithmetic

variable {k : Layers} {op : BinaryOp} {x y : Int64}

theorem apply_of_whole {n : Int64} (h : k.whole x y = some n) :
    k.apply op (.int x) (.int y) = .ok (.int n) := by
  simp [Layers.apply, Layers.whole?, h, Numeric.toValue]

/-- What is not whole in 64 bits is tried in decimals. -/
theorem decimal?_int : k.decimal? (.int x) (.int y) =
    (k.decimal (.ofWhole x.toInt (Decimal.natAbs_toInt_lt x))
      (.ofWhole y.toInt (Decimal.natAbs_toInt_lt y))).map .ofDecimal := by
  simp only [Layers.decimal?, Numeric.toDecimal?, Decimal.ofInt?_toInt]

theorem apply_of_decimal {d : Decimal} (hwhole : k.whole x y = none)
    (h : k.decimal (.ofWhole x.toInt (Decimal.natAbs_toInt_lt x))
      (.ofWhole y.toInt (Decimal.natAbs_toInt_lt y)) = some d) :
    k.apply op (.int x) (.int y) = .ok (Numeric.ofDecimal d).toValue := by
  simp [Layers.apply, Layers.whole?, hwhole, decimal?_int, h]

/-- A whole result that decimals have room for. -/
theorem standsFor_apply {n : Int} (hn : n.natAbs < Decimal.limit)
    (hwhole : ∀ r, k.whole x y = some r → r.toInt = n)
    (hdecimal : k.decimal (.ofWhole x.toInt (Decimal.natAbs_toInt_lt x))
      (.ofWhole y.toInt (Decimal.natAbs_toInt_lt y)) = Decimal.make? n 0) :
    ∃ v, k.apply op (.int x) (.int y) = .ok v ∧ StandsFor n v := by
  cases h : k.whole x y with
  | some r => exact ⟨.int r, apply_of_whole h, .int (by rw [hwhole r h])⟩
  | none =>
    rw [Decimal.make?_zero hn] at hdecimal
    exact ⟨_, apply_of_decimal h hdecimal, Numeric.standsFor_ofDecimal hn⟩

/-- A product of two numbers of 64 bits that is too large for decimals is a finite float. -/
theorem standsFor_large_product (hlarge : Decimal.limit ≤ (x.toInt * y.toInt).natAbs) :
    ∃ v, multiplication.apply op (.int x) (.int y) = .ok v ∧
      StandsFor ((x.toInt * y.toInt : ℤ) : ℚ) v := by
  have hnone : Integer.mul? x y = none := by
    rw [Integer.mul?, Integer.ofInt?_eq_none_iff]
    intro r hr
    have hbound := Decimal.natAbs_toInt_lt r
    rw [hr] at hbound
    omega
  have hdecimal : Decimal.make? (x.toInt * y.toInt) 0 = none := dif_neg (by omega)
  have hfactor : ∀ z : Int64, (Binary64.ofInt z.toInt).AtMost 63 := fun z =>
    Binary64.atMost_ofNat (by norm_num) (by norm_num) (by exact_mod_cast Integer.natAbs_toInt_le z)
  have hfinite : ((Binary64.ofInt x.toInt).mul (Binary64.ofInt y.toInt)).isFinite = true :=
    (Binary64.atMost_mul (hfactor x) (hfactor y) (by norm_num) (by norm_num)).isFinite
  refine ⟨.float ((Binary64.ofInt x.toInt).mul (Binary64.ofInt y.toInt)), ?_, .float ?_ hfinite⟩
  · simp [Layers.apply, Layers.whole?, decimal?_int, multiplication, hnone, Decimal.mul?_whole,
      hdecimal, Numeric.toFloat, hfinite]
  · intro r hr
    have hr' : r.toInt = x.toInt * y.toInt := by exact_mod_cast hr
    exact Integer.ofInt?_eq_none_iff.1 hnone r hr'

/-- Decimals have room for a quotient that is whole. -/
theorem standsFor_whole_quotient {c : ℤ} (hy : y.toInt ≠ 0) (hc : x.toInt = y.toInt * c) :
    ∃ v, division.apply op (.int x) (.int y) = .ok v ∧ StandsFor c v := by
  have hquotient : x.toInt.tdiv y.toInt = c := by rw [hc, Int.mul_tdiv_cancel_left _ hy]
  have hroom : c.natAbs < Decimal.limit := by
    rw [← hquotient, Int.natAbs_tdiv]
    exact (Nat.div_le_self _ _).trans_lt (Decimal.natAbs_toInt_lt x)
  refine standsFor_apply hroom (fun r hr => ?_) (Decimal.div?_whole_mul hy hc)
  simp only [division, Integer.exactDiv?] at hr
  split at hr
  · cases hr
  · rw [← hquotient, Integer.ofInt?_eq_some_iff.1 hr]

/-- A quotient that is not whole keeps a fraction in decimals, so that no layer takes it for a whole
number. -/
theorem standsFor_fractional_quotient (hy : y.toInt ≠ 0) (hpart : ¬y.toInt ∣ x.toInt) :
    ∃ v, division.apply op (.int x) (.int y) = .ok v ∧ StandsFor (x.toInt / y.toInt : ℚ) v := by
  have hwhole : division.whole x y = none :=
    if_pos (.inr fun h => hpart (Int.dvd_of_tmod_eq_zero h))
  obtain ⟨d, hd, hfraction⟩ := @Decimal.div?_whole_of_not_dvd _ _
    (Decimal.natAbs_toInt_lt x) (Decimal.natAbs_toInt_lt y) hy (Integer.natAbs_toInt_le x)
    (Integer.natAbs_toInt_le y) hpart
  refine ⟨_, apply_of_decimal hwhole hd, ?_⟩
  rw [Numeric.ofDecimal_of_part hfraction]
  refine .float (fun n hn => hpart ⟨n.toInt, ?_⟩) (Decimal.isFinite_toBinary64 d)
  have hy' : (y.toInt : ℚ) ≠ 0 := by exact_mod_cast hy
  rw [eq_div_iff hy'] at hn
  rw [mul_comm]
  exact_mod_cast hn.symm

theorem standsFor_quotient (hy : y.toInt ≠ 0) :
    ∃ v, division.apply op (.int x) (.int y) = .ok v ∧ StandsFor (x.toInt / y.toInt : ℚ) v := by
  by_cases hdvd : y.toInt ∣ x.toInt
  · obtain ⟨c, hc⟩ := hdvd
    have hy' : (y.toInt : ℚ) ≠ 0 := by exact_mod_cast hy
    have hquotient : (x.toInt / y.toInt : ℚ) = c := by
      rw [hc, Int.cast_mul, mul_div_cancel_left₀ _ hy']
    rw [hquotient]
    exact standsFor_whole_quotient hy hc
  · exact standsFor_fractional_quotient hy hdvd

theorem standsFor_remainder (hy : y.toInt ≠ 0) :
    ∃ v, remainder.apply op (.int x) (.int y) = .ok v ∧ StandsFor (x.toInt.tmod y.toInt : ℤ) v := by
  have hroom : (x.toInt.tmod y.toInt).natAbs < Decimal.limit := by
    rw [Int.natAbs_tmod]
    exact (Nat.mod_le _ _).trans_lt (Decimal.natAbs_toInt_lt x)
  refine standsFor_apply hroom (fun r hr => ?_) (Decimal.rem?_whole hy)
  simp only [remainder, Integer.rem?] at hr
  split at hr
  · cases hr
  · exact Integer.ofInt?_eq_some_iff.1 hr

theorem standsFor_sum :
    ∃ v, addition.apply op (.int x) (.int y) = .ok v ∧ StandsFor (x.toInt + y.toInt : ℤ) v := by
  have hx := Integer.natAbs_toInt_le x
  have hy := Integer.natAbs_toInt_le y
  have hroom : (x.toInt + y.toInt).natAbs < Decimal.limit := by
    have hlimit : 2 ^ 64 < Decimal.limit := by decide
    omega
  exact standsFor_apply hroom (fun r hr => Integer.ofInt?_eq_some_iff.1 hr) Decimal.add?_whole

theorem standsFor_difference :
    ∃ v, subtraction.apply op (.int x) (.int y) = .ok v ∧ StandsFor (x.toInt - y.toInt : ℤ) v := by
  have hx := Integer.natAbs_toInt_le x
  have hy := Integer.natAbs_toInt_le y
  have hroom : (x.toInt - y.toInt).natAbs < Decimal.limit := by
    have hlimit : 2 ^ 64 < Decimal.limit := by decide
    omega
  exact standsFor_apply hroom (fun r hr => Integer.ofInt?_eq_some_iff.1 hr) Decimal.sub?_whole

theorem standsFor_product :
    ∃ v, multiplication.apply op (.int x) (.int y) = .ok v ∧
      StandsFor (x.toInt * y.toInt : ℤ) v := by
  by_cases hroom : (x.toInt * y.toInt).natAbs < Decimal.limit
  · exact standsFor_apply hroom (fun r hr => Integer.ofInt?_eq_some_iff.1 hr) Decimal.mul?_whole
  · exact standsFor_large_product (by omega)

/-- A division is refused for a divisor of zero alone. -/
theorem computeNonzero_int :
    computeNonzero k op (.int x) (.int y) =
      if y = 0 then .error .divisionByZero else k.apply op (.int x) (.int y) := by
  have hzero : (Numeric.int y).toFloat.isZero = true ↔ y = 0 := by
    rw [Numeric.toFloat, Binary64.isZero_ofInt_iff, ← Int64.toInt_zero, Int64.toInt_inj]
  have hoperands : operands op (.int x) (.int y) = .ok (.int x, .int y) := rfl
  simp only [computeNonzero, hoperands, bind, Except.bind, hzero, throw, throwThe,
    MonadExceptOf.throw]

theorem computeNonzero_int_eq_error_iff {exact : ℚ}
    (h : y.toInt ≠ 0 → ∃ v, k.apply op (.int x) (.int y) = .ok v ∧ StandsFor exact v) :
    computeNonzero k op (.int x) (.int y) = .error .divisionByZero ↔ y = 0 := by
  rw [computeNonzero_int]
  split
  · simp [*]
  · rename_i hy
    obtain ⟨v, hv, -⟩ := h fun hzero => hy (Int64.toInt_inj.1 hzero)
    simp [hv, hy]

end Arithmetic

open Arithmetic in
/-- Arithmetic of whole numbers of 64 bits is exact. A division fails for a divisor of zero alone;
any other result is the exact one where that is a whole number of 64 bits, and else a finite
float. -/
theorem BinaryOp.apply_int_exact (x y : Int64) :
    (∀ op ∈ [BinaryOp.divide, .modulo],
      op.apply (.int x) (.int y) = .error .divisionByZero ↔ y = 0) ∧
    ∀ op exact, BinaryOp.Exact x.toInt y.toInt op exact →
      ∃ v, op.apply (.int x) (.int y) = .ok v ∧ StandsFor exact v := by
  have hdivide : ∀ k : Layers, ∀ op, y.toInt ≠ 0 →
      computeNonzero k op (.int x) (.int y) = k.apply op (.int x) (.int y) := by
    intro k op hy
    rw [computeNonzero_int, if_neg fun h => hy (by rw [h, Int64.toInt_zero])]
  constructor
  · intro op hop
    simp only [List.mem_cons, List.not_mem_nil, or_false] at hop
    rcases hop with rfl | rfl
    · exact computeNonzero_int_eq_error_iff standsFor_quotient
    · exact computeNonzero_int_eq_error_iff standsFor_remainder
  · intro op exact hexact
    cases hexact with
    | add => exact_mod_cast standsFor_sum
    | subtract => exact_mod_cast standsFor_difference
    | multiply => exact_mod_cast standsFor_product
    | divide hy =>
      simp only [BinaryOp.apply, hdivide _ _ hy]
      exact standsFor_quotient hy
    | modulo hy =>
      simp only [BinaryOp.apply, hdivide _ _ hy]
      exact standsFor_remainder hy

/-- At the least number of 64 bits, where the quotient by `-1` leaves the range and the remainder
does not. -/
theorem BinaryOp.apply_int_exact_at_least :
    BinaryOp.divide.apply (.int Int64.minValue) (.int 0) = .error .divisionByZero ∧
    (∃ v, BinaryOp.divide.apply (.int Int64.minValue) (.int (-1)) = .ok v ∧ StandsFor (2 ^ 63) v) ∧
    ∃ v, BinaryOp.modulo.apply (.int Int64.minValue) (.int (-1)) = .ok v ∧ StandsFor 0 v := by
  have hleast : Int64.minValue.toInt = -2 ^ 63 := by decide
  have hminus : (-1 : Int64).toInt = -1 := by decide
  have hquotient : BinaryOp.Exact Int64.minValue.toInt (-1 : Int64).toInt .divide (2 ^ 63) := by
    have h := BinaryOp.Exact.divide (x := Int64.minValue.toInt) (y := (-1 : Int64).toInt)
      (by decide)
    have hvalue : ((-2 ^ 63 : ℤ) / (-1 : ℤ) : ℚ) = 2 ^ 63 := by norm_num
    rw [hleast, hminus] at h ⊢
    rwa [← hvalue]
  have hremainder : BinaryOp.Exact Int64.minValue.toInt (-1 : Int64).toInt .modulo 0 := by
    have h := BinaryOp.Exact.modulo (x := Int64.minValue.toInt) (y := (-1 : Int64).toInt)
      (by decide)
    simpa [hleast, hminus] using h
  exact ⟨((apply_int_exact Int64.minValue 0).1 .divide (by decide)).2 rfl,
    (apply_int_exact Int64.minValue (-1)).2 .divide _ hquotient,
    (apply_int_exact Int64.minValue (-1)).2 .modulo _ hremainder⟩

end FormulaPipeline
