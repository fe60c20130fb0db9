import FormulaPipeline.Proofs.Evaluation.Reduction
import FormulaPipeline.Proofs.Number.Decimals

/-!
# Sums and means of whole numbers

Decimals have room for every partial sum of fewer than `2 ^ 32` whole numbers of 64 bits, so a sum
is exact and does not depend on the order. A mean is taken of the sum as a value: a sum out of the
range of 64 bits has become a float by then, and a whole mean is exact as long as this float still
is the sum.
-/

namespace FormulaPipeline

/-- A value shows a whole number: as itself in the range of 64 bits, and else as a nearest float. -/
inductive ShownAs (n : ℤ) : Value → Prop
  | int {k : Int64} (h : k.toInt = n) : ShownAs n (.int k)
  | float {x : Binary64} (hnone : ∀ k : Int64, k.toInt ≠ n) (h : x.IsNearest n) :
      ShownAs n (.float x)

/-- A value can be equal to the whole number. -/
def Representable (n : ℤ) : Prop :=
  (∃ k : Int64, k.toInt = n) ∨ ∃ x : Binary64, x.isFinite = true ∧ x.toRat = n

theorem two_pow_le_natAbs {n : ℤ} (h : ∀ k : Int64, k.toInt ≠ n) : 2 ^ 63 ≤ n.natAbs := by
  by_contra hlt
  exact h _ (Int64.toInt_ofInt_of_le (n := n) (by omega) (by omega))

theorem shownAs_ofDecimal {n : ℤ} (h : n.natAbs < Decimal.limit) :
    ShownAs n (Numeric.ofDecimal (.ofWhole n h)).toValue := by
  by_cases hrange : ∃ k : Int64, k.toInt = n
  · obtain ⟨k, hk⟩ := hrange
    rw [Numeric.ofDecimal_ofWhole_eq_int_iff.2 hk]
    exact .int hk
  · rw [not_exists] at hrange
    rw [Numeric.ofDecimal_ofWhole_of_large h hrange]
    exact .float hrange (Binary64.isNearest_ofInt h.le)

namespace Reduction

variable {ns : List Int64}

def total (ns : List Int64) : ℤ := (ns.map Int64.toInt).sum

theorem total_nil : total [] = 0 := rfl

theorem total_cons (n : Int64) (ns : List Int64) : total (n :: ns) = n.toInt + total ns :=
  List.sum_cons

theorem total_bounds (ns : List Int64) :
    -2 ^ 63 * (ns.length : ℤ) ≤ total ns ∧ total ns ≤ (2 ^ 63 - 1) * (ns.length : ℤ) := by
  induction ns with
  | nil => exact ⟨le_rfl, le_rfl⟩
  | cons n ns ih =>
    have hlow := n.le_toInt
    have hhigh := n.toInt_lt
    rw [total_cons, List.length_cons]
    omega

theorem natAbs_total_le (ns : List Int64) : (total ns).natAbs ≤ ns.length * 2 ^ 63 := by
  have hbounds := total_bounds ns
  omega

theorem decimalSum?_whole {t : ℤ} (ht : t.natAbs < Decimal.limit)
    (hroom : t.natAbs + ns.length * 2 ^ 63 < Decimal.limit) :
    decimalSum? (.ofWhole t ht) (ns.map .int) = Decimal.make? (t + total ns) 0 := by
  induction ns generalizing t with
  | nil =>
    rw [total_nil, add_zero, Decimal.make?_zero ht]
    rfl
  | cons n ns ih =>
    have hn := Integer.natAbs_toInt_le n
    rw [List.length_cons] at hroom
    have hstep : (t + n.toInt).natAbs < Decimal.limit := by omega
    have hadd : ((Numeric.int n).toDecimal?.bind (Decimal.ofWhole t ht).add?) =
        some (.ofWhole (t + n.toInt) hstep) := by
      rw [Numeric.toDecimal?, Decimal.ofInt?_toInt, Option.bind_some, Decimal.add?_whole,
        Decimal.make?_zero hstep]
    rw [List.map_cons, decimalSum?, hadd, total_cons, ← add_assoc]
    exact ih hstep (by omega)

theorem natAbs_total_lt (hlength : ns.length < 2 ^ 32) : (total ns).natAbs < Decimal.limit := by
  have hbound := natAbs_total_le ns
  simp only [Decimal.limit]
  omega

theorem sum_map_int (hlength : ns.length < 2 ^ 32) :
    sum (ns.map .int) = .ofDecimal (.ofWhole (total ns) (natAbs_total_lt hlength)) := by
  have hzero : decimalSum? Decimal.zero (ns.map .int) = Decimal.make? (0 + total ns) 0 :=
    decimalSum?_whole (by decide) (by simp only [Decimal.limit]; omega)
  rw [zero_add, Decimal.make?_zero (natAbs_total_lt hlength)] at hzero
  rw [sum, hzero]

/-! ## Sums -/

/-- A sum of whole numbers is exact: a whole number in the range of 64 bits, and a nearest float out
of it. It does not depend on the order in which the numbers stand, or on the arrays in which they
are nested. -/
theorem sum_int_exact (hlength : ns.length < 2 ^ 32) :
    ∃ v, ShownAs (total ns) v ∧ ∀ ms : List Int64, ms.Perm ns →
      (sum (ms.map .int)).toValue = v ∧
      (∀ args, Spreads args ms → Builtin.sum args = .ok v) ∧
      ∀ separator, Aggregation.sum.apply none separator (.array (ms.map .int)) = v := by
  refine ⟨_, shownAs_ofDecimal (natAbs_total_lt hlength), fun ms hperm => ?_⟩
  have htotal : total ms = total ns := (hperm.map Int64.toInt).sum_eq
  have hsum := @sum_map_int ms (by rwa [hperm.length_eq])
  simp only [htotal] at hsum
  refine ⟨by rw [hsum], fun args hargs => ?_, fun separator => ?_⟩
  · rw [Builtin.sum, hargs.numbers_eq, hsum]
  · simp only [Aggregation.apply, entries, project, numbers_map_int, hsum]

/-- The partial sum of the first two numbers is out of range, and that of all three is not. -/
theorem sum_int_exact_past_greatest :
    [(9223372036854775807 : Int64), 1, -2].length < 2 ^ 32 ∧
    (sum [.int 9223372036854775807, .int 1, .int (-2)]).toValue = .int 9223372036854775806 ∧
    Builtin.sum [.int 1, .array [.int (-2), .array [.int 9223372036854775807]]] =
      .ok (.int 9223372036854775806) := by
  obtain ⟨v, hv, hall⟩ := @sum_int_exact [9223372036854775807, 1, -2] (by decide)
  have hvalue : v = .int 9223372036854775806 := by
    cases hv with
    | @int k h => rw [Int64.toInt_inj.1 (h.trans (by decide : _ = Int64.toInt 9223372036854775806))]
    | float hnone h => exact (hnone 9223372036854775806 (by decide)).elim
  subst hvalue
  have hnested : Spreads [.int 1, .array [.int (-2), .array [.int 9223372036854775807]]]
      [1, -2, 9223372036854775807] := .int (.array (.int (.array (.int .nil) .nil)) .nil)
  exact ⟨by decide, (hall _ (.refl _)).1, (hall _ (by decide)).2.1 _ hnested⟩

/-! ## Means -/

/-- The decimal that a mean is taken of: the sum as its value shows it. -/
theorem exists_toDecimal?_sum (hlength : ns.length < 2 ^ 32) :
    ∃ (t : ℤ) (ht : t.natAbs < Decimal.limit),
      (sum (ns.map .int)).toDecimal? = some (.ofWhole t ht) ∧
        t.natAbs ≤ ns.length * 2 ^ 63 ∧ (t = total ns ↔ Representable (total ns)) := by
  have hbound := natAbs_total_le ns
  rw [sum_map_int hlength]
  by_cases hrange : ∃ k : Int64, k.toInt = total ns
  · obtain ⟨k, hk⟩ := hrange
    refine ⟨total ns, natAbs_total_lt hlength, ?_, hbound, iff_of_true rfl (.inl ⟨k, hk⟩)⟩
    rw [Numeric.ofDecimal_ofWhole_eq_int_iff.2 hk, Numeric.toDecimal?, hk]
    exact Decimal.make?_zero _
  · rw [not_exists] at hrange
    rw [Numeric.ofDecimal_ofWhole_of_large _ hrange]
    have hnearest := Binary64.isNearest_ofInt (natAbs_total_lt hlength).le
    have hlarge := Binary64.le_abs_toRat_ofInt (c := 1) (e := 63) (natAbs_total_lt hlength).le
      (by decide) (by decide) (by simpa using two_pow_le_natAbs hrange)
    have hsmall := Binary64.abs_toRat_ofInt_le (e := 63) (natAbs_total_lt hlength).le
      (show ns.length ≤ 2 ^ 53 by omega) (by decide) hbound
    have hroom : ns.length * 2 ^ 63 < Decimal.limit := by
      simp only [Decimal.limit]
      omega
    obtain ⟨t, ht, hvalue, hdecimal⟩ := Decimal.ofBinary64?_of_large hnearest.isFinite
      (le_trans (by norm_num) hlarge) (hsmall.trans_lt (by exact_mod_cast hroom))
    rw [hvalue, Binary64.abs_cast_int, Nat.cast_le] at hsmall
    refine ⟨t, ht, hdecimal, hsmall, fun h => ?_, fun h => ?_⟩
    · exact .inr ⟨_, hnearest.isFinite, by rw [hvalue, h]⟩
    · obtain ⟨k, hk⟩ | ⟨y, hy, heq⟩ := h
      · exact (hrange k hk).elim
      · have hexact := hnearest.toRat_eq hy heq
        rw [hvalue] at hexact
        exact_mod_cast hexact

theorem natAbs_length_lt (hlength : ns.length < 2 ^ 32) :
    (ns.length : ℤ).natAbs < Decimal.limit := by
  simp only [Decimal.limit]
  omega

theorem average_map_int {t : ℤ} {ht : t.natAbs < Decimal.limit} {d : Decimal} (hne : ns ≠ [])
    (hlength : ns.length < 2 ^ 32) (hsum : (sum (ns.map .int)).toDecimal? = some (.ofWhole t ht))
    (hquotient : (Decimal.ofWhole t ht).div? (.ofWhole ns.length (natAbs_length_lt hlength)) =
      some d) : average (ns.map .int) = .ofDecimal d := by
  have hempty : (ns.map Numeric.int).isEmpty = false := by simpa using hne
  have hcount : Decimal.ofInt? ns.length = some (.ofWhole ns.length (natAbs_length_lt hlength)) :=
    Decimal.make?_zero _
  simp [average, hempty, hsum, hcount, hquotient]

/-- The mean of whole numbers whose mean is whole is that number if the value of their sum is the
sum. Under two thousand millions of numbers it is that number in no other case. -/
theorem average_int_exact {mean : ℤ} (hne : ns ≠ []) (hlength : ns.length < 2 ^ 32)
    (hmean : total ns = mean * ns.length) :
    ∃ k : Int64, k.toInt = mean ∧
      (Representable (total ns) → average (ns.map .int) = .int k) ∧
      (ns.length < 2 * 10 ^ 9 → average (ns.map .int) = .int k → Representable (total ns)) := by
  have hpos : (0 : ℤ) < ns.length := Int.natCast_pos.2 (List.length_pos_iff.2 hne)
  have hrange : -2 ^ 63 ≤ mean ∧ mean ≤ 2 ^ 63 - 1 := by
    have hbounds := total_bounds ns
    rw [hmean] at hbounds
    exact ⟨le_of_mul_le_mul_right hbounds.1 hpos, le_of_mul_le_mul_right hbounds.2 hpos⟩
  obtain ⟨k, hk⟩ : ∃ k : Int64, k.toInt = mean :=
    ⟨_, Int64.toInt_ofInt_of_le hrange.1 (Int.lt_of_le_sub_one hrange.2)⟩
  obtain ⟨t, ht, hsum, hbound, hkept⟩ := exists_toDecimal?_sum hlength
  -- a sum that is a multiple of the length has the factor as its mean
  have hmultiple : ∀ c, t = ns.length * c → (average (ns.map .int) = .int k ↔ k.toInt = c) := by
    intro c hc
    have hroom : c.natAbs < Decimal.limit := by
      refine lt_of_le_of_lt ?_ ht
      rw [hc, Int.natAbs_mul]
      exact Nat.le_mul_of_pos_left _ (Int.natAbs_pos.2 hpos.ne')
    have hquotient : (Decimal.ofWhole t ht).div? (.ofWhole ns.length (natAbs_length_lt hlength)) =
        Decimal.make? c 0 := Decimal.div?_whole_mul hpos.ne' hc
    rw [Decimal.make?_zero hroom] at hquotient
    rw [average_map_int hne hlength hsum hquotient, Numeric.ofDecimal_ofWhole_eq_int_iff]
  refine ⟨k, hk, fun h => ?_, fun hsmall haverage => hkept.1 ?_⟩
  · exact (hmultiple mean (by rw [hkept.2 h, hmean, mul_comm])).2 hk
  · by_cases hdvd : (ns.length : ℤ) ∣ t
    · obtain ⟨c, hc⟩ := hdvd
      rw [hc, hmean, ← hk, (hmultiple c hc).1 haverage, mul_comm]
    · obtain ⟨d, hd, hpart⟩ : ∃ d, (Decimal.ofWhole t ht).div?
          (.ofWhole ns.length (natAbs_length_lt hlength)) = some d ∧ d.isWhole = false :=
        Decimal.div?_whole_of_not_dvd_of_small hpos.ne' (by rw [Int.natAbs_natCast]; omega)
          (by rwa [Int.natAbs_natCast]) hdvd
      rw [average_map_int hne hlength hsum hd, Numeric.ofDecimal_of_part hpart] at haverage
      cases haverage

/-- A sum of two times `2 ^ 62` is out of range and a float. -/
theorem average_int_exact_of_float_sum :
    [(4611686018427387904 : Int64), 4611686018427387904] ≠ [] ∧
    [(4611686018427387904 : Int64), 4611686018427387904].length < 2 ^ 32 ∧
    total [4611686018427387904, 4611686018427387904] = 4611686018427387904 * 2 ∧
    average [.int 4611686018427387904, .int 4611686018427387904] = .int 4611686018427387904 := by
  obtain ⟨k, hk, hexact, -⟩ := @average_int_exact
    [4611686018427387904, 4611686018427387904] 4611686018427387904 (by decide) (by decide)
    (by decide)
  obtain rfl := Int64.toInt_inj.1 (hk.trans (by decide : _ = Int64.toInt 4611686018427387904))
  have htotal : total [4611686018427387904, 4611686018427387904] = 2 ^ 63 := by decide
  obtain ⟨x, hx, hvalue⟩ := Binary64.exists_toRat_eq_multiple (n := 1) (e := 63) (by decide)
    (by decide) (by decide)
  have hkept : Representable (2 ^ 63) := .inr ⟨x, hx, by rw [hvalue]; norm_num⟩
  exact ⟨by decide, by decide, by decide, hexact (htotal ▸ hkept)⟩

/-- The sum of the same numbers plus one each is out of range and no float, so that its value is two
less, and the mean is one less. -/
theorem average_of_lost_sum :
    total [4611686018427387905, 4611686018427387905] = 4611686018427387905 * 2 ∧
    average [.int 4611686018427387905, .int 4611686018427387905] = .int 4611686018427387904 := by
  decide +kernel

end Reduction

end FormulaPipeline
