import FormulaPipeline.Formula.Condition
import FormulaPipeline.Proofs.Evaluation.Reduction
import FormulaPipeline.Proofs.Number.Rational
import Mathlib.Data.List.MinMax

/-!
# Comparing whole numbers

Every comparison of two numbers, in operators, in filters and in the search for a least or largest
entry, is one of the floats nearest to them. Rounding keeps the order, so no comparison ever puts
two whole numbers the wrong way round; but numbers of more than 53 bits that have the same nearest
float count as equal.
-/

namespace FormulaPipeline

/-- The six comparisons. Each is an operator and a test of filters. -/
inductive Comparator where
  | equal
  | notEqual
  | less
  | lessEqual
  | greater
  | greaterEqual

namespace Comparator

def holds : Comparator → Ordering → Bool
  | equal => Ordering.isEq
  | notEqual => Ordering.isNe
  | less => Ordering.isLT
  | lessEqual => Ordering.isLE
  | greater => Ordering.isGT
  | greaterEqual => Ordering.isGE

def operator : Comparator → BinaryOp
  | equal => .equal
  | notEqual => .notEqual
  | less => .less
  | lessEqual => .lessEqual
  | greater => .greater
  | greaterEqual => .greaterEqual

def test : Comparator → Test
  | equal => .eq
  | notEqual => .ne
  | less => .lt
  | lessEqual => .le
  | greater => .gt
  | greaterEqual => .ge

end Comparator

namespace Binary64

/-- The float nearest to a whole number of 64 bits, as a rational number. -/
def ofInt64 (n : Int64) : ℚ := (ofInt n.toInt).toRat

/-- The order of the floats nearest to two whole numbers. -/
def order (a b : Int64) : Ordering := compare (ofInt64 a) (ofInt64 b)

/-- Two numbers of more than 53 bits with a distance of at most `2 ^ 10`, so that they may have the
same nearest float. -/
structure Blurred (a b : Int64) : Prop where
  left : 2 ^ 53 ≤ a.toInt.natAbs
  right : 2 ^ 53 ≤ b.toInt.natAbs
  distance : (a.toInt - b.toInt).natAbs ≤ 2 ^ 10

variable {a b : Int64}

theorem compare?_toInt (a b : Int64) :
    (ofInt a.toInt).compare? (ofInt b.toInt) = some (order a b) :=
  compare?_eq (isNearest_toInt a).isFinite (isNearest_toInt b).isFinite

theorem lt_toInt_iff : (ofInt a.toInt).lt (ofInt b.toInt) = true ↔ ofInt64 a < ofInt64 b :=
  lt_iff (isNearest_toInt a).isFinite (isNearest_toInt b).isFinite

theorem ofInt64_lt (h : a.toInt < b.toInt)
    (hsmall : a.toInt.natAbs < 2 ^ 53 ∨ b.toInt.natAbs < 2 ^ 53) : ofInt64 a < ofInt64 b := by
  have hfloat : ∀ n : ℤ, n.natAbs ≤ 2 ^ 53 → (ofInt n).isFinite = true ∧ (ofInt n).toRat = n :=
    fun n hn => ⟨(isNearest_ofInt (hn.trans (by norm_num))).isFinite, toRat_ofInt hn⟩
  rcases hsmall with ha | hb
  · -- the next number is a float too, and rounding does not pass it
    obtain ⟨hnext, hvalue⟩ := hfloat (a.toInt + 1) (by omega)
    calc ofInt64 a = a.toInt := toRat_ofInt ha.le
      _ < (a.toInt + 1 : ℤ) := by exact_mod_cast Int.lt_succ a.toInt
      _ = (ofInt (a.toInt + 1)).toRat := hvalue.symm
      _ ≤ ofInt64 b := (isNearest_toInt b).le_toRat hnext (by rw [hvalue]; exact_mod_cast h)
  · obtain ⟨hnext, hvalue⟩ := hfloat (b.toInt - 1) (by omega)
    calc ofInt64 a ≤ (ofInt (b.toInt - 1)).toRat :=
          (isNearest_toInt a).toRat_le hnext (by rw [hvalue]; exact_mod_cast Int.le_sub_one_of_lt h)
      _ = (b.toInt - 1 : ℤ) := hvalue
      _ < b.toInt := by exact_mod_cast Int.sub_one_lt_of_le le_rfl
      _ = ofInt64 b := (toRat_ofInt hb.le).symm

theorem order_of_lt (h : a.toInt < b.toInt) :
    order a b = .lt ∨ order a b = .eq ∧ Blurred a b := by
  have hle : ofInt64 a ≤ ofInt64 b :=
    (isNearest_toInt a).mono (isNearest_toInt b) (by exact_mod_cast h)
  rcases hle.lt_or_eq with hlt | heq
  · exact .inl (compare_lt_iff_lt.2 hlt)
  · refine .inr ⟨compare_eq_iff_eq.2 heq, ?_⟩
    have hlarge := mt (ofInt64_lt h) heq.not_lt
    have hleft : |(a.toInt : ℚ) - ofInt64 a| ≤ 2 ^ 9 :=
      abs_sub_toRat_ofInt_le (Integer.natAbs_toInt_le a)
    have hright : |(b.toInt : ℚ) - ofInt64 b| ≤ 2 ^ 9 :=
      abs_sub_toRat_ofInt_le (Integer.natAbs_toInt_le b)
    rw [← heq, abs_sub_comm] at hright
    have hdistance : |(a.toInt - b.toInt : ℤ)| ≤ (2 ^ 10 : ℤ) := by
      have htriangle := abs_sub_le (a.toInt : ℚ) (ofInt64 a) b.toInt
      have hsum : |((a.toInt - b.toInt : ℤ) : ℚ)| ≤ 2 ^ 10 := by
        push_cast
        linarith
      exact_mod_cast hsum
    rw [Int.abs_eq_natAbs] at hdistance
    exact ⟨by omega, by omega, by exact_mod_cast hdistance⟩

theorem Blurred.symm (h : Blurred a b) : Blurred b a :=
  ⟨h.right, h.left, by rw [← Int.natAbs_neg, neg_sub]; exact h.distance⟩

theorem order_swap (a b : Int64) : (order a b).swap = order b a := by
  rw [order, order, ← cmp_eq_compare, ← cmp_eq_compare, cmp_swap]

theorem order_eq_or_blurred (a b : Int64) :
    order a b = compare a.toInt b.toInt ∨ order a b = .eq ∧ Blurred a b := by
  rcases lt_trichotomy a.toInt b.toInt with hlt | heq | hgt
  · rw [compare_lt_iff_lt.2 hlt]
    exact order_of_lt hlt
  · obtain rfl := Int64.toInt_inj.1 heq
    exact .inl (by rw [order, compare_eq_iff_eq.2 rfl, compare_eq_iff_eq.2 rfl])
  · rw [compare_gt_iff_gt.2 hgt, ← order_swap]
    rcases order_of_lt hgt with h | ⟨h, hblurred⟩
    · exact .inl (by rw [h]; rfl)
    · exact .inr ⟨by rw [h]; rfl, hblurred.symm⟩

end Binary64

namespace Reduction

theorem best?_map_int {beats : Binary64 → Binary64 → Bool} {r : Int64 → Int64 → Prop}
    [DecidableRel r]
    (h : ∀ m n : Int64, beats (Binary64.ofInt m.toInt) (Binary64.ofInt n.toInt) = true ↔ r m n)
    (ns : List Int64) :
    best? beats (ns.map .int) = (ns.foldl (List.argAux r) none).map .int := by
  have hfold : ∀ (rest : List Int64) (first : Int64),
      some ((rest.map Numeric.int).foldl
        (fun best m => if beats m.toFloat best.toFloat then m else best) (.int first)) =
        (rest.foldl (List.argAux r) (some first)).map .int := by
    intro rest
    induction rest with
    | nil => exact fun first => rfl
    | cons m rest ih =>
      intro first
      have hbeats : beats (Numeric.int m).toFloat (Numeric.int first).toFloat = true ↔ r m first :=
        h m first
      have hstep : List.argAux r (some first) m = if r m first then some m else some first := rfl
      rw [List.map_cons, List.foldl_cons, List.foldl_cons, hstep]
      by_cases hm : r m first
      · rw [if_pos (hbeats.2 hm), if_pos hm, ih]
      · rw [if_neg (mt hbeats.1 hm), if_neg hm, ih]
  cases ns with
  | nil => rfl
  | cons first rest => exact hfold rest first

theorem exists_min_eq (n : Int64) (ns : List Int64) :
    ∃ least ∈ n :: ns, min ((n :: ns).map .int) = .int least ∧
      ∀ k ∈ n :: ns, Binary64.ofInt64 least ≤ Binary64.ofInt64 k := by
  obtain ⟨least, hleast⟩ := Option.ne_none_iff_exists'.1
    (mt (List.argmin_eq_none (f := Binary64.ofInt64)).1 (List.cons_ne_nil n ns))
  refine ⟨least, List.argmin_mem hleast, ?_, fun k hk => List.le_of_mem_argmin hk hleast⟩
  rw [min, best?_map_int (r := fun m n => Binary64.ofInt64 m < Binary64.ofInt64 n)
    (fun m n => Binary64.lt_toInt_iff), ← List.argmin, hleast]
  rfl

theorem exists_max_eq (n : Int64) (ns : List Int64) :
    ∃ greatest ∈ n :: ns, max ((n :: ns).map .int) = .int greatest ∧
      ∀ k ∈ n :: ns, Binary64.ofInt64 k ≤ Binary64.ofInt64 greatest := by
  obtain ⟨greatest, hgreatest⟩ := Option.ne_none_iff_exists'.1
    (mt (List.argmax_eq_none (f := Binary64.ofInt64)).1 (List.cons_ne_nil n ns))
  refine ⟨greatest, List.argmax_mem hgreatest, ?_, fun k hk => List.le_of_mem_argmax hk hgreatest⟩
  rw [max, best?_map_int (r := fun m n => Binary64.ofInt64 n < Binary64.ofInt64 m)
    (fun m n => Binary64.lt_toInt_iff), ← List.argmax, hgreatest]
  rfl

end Reduction

open Binary64

theorem Comparator.operator_int (k : Comparator) (a b : Int64) :
    k.operator.apply (.int a) (.int b) = .ok (.bool (k.holds (order a b))) := by
  cases k <;>
    simp only [operator, BinaryOp.apply, Value.looseEq, Value.compare?, Value.toNumber?,
      Binary64.beq, compare?_toInt, holds] <;>
    cases order a b <;> rfl

theorem Comparator.test_int (k : Comparator) (field : String) (a b : Int64) :
    (⟨field, k.test, .int b⟩ : Condition).holds (.int a) = k.holds (order a b) := by
  cases k <;>
    simp only [test, Condition.holds, Condition.numeric, Value.looseEq, Value.toNumber?,
      Binary64.beq, Binary64.lt, Binary64.le, compare?_toInt, holds, ← order_swap a b] <;>
    cases order a b <;> rfl

/-- Whole numbers are compared as the floats nearest to them are: by operators, by filters, and in
the search for a least or largest entry. That is their own order, but for numbers of more than 53
bits at a distance of at most `2 ^ 10`, which may count as equal. -/
theorem Comparator.int_as_floats (k : Comparator) (field : String) (a b : Int64)
    (ns : List Int64) :
    k.operator.apply (.int a) (.int b) = .ok (.bool (k.holds (order a b))) ∧
    (⟨field, k.test, .int b⟩ : Condition).holds (.int a) = k.holds (order a b) ∧
    (order a b = compare a.toInt b.toInt ∨ order a b = .eq ∧ Blurred a b) ∧
    ∃ least ∈ a :: ns, ∃ greatest ∈ a :: ns,
      Builtin.least ((a :: ns).map .int) = .ok (.int least) ∧
      Builtin.greatest ((a :: ns).map .int) = .ok (.int greatest) ∧
      (∀ separator, Aggregation.min.apply none separator (.array ((a :: ns).map .int)) =
        .int least ∧
        Aggregation.max.apply none separator (.array ((a :: ns).map .int)) = .int greatest) ∧
      ∀ n ∈ a :: ns, order least n ≠ .gt ∧ order greatest n ≠ .lt := by
  obtain ⟨least, hleast, hmin, hbelow⟩ := Reduction.exists_min_eq a ns
  obtain ⟨greatest, hgreatest, hmax, habove⟩ := Reduction.exists_max_eq a ns
  have hnumbers := Reduction.numbers_map_int (a :: ns)
  refine ⟨k.operator_int a b, k.test_int field a b, order_eq_or_blurred a b, least, hleast,
    greatest, hgreatest, ?_, ?_, fun separator => ⟨?_, ?_⟩, fun n hn => ⟨?_, ?_⟩⟩
  · rw [Builtin.least, (spreads_map_int (a :: ns)).numbers_eq, hmin]
  · rw [Builtin.greatest, (spreads_map_int (a :: ns)).numbers_eq, hmax]
  · simp only [Aggregation.apply, Reduction.entries, Reduction.project, hnumbers, hmin]
  · simp only [Aggregation.apply, Reduction.entries, Reduction.project, hnumbers, hmax]
  · exact compare_gt_iff_gt.not.2 (hbelow n hn).not_gt
  · exact compare_lt_iff_lt.not.2 (habove n hn).not_gt

/-- The first two whole numbers with one float are neither less nor greater, and the one that stands
first is the least and the largest of both. -/
theorem Comparator.blurred_at_two_pow :
    (9007199254740992 : Int64).toInt < (9007199254740993 : Int64).toInt ∧
    BinaryOp.less.apply (.int 9007199254740992) (.int 9007199254740993) = .ok (.bool false) ∧
    BinaryOp.equal.apply (.int 9007199254740992) (.int 9007199254740993) = .ok (.bool true) ∧
    (⟨"a", .lt, .int 9007199254740993⟩ : Condition).holds (.int 9007199254740992) = false ∧
    Builtin.greatest [.int 9007199254740992, .int 9007199254740993] =
      .ok (.int 9007199254740992) ∧
    Builtin.least [.int 9007199254740993, .int 9007199254740992] =
      .ok (.int 9007199254740993) :=
  ⟨by decide, by rfl, by rfl, by decide +kernel, by rfl, by rfl⟩

end FormulaPipeline
