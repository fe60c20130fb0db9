import FormulaPipeline.Formula.Condition
import FormulaPipeline.Function.Choice
import FormulaPipeline.Proofs.Value.Numerals

/-!
# Loose equality

Two values that both count as numbers are compared as these, and all others by their texts. The text
of a scalar holds a number if and only if the scalar counts as one, so no number is equal to a
scalar that is none, and loose equality of scalars is equality of what they are compared by.
-/

namespace FormulaPipeline

namespace Value

variable {a b c : Value}

theorem isFinite_of_toNumber? {x : Binary64} (h : a.toNumber? = some x) : x.isFinite = true := by
  cases a with
  | int n =>
    cases h
    exact (Binary64.isNearest_toInt n).isFinite
  | float y =>
    rw [toNumber?] at h
    split at h
    · cases h
      assumption
    · cases h
  | text s => exact (Option.filter_eq_some_iff.1 h).2
  | _ => cases h

/-- Values that are not both numbers are compared by their texts. Of two truth values the texts
differ if they do. -/
theorem looseEq_of_eq_none (h : a.toNumber? = none ∨ b.toNumber? = none) :
    a.looseEq b = (a.toText == b.toText) := by
  have hbool : ∀ p q : Bool, (p == q) = ((Value.bool p).toText == (Value.bool q).toText) := by
    decide +kernel
  unfold looseEq
  split
  · simp_all
  · split
    · exact hbool _ _
    · rfl

/-- What a scalar is compared by: its number, or its text when it counts as none. -/
def looseKey (v : Value) : ℚ ⊕ String :=
  match v.toNumber? with
  | some x => .inl x.toRat
  | none => .inr v.toText

theorem looseEq_iff (ha : a.IsScalar) (hb : b.IsScalar) :
    a.looseEq b = true ↔ a.looseKey = b.looseKey := by
  have hnumber : a.toText = b.toText → a.toNumber?.isSome = b.toNumber?.isSome := by
    intro htext
    rw [← isSome_numberIn?_toText ha, ← isSome_numberIn?_toText hb, htext]
  cases hx : a.toNumber? with
  | some x =>
    cases hy : b.toNumber? with
    | some y =>
      simp only [looseEq, looseKey, hx, hy, Sum.inl.injEq]
      exact Binary64.beq_iff (isFinite_of_toNumber? hx) (isFinite_of_toNumber? hy)
    | none =>
      rw [looseEq_of_eq_none (.inr hy), beq_iff_eq]
      simp only [looseKey, hx, hy, reduceCtorEq, iff_false]
      intro htext
      simpa [hx, hy] using hnumber htext
  | none =>
    rw [looseEq_of_eq_none (.inl hx), beq_iff_eq]
    cases hy : b.toNumber? with
    | some y =>
      simp only [looseKey, hx, hy, reduceCtorEq, iff_false]
      intro htext
      simpa [hx, hy] using hnumber htext
    | none => simp only [looseKey, hx, hy, Sum.inr.injEq]

theorem looseEq_self (a : Value) : a.looseEq a = true := by
  cases hx : a.toNumber? with
  | some x =>
    simp only [looseEq, hx]
    exact (Binary64.beq_iff (isFinite_of_toNumber? hx) (isFinite_of_toNumber? hx)).2 rfl
  | none => rw [looseEq_of_eq_none (.inl hx), beq_self_eq_true]

theorem looseEq_comm (a b : Value) : a.looseEq b = b.looseEq a := by
  by_cases hnone : a.toNumber? = none ∨ b.toNumber? = none
  · rw [looseEq_of_eq_none hnone, looseEq_of_eq_none hnone.symm, Bool.beq_comm]
  · rw [not_or] at hnone
    obtain ⟨x, hx⟩ := Option.ne_none_iff_exists'.1 hnone.1
    obtain ⟨y, hy⟩ := Option.ne_none_iff_exists'.1 hnone.2
    simp only [looseEq, hx, hy]
    rw [Bool.eq_iff_iff, Binary64.beq_iff (isFinite_of_toNumber? hx) (isFinite_of_toNumber? hy),
      Binary64.beq_iff (isFinite_of_toNumber? hy) (isFinite_of_toNumber? hx), eq_comm]

/-- Scalars that are equal to each other are equal to the same scalars. -/
theorem looseEq_congr (ha : a.IsScalar) (hb : b.IsScalar) (hc : c.IsScalar)
    (h : a.looseEq b = true) : a.looseEq c = b.looseEq c := by
  rw [looseEq_iff ha hb] at h
  rw [Bool.eq_iff_iff, looseEq_iff ha hc, looseEq_iff hb hc, h]

end Value

namespace Builtin

/-- The values that a choice compares its subject with. -/
def candidates : List Value → List Value
  | candidate :: _ :: rest => candidate :: candidates rest
  | _ => []

theorem select_congr {a b : Value} (ha : a.IsScalar) (hb : b.IsScalar)
    (h : a.looseEq b = true) (rest : List Value) (hrest : ∀ v ∈ candidates rest, v.IsScalar) :
    select a rest = select b rest := by
  fun_induction select a rest with
  | case1 => rfl
  | case2 default => rfl
  | case3 candidate result rest heq =>
    rw [Value.looseEq_congr ha hb (hrest _ List.mem_cons_self) h] at heq
    rw [select, if_pos heq]
  | case4 candidate result rest heq ih =>
    rw [Value.looseEq_congr ha hb (hrest _ List.mem_cons_self) h] at heq
    rw [select, if_neg heq]
    exact ih fun v hv => hrest v (.tail _ hv)

end Builtin

/-- Loose equality is reflexive and symmetric, and on scalars it is an equivalence. So a filter for
a scalar accepts two entries alike when it tests equal scalars in them, and a choice among scalars
is the same for equal scalar subjects. -/
theorem looseEq_equivalence :
    (∀ a : Value, a.looseEq a = true) ∧
    (∀ a b : Value, a.looseEq b = true → b.looseEq a = true) ∧
    (∀ a b c : Value, a.IsScalar → b.IsScalar → c.IsScalar →
      a.looseEq b = true → b.looseEq c = true → a.looseEq c = true) ∧
    (∀ (condition : Condition) (a b : Value), condition.test = .eq → condition.value.IsScalar →
      (condition.subject a).IsScalar → (condition.subject b).IsScalar →
      (condition.subject a).looseEq (condition.subject b) = true →
      condition.accepts a = condition.accepts b) ∧
    (∀ (a b : Value) (rest : List Value), a.IsScalar → b.IsScalar →
      (∀ v ∈ Builtin.candidates rest, v.IsScalar) → a.looseEq b = true →
      Builtin.switch (a :: rest) = Builtin.switch (b :: rest)) := by
  refine ⟨Value.looseEq_self, fun a b h => ?_, fun a b c ha hb hc hab hbc => ?_,
    fun condition a b htest hvalue ha hb h => ?_, fun a b rest ha hb hrest h => ?_⟩
  · rwa [Value.looseEq_comm]
  · rwa [Value.looseEq_congr ha hb hc hab]
  · simp only [Condition.accepts, Condition.holds, htest]
    exact Value.looseEq_congr ha hb hvalue h
  · exact congrArg Except.ok (Builtin.select_congr ha hb h rest hrest)

/-- Two spellings of one number are equal through the number. -/
theorem looseEq_equivalence_of_spellings :
    (Value.text " 3.00 ").IsScalar ∧ (Value.int 3).IsScalar ∧ (Value.text "30e-1").IsScalar ∧
    (Value.text " 3.00 ").looseEq (.int 3) = true ∧ (Value.int 3).looseEq (.text "30e-1") = true ∧
    (Value.text " 3.00 ").looseEq (.text "30e-1") = true ∧
    Builtin.switch [.text " 3.00 ", .text "3.00", .int 1, .int 2] =
      Builtin.switch [.int 3, .text "3.00", .int 1, .int 2] := by
  obtain ⟨-, -, htrans, -, hswitch⟩ := looseEq_equivalence
  have hleft : (Value.text " 3.00 ").looseEq (.int 3) = true := by decide +kernel
  have hright : (Value.int 3).looseEq (.text "30e-1") = true := by decide +kernel
  exact ⟨trivial, trivial, trivial, hleft, hright,
    htrans _ (.int 3) _ trivial trivial trivial hleft hright,
    hswitch _ _ _ trivial trivial (by simp [Builtin.candidates, Value.IsScalar]) hleft⟩

end FormulaPipeline
