import FormulaPipeline.Function.Collection
import FormulaPipeline.Proofs.Number.Rational

/-!
# Removal of repeated values

Equality of values is symmetric and transitive, but not reflexive: `nan` equals nothing. So the
values that equal no earlier one are, up to equality, all values that equal themselves, and each
`nan` is kept.
-/

namespace FormulaPipeline

/-! ## Equality of values -/

namespace Binary64

variable {x y z : Binary64}

theorem eq_infinite_of_beq {a : Bool} (h : (infinite a).beq y = true) : y = infinite a := by
  cases y with
  | nan => simp [Binary64.beq, compare?] at h
  | infinite b => cases a <;> cases b <;> first | rfl | exact absurd h (by decide)
  | finite => cases a <;> simp [Binary64.beq, compare?] at h

theorem isFinite_of_beq (hx : x.isFinite = true) (h : x.beq y = true) : y.isFinite = true := by
  cases y with
  | finite => rfl
  | nan => cases x <;> simp [Binary64.beq, compare?] at h
  | infinite b =>
    cases x with
    | finite => cases b <;> simp [Binary64.beq, compare?] at h
    | nan => cases hx
    | infinite => cases hx

theorem beq_symm (h : x.beq y = true) : y.beq x = true := by
  cases x with
  | nan => simp [Binary64.beq, compare?] at h
  | infinite a =>
    obtain rfl := eq_infinite_of_beq h
    exact h
  | finite a m q hc =>
    have hy : y.isFinite = true := isFinite_of_beq rfl h
    rw [beq_iff rfl hy] at h
    exact (beq_iff hy rfl).2 h.symm

theorem beq_trans (hxy : x.beq y = true) (hyz : y.beq z = true) : x.beq z = true := by
  cases x with
  | nan => simp [Binary64.beq, compare?] at hxy
  | infinite a =>
    obtain rfl := eq_infinite_of_beq hxy
    exact hyz
  | finite a m q hc =>
    have hy : y.isFinite = true := isFinite_of_beq rfl hxy
    have hz : z.isFinite = true := isFinite_of_beq hy hyz
    rw [beq_iff rfl hy] at hxy
    rw [beq_iff hy hz] at hyz
    exact (beq_iff rfl hz).2 (hxy.trans hyz)

end Binary64

namespace Value

mutual

theorem beq_symm (a : Value) {b : Value} (h : a.beq b = true) : b.beq a = true := by
  cases a <;> cases b <;> try cases h
  case null.null => rfl
  case bool.bool a b => exact @BEq.symm Bool _ _ a b h
  case int.int a b => exact @BEq.symm Int64 _ _ a b h
  case float.float a b => exact Binary64.beq_symm h
  case text.text a b => exact @BEq.symm String _ _ a b h
  case array.array as bs => exact beqItems_symm as h
  case object.object as bs => exact beqMembers_symm as h
  case record.record i as j bs =>
    simp only [Value.beq, Bool.and_eq_true, beq_iff_eq] at h ⊢
    exact ⟨h.1.symm, beqMembers_symm as h.2⟩

theorem beqItems_symm (as : List Value) {bs : List Value} (h : beqItems as bs = true) :
    beqItems bs as = true := by
  cases as <;> cases bs <;> try cases h
  case nil.nil => rfl
  case cons.cons a as b bs =>
    simp only [beqItems, Bool.and_eq_true] at h ⊢
    exact ⟨beq_symm a h.1, beqItems_symm as h.2⟩

theorem beqMembers_symm (as : List (String × Value)) {bs : List (String × Value)}
    (h : beqMembers as bs = true) : beqMembers bs as = true := by
  rcases as with _ | ⟨⟨k, a⟩, as⟩ <;> rcases bs with _ | ⟨⟨l, b⟩, bs⟩ <;>
    try cases h
  case nil.nil => rfl
  case cons.cons =>
    simp only [beqMembers, Bool.and_eq_true, beq_iff_eq] at h ⊢
    exact ⟨⟨h.1.1.symm, beq_symm a h.1.2⟩, beqMembers_symm as h.2⟩

end

mutual

theorem beq_trans (a : Value) {b c : Value} (hab : a.beq b = true) (hbc : b.beq c = true) :
    a.beq c = true := by
  cases a <;> cases b <;> (try cases hab) <;> cases c <;> try cases hbc
  · rfl
  case bool.bool.bool a b c => exact @BEq.trans Bool _ _ a b c hab hbc
  case int.int.int a b c => exact @BEq.trans Int64 _ _ a b c hab hbc
  case float.float.float a b c => exact Binary64.beq_trans hab hbc
  case text.text.text a b c => exact @BEq.trans String _ _ a b c hab hbc
  case array.array.array as bs cs => exact beqItems_trans as hab hbc
  case object.object.object as bs cs => exact beqMembers_trans as hab hbc
  case record.record.record i as j bs k cs =>
    simp only [Value.beq, Bool.and_eq_true, beq_iff_eq] at hab hbc ⊢
    exact ⟨hab.1.trans hbc.1, beqMembers_trans as hab.2 hbc.2⟩
termination_by structural a

theorem beqItems_trans (as : List Value) {bs cs : List Value} (hab : beqItems as bs = true)
    (hbc : beqItems bs cs = true) : beqItems as cs = true := by
  cases as <;> cases bs <;> (try cases hab) <;> cases cs <;> try cases hbc
  · rfl
  case cons.cons.cons a as b bs c cs =>
    simp only [beqItems, Bool.and_eq_true] at hab hbc ⊢
    exact ⟨beq_trans a hab.1 hbc.1, beqItems_trans as hab.2 hbc.2⟩
termination_by structural as

theorem beqMembers_trans (as : List (String × Value)) {bs cs : List (String × Value)}
    (hab : beqMembers as bs = true) (hbc : beqMembers bs cs = true) :
    beqMembers as cs = true := by
  rcases as with _ | ⟨⟨k, a⟩, as⟩ <;> rcases bs with _ | ⟨⟨l, b⟩, bs⟩ <;> (try cases hab) <;>
    rcases cs with _ | ⟨⟨m, c⟩, cs⟩ <;> try cases hbc
  · rfl
  case cons.cons.cons =>
    simp only [beqMembers, Bool.and_eq_true, beq_iff_eq] at hab hbc ⊢
    exact ⟨⟨hab.1.1.trans hbc.1.1, beq_trans a hab.1.2 hbc.1.2⟩, beqMembers_trans as hab.2 hbc.2⟩
termination_by structural as

end

instance : PartialEquivBEq Value where
  symm h := beq_symm _ h
  trans hab hbc := beq_trans _ hab hbc

end Value

/-! ## First occurrences -/

namespace Argument

mutual

/-- No array is left when arrays have been replaced by their entries. -/
theorem not_array_of_mem_flatten (args : List Value) :
    ∀ v ∈ flatten args, ∀ items, v ≠ .array items := by
  cases args with
  | nil => simp [flatten]
  | cons a rest =>
    rw [flatten, List.forall_mem_append]
    exact ⟨not_array_of_mem_flattenOne a, not_array_of_mem_flatten rest⟩

theorem not_array_of_mem_flattenOne (a : Value) :
    ∀ v ∈ flattenOne a, ∀ items, v ≠ .array items := by
  cases a with
  | array items => exact not_array_of_mem_flatten items
  | _ => simp [flattenOne]

end

theorem flatten_of_no_arrays {values : List Value}
    (h : ∀ v ∈ values, ∀ items, v ≠ .array items) : flatten values = values := by
  induction values with
  | nil => rfl
  | cons v rest ih =>
    rw [List.forall_mem_cons] at h
    have hone : flattenOne v = [v] := by
      cases v with
      | array items => exact (h.1 items rfl).elim
      | _ => rfl
    rw [flatten, hone, ih h.2, List.singleton_append]

theorem flatten_array (items : List Value) : flatten [.array items] = flatten items := by
  rw [flatten, flattenOne, flatten, List.append_nil]

end Argument

namespace Builtin

theorem distinct_sublist (seen values : List Value) : (distinct seen values).Sublist values := by
  induction values generalizing seen with
  | nil => exact .slnil
  | cons v rest ih =>
    rw [distinct]
    split
    · exact (ih seen).cons v
    · exact (ih (v :: seen)).cons_cons v

/-- What has been seen counts up to equality only. -/
theorem distinct_congr {seen other : List Value} (h : ∀ v, seen.contains v = other.contains v)
    (values : List Value) : distinct seen values = distinct other values := by
  induction values generalizing seen other with
  | nil => rfl
  | cons v rest ih =>
    have hcons : ∀ w, (v :: seen).contains w = (v :: other).contains w := fun w => by
      rw [List.contains_cons, List.contains_cons, h]
    rw [distinct, distinct, h v, ih h, ih hcons]

theorem contains_cons_of_contains {values : List Value} {v : Value}
    (h : values.contains v = true) (w : Value) :
    (v :: values).contains w = values.contains w := by
  rw [List.contains_cons]
  cases heq : w == v with
  | false => rw [Bool.false_or]
  | true => rw [Bool.true_or, List.contains_congr heq, h]

theorem distinct_append (seen front back : List Value) :
    distinct seen (front ++ back) = distinct seen front ++ distinct (front ++ seen) back := by
  induction front generalizing seen with
  | nil => rfl
  | cons v front ih =>
    rw [List.cons_append, distinct, distinct]
    split
    · rename_i hseen
      have hfront : (front ++ seen).contains v = true := by
        rw [List.contains_append, hseen, Bool.or_true]
      rw [ih, List.cons_append, distinct_congr (contains_cons_of_contains hfront)]
    · have hmoved : ∀ w, (front ++ v :: seen).contains w = (v :: (front ++ seen)).contains w := by
        intro w
        simp only [List.contains_append, List.contains_cons]
        exact Bool.or_left_comm _ _ _
      rw [ih, List.cons_append, List.cons_append, distinct_congr hmoved]

theorem not_contains_of_mem_distinct {seen values : List Value} {v : Value}
    (h : v ∈ distinct seen values) : seen.contains v = false := by
  induction values generalizing seen with
  | nil => cases h
  | cons w rest ih =>
    rw [distinct] at h
    split at h
    · exact ih h
    · rename_i hseen
      obtain rfl | h := List.mem_cons.1 h
      · exact Bool.eq_false_iff.2 hseen
      · have hcons := ih h
        rw [List.contains_cons, Bool.or_eq_false_iff] at hcons
        exact hcons.2

/-- No two of the values that are kept are equal. -/
theorem pairwise_distinct (seen values : List Value) :
    (distinct seen values).Pairwise fun v w => (v == w) = false := by
  induction values generalizing seen with
  | nil => exact .nil
  | cons v rest ih =>
    rw [distinct]
    split
    · exact ih seen
    · refine .cons (fun w hw => ?_) (ih (v :: seen))
      have hcons := not_contains_of_mem_distinct hw
      rw [List.contains_cons, Bool.or_eq_false_iff] at hcons
      exact BEq.symm_false hcons.1

/-- What equals a value that was gone through equals one that was kept or seen before. -/
theorem contains_distinct (seen values : List Value) (v : Value) :
    (distinct seen values ++ seen).contains v = (values ++ seen).contains v := by
  induction values generalizing seen with
  | nil => rfl
  | cons w rest ih =>
    rw [distinct, List.cons_append]
    split
    · rename_i hseen
      have hrest : (rest ++ seen).contains w = true := by
        rw [List.contains_append, hseen, Bool.or_true]
      rw [ih, contains_cons_of_contains hrest]
    · have hnext := ih (w :: seen)
      simp only [List.contains_append, List.contains_cons, List.cons_append] at hnext ⊢
      rw [Bool.or_left_comm, hnext, Bool.or_left_comm]

theorem distinct_of_pairwise {seen values : List Value}
    (hseen : ∀ v ∈ values, seen.contains v = false)
    (hvalues : values.Pairwise fun v w => (v == w) = false) : distinct seen values = values := by
  induction values generalizing seen with
  | nil => rfl
  | cons v rest ih =>
    obtain ⟨hv, hrest⟩ := List.pairwise_cons.1 hvalues
    rw [List.forall_mem_cons] at hseen
    rw [distinct, hseen.1, if_neg (by simp), ih (fun w hw => ?_) hrest]
    rw [List.contains_cons, hseen.2 w hw, BEq.symm_false (hv w hw), Bool.or_false]

end Builtin

/-- The values of an argument list, with arrays spread out at every depth, are kept in order and
each equal pair once: a value stays in its place exactly when no value before it equals it. So every
value that equals itself equals one that is kept, and what is kept is kept again. -/
theorem Builtin.unique_first_occurrences (args : List Value) :
    ∃ kept, unique args = .ok (.array kept) ∧
      kept.Sublist (Argument.flatten args) ∧
      (∀ v ∈ kept, ∀ items, v ≠ .array items) ∧
      kept.Pairwise (fun v w => (v == w) = false) ∧
      (∀ before v after, Argument.flatten args = before ++ v :: after →
        ∃ front back, front.Sublist before ∧ back.Sublist after ∧
          kept = front ++ if (before.any fun w => v == w) then back else v :: back) ∧
      (∀ v ∈ Argument.flatten args, (v == v) = true → ∃ w ∈ kept, (v == w) = true) ∧
      unique [.array kept] = .ok (.array kept) := by
  have harrays : ∀ v ∈ distinct [] (Argument.flatten args), ∀ items, v ≠ .array items :=
    fun v hv => Argument.not_array_of_mem_flatten args v ((distinct_sublist _ _).subset hv)
  have hpairwise := pairwise_distinct [] (Argument.flatten args)
  refine ⟨distinct [] (Argument.flatten args), rfl, distinct_sublist _ _, harrays, hpairwise,
    fun before v after hsplit => ?_, fun v hv hself => ?_, ?_⟩
  · rw [hsplit, distinct_append, List.append_nil, distinct, ← List.contains_eq_any_beq]
    refine ⟨distinct [] before,
      if before.contains v then distinct before after else distinct (v :: before) after,
      distinct_sublist _ _, ?_, ?_⟩
    · split <;> exact distinct_sublist _ _
    · split <;> rfl
  · have hcontains := contains_distinct [] (Argument.flatten args) v
    rw [List.append_nil, List.append_nil] at hcontains
    rw [← List.contains_iff_exists_mem_beq, hcontains, List.contains_iff_exists_mem_beq]
    exact ⟨v, hv, hself⟩
  · rw [unique, Argument.flatten_array, Argument.flatten_of_no_arrays harrays,
      distinct_of_pairwise (fun _ _ => rfl) hpairwise]

-- `nan` equals nothing and is kept each time; the second `1` equals the first
example : Builtin.unique [.float .nan, .array [.float .nan, .int 1, .array [.int 1]]] =
    .ok (.array [.float .nan, .float .nan, .int 1]) := rfl

end FormulaPipeline
