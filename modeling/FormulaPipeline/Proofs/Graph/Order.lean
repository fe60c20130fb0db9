import FormulaPipeline.Proofs.Graph.Schedule

/-!
# The order of nodes

The topological order lists every id once, and none that could come before a greater one comes after
it. Without a cycle some pending node is always ready, so every node comes after all nodes that it
lists.
-/

namespace FormulaPipeline.Graph

variable {g : Graph} {done pending : List String}

/-- When the turn of an id comes, every node that it lists is done. -/
def InOrder (g : Graph) : List String → List String → Prop
  | _, [] => True
  | done, id :: rest =>
    (∀ x, g.Lists id x → g.contains x = true → x ∈ done) ∧ g.InOrder (id :: done) rest

theorem InOrder.mem_of_lists {before after : List String} {id : String}
    (h : g.InOrder done (before ++ id :: after)) {x : String} (hlist : g.Lists id x)
    (hcontains : g.contains x = true) : x ∈ before ∨ x ∈ done := by
  induction before generalizing done with
  | nil => exact .inr (h.1 x hlist hcontains)
  | cons first before ih =>
    rcases ih h.2 with hx | hx
    · exact .inl (List.mem_cons_of_mem first hx)
    · rcases List.mem_cons.1 hx with rfl | hx
      · exact .inl List.mem_cons_self
      · exact .inr hx

theorem nodup_ids (g : Graph) : g.ids.Nodup := Keyed.nodup_of_lt g.sorted.keys_lt

theorem perm_orderFrom (steps : Nat) (done pending : List String) :
    (g.orderFrom steps done pending).Perm pending := by
  induction steps generalizing done pending with
  | zero => exact .refl _
  | succ steps ih =>
    rw [orderFrom]
    cases hready : pending.find? (g.ready done) with
    | none => exact .refl _
    | some id =>
      have hid : id ∈ pending := List.mem_of_find?_eq_some hready
      exact ((ih (id :: done) (pending.erase id)).cons id).trans (List.perm_cons_erase hid).symm

theorem perm_topologicalOrder (g : Graph) : g.topologicalOrder.Perm g.ids :=
  g.topologicalOrder_eq ▸ perm_orderFrom g.size [] g.ids

/-! ## The least id comes first -/

theorem lt_of_find? {p : String → Bool} {ids : List String} (hids : ids.Pairwise (· < ·))
    {id y : String} (hfind : ids.find? p = some id) (hy : y ∈ ids.erase id) (hp : p y = true) :
    id < y := by
  obtain ⟨hid, before, after, rfl, hbefore⟩ := List.find?_eq_some_iff_append.1 hfind
  rw [(Keyed.nodup_of_lt hids).mem_erase_iff, List.mem_append, List.mem_cons] at hy
  obtain ⟨hne, hy | hy | hy⟩ := hy
  · have hnot := hbefore y hy
    simp [hp] at hnot
  · exact (hne hy).elim
  · rw [List.pairwise_append, List.pairwise_cons] at hids
    exact hids.2.1.1 y hy

/-- An id that comes later and could have come instead is greater. This holds with cycles too: when
none is ready the rest is in id order. -/
theorem lt_of_orderFrom (hpending : pending.Pairwise (· < ·)) {steps : Nat}
    {before after : List String} {id y : String}
    (hsplit : g.orderFrom steps done pending = before ++ id :: after) (hy : y ∈ after)
    (hready : ∀ x, g.Lists y x → g.contains x = true → x ∈ before ∨ x ∈ done) : id < y := by
  have hrest : pending = before ++ id :: after → id < y := by
    rintro rfl
    rw [List.pairwise_append, List.pairwise_cons] at hpending
    exact hpending.2.1.1 y hy
  induction steps generalizing done pending before with
  | zero => exact hrest hsplit
  | succ steps ih =>
    rw [orderFrom] at hsplit
    cases hfind : pending.find? (g.ready done) with
    | none =>
      rw [hfind] at hsplit
      exact hrest hsplit
    | some next =>
      rw [hfind] at hsplit
      have hpending' : (pending.erase next).Pairwise (· < ·) :=
        hpending.sublist List.erase_sublist
      cases before with
      | nil =>
        obtain ⟨rfl, rfl⟩ := List.cons.inj hsplit
        apply lt_of_find? hpending hfind ((perm_orderFrom _ _ _).mem_iff.1 hy)
        apply ready_iff.2
        intro x hlist hcontains
        exact (hready x hlist hcontains).resolve_left List.not_mem_nil
      | cons first before =>
        obtain ⟨rfl, htail⟩ := List.cons.inj hsplit
        apply ih hpending' htail
        · intro x hlist hcontains
          rcases hready x hlist hcontains with hx | hx
          · rcases List.mem_cons.1 hx with rfl | hx
            · exact .inr List.mem_cons_self
            · exact .inl hx
          · exact .inr (List.mem_cons_of_mem _ hx)
        · intro hrest
          rw [hrest, List.pairwise_append, List.pairwise_cons] at hpending'
          exact hpending'.2.1.1 y hy

/-! ## Dependencies come first -/

/-- Among pending nodes that a bounded chain starts from some node is ready: going on to a node that
is listed and not done ends. -/
theorem Shallow.exists_ready {n : Nat} {id : String} (h : g.Shallow n id)
    (hall : ∀ x, g.contains x = true → x ∈ done ∨ x ∈ pending) (hid : id ∈ pending) :
    ∃ x ∈ pending, g.ready done x = true := by
  induction n generalizing id with
  | zero =>
    refine ⟨id, hid, ready_iff.2 fun x hlist => ?_⟩
    rw [Shallow, ← Bool.not_eq_true] at h
    exact (h hlist.contains).elim
  | succ n ih =>
    by_cases hready : g.ready done id = true
    · exact ⟨id, hid, hready⟩
    · rw [ready_iff] at hready
      push Not at hready
      obtain ⟨x, hlist, hcontains, hx⟩ := hready
      exact ih (h x hlist) ((hall x hcontains).resolve_left hx)

theorem Acyclic.inOrder_orderFrom (h : g.Acyclic) {steps : Nat} (hsteps : pending.length ≤ steps)
    (hall : ∀ x, g.contains x = true → x ∈ done ∨ x ∈ pending) :
    g.InOrder done (g.orderFrom steps done pending) := by
  induction steps generalizing done pending with
  | zero =>
    obtain rfl : pending = [] := List.length_eq_zero_iff.1 (Nat.le_zero.1 hsteps)
    trivial
  | succ steps ih =>
    rw [orderFrom]
    cases hready : pending.find? (g.ready done) with
    | none =>
      cases pending with
      | nil => trivial
      | cons first rest =>
        obtain ⟨x, hx, hxready⟩ :=
          (h.chainsWithin.shallow first).exists_ready hall List.mem_cons_self
        exact (List.find?_eq_none.1 hready x hx hxready).elim
    | some id =>
      have hid : id ∈ pending := List.mem_of_find?_eq_some hready
      refine ⟨ready_iff.1 (List.find?_some hready), ih ?_ fun x hx => ?_⟩
      · rw [List.length_erase_of_mem hid]
        omega
      · by_cases heq : x = id
        · exact .inl (heq ▸ List.mem_cons_self)
        · exact (hall x hx).imp (List.mem_cons_of_mem _) (List.mem_erase_of_ne heq).2

theorem Acyclic.inOrder_topologicalOrder (h : g.Acyclic) : g.InOrder [] g.topologicalOrder := by
  rw [topologicalOrder_eq]
  exact h.inOrder_orderFrom (by simp [ids, Keyed.keys, size])
    fun _ hx => .inr (contains_iff_mem_ids.1 hx)

end FormulaPipeline.Graph
