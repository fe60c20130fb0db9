import FormulaPipeline.Proofs.Graph.Dependence

/-!
# Schedules and a plain search

A schedule keeps for every pending id what it still waits for. The plain search looks through the
pending ids from the start each time. Both give the same order.
-/

namespace FormulaPipeline.Graph

/-- Whether all dependencies of a node that are nodes are done. -/
def ready (g : Graph) (done : List String) (id : String) : Bool :=
  (g.dependenciesOf id).all fun name => !g.contains name || done.contains name

/-- The pending ids, the first ready one again and again; if none is ready the rest as it is. -/
def orderFrom (g : Graph) : Nat → List String → List String → List String
  | 0, _, pending => pending
  | steps + 1, done, pending =>
    match pending.find? (g.ready done) with
    | some id => id :: orderFrom g steps (id :: done) (pending.erase id)
    | none => pending

variable {g : Graph} {done : List String} {s : Schedule}

theorem ready_iff {id : String} :
    g.ready done id = true ↔ ∀ x, g.Lists id x → g.contains x = true → x ∈ done := by
  simp only [ready, List.all_eq_true, Bool.or_eq_true, Bool.not_eq_true', List.contains_iff_mem,
    Lists, Closure.Step]
  refine forall₂_congr fun x _ => ?_
  cases g.contains x <;> simp

/-- Every pending id waits for the nodes that it lists and that are not done. -/
structure Tracks (g : Graph) (done : List String) (s : Schedule) : Prop where
  sorted : Keyed.Sorted s.pending
  nodup : ∀ id names, (id, names) ∈ s.pending → names.Nodup
  mem_iff : ∀ id names, (id, names) ∈ s.pending →
    ∀ x, x ∈ names ↔ (g.Lists id x ∧ g.contains x = true) ∧ x ∉ done
  ready_lt : s.ready.Pairwise (· < ·)
  mem_ready : ∀ id, id ∈ s.ready ↔ (id, []) ∈ s.pending

theorem tracks_schedule (g : Graph) : g.Tracks [] g.schedule where
  sorted := g.sorted.mapValues fun _ node => Keyed.sortNames (node.dependencies.filter g.contains)
  nodup := by
    intro id names h
    obtain ⟨⟨key, node⟩, -, heq⟩ := List.mem_map.1 h
    obtain ⟨-, rfl⟩ := Prod.mk.inj heq
    exact Keyed.nodup_of_lt (Keyed.sortNames_lt _)
  mem_iff := by
    intro id names h x
    obtain ⟨⟨key, node⟩, hnode, heq⟩ := List.mem_map.1 h
    obtain ⟨rfl, rfl⟩ := Prod.mk.inj heq
    have hfind : g.find? key = some node := g.sorted.find?_of_mem hnode
    simp [lists_iff, hfind]
  ready_lt := by
    apply Keyed.Sorted.keys_lt
    apply List.Pairwise.filter
    exact g.sorted.mapValues fun _ node => Keyed.sortNames (node.dependencies.filter g.contains)
  mem_ready := by
    intro id
    simp [schedule, Keyed.mem_keys]

namespace Tracks

theorem ready_eq (h : g.Tracks done s) {id : String} (hid : id ∈ Keyed.keys s.pending) :
    g.ready done id = true ↔ id ∈ s.ready := by
  obtain ⟨names, hnames⟩ := Keyed.mem_keys.1 hid
  have hmem := h.mem_iff id names hnames
  rw [ready_iff, h.mem_ready]
  constructor
  · intro hready
    have hnil : names = [] := by
      apply List.eq_nil_iff_forall_not_mem.2
      intro x hx
      obtain ⟨⟨hlist, hcontains⟩, hnot⟩ := (hmem x).1 hx
      exact hnot (hready x hlist hcontains)
    exact hnil ▸ hnames
  · intro hready x hlist hcontains
    by_contra hnot
    exact List.not_mem_nil ((h.mem_iff id [] hready x).2 ⟨⟨hlist, hcontains⟩, hnot⟩)

/-- The plain search finds the first of the ready ids. -/
theorem find?_ready (h : g.Tracks done s) :
    (Keyed.keys s.pending).find? (g.ready done) = s.ready.head? := by
  cases hready : s.ready with
  | nil =>
    apply List.find?_eq_none.2
    intro id hid hfound
    have hmem := (h.ready_eq hid).1 hfound
    rw [hready] at hmem
    exact List.not_mem_nil hmem
  | cons next others =>
    have hnext : next ∈ s.ready := hready ▸ List.mem_cons_self
    have hkey : next ∈ Keyed.keys s.pending := Keyed.mem_keys.2 ⟨[], (h.mem_ready next).1 hnext⟩
    obtain ⟨before, after, hsplit⟩ := List.append_of_mem hkey
    refine List.find?_eq_some_iff_append.2
      ⟨(h.ready_eq hkey).2 hnext, before, after, hsplit, fun id hid => ?_⟩
    -- an id before the least ready one is not ready
    have hlt : id < next := by
      have hkeys := h.sorted.keys_lt
      rw [hsplit, List.pairwise_append] at hkeys
      exact hkeys.2.2 id hid next List.mem_cons_self
    rw [Bool.not_eq_true', Bool.eq_false_iff]
    intro hfound
    have hmem := (h.ready_eq (by simp [hsplit, hid])).1 hfound
    have hleast := h.ready_lt
    rw [hready] at hmem hleast
    rcases List.mem_cons.1 hmem with rfl | hmem
    · exact String.lt_irrefl _ hlt
    · exact String.lt_asymm hlt ((List.pairwise_cons.1 hleast).1 id hmem)

variable {next : String} {others : List String}

theorem mem_pending_release {id : String} {names : List String} :
    (id, names) ∈ (s.release next others).pending ↔
      ∃ old, (id, old) ∈ s.pending ∧ id ≠ next ∧ old.erase next = names := by
  simp only [Schedule.release, Keyed.erase, List.mem_map, List.mem_filter, Prod.exists,
    Prod.mk.injEq, bne_iff_ne]
  constructor
  · rintro ⟨key, old, ⟨hmem, hne⟩, rfl, rfl⟩
    exact ⟨old, hmem, hne, rfl⟩
  · rintro ⟨old, hmem, hne, rfl⟩
    exact ⟨id, old, ⟨hmem, hne⟩, rfl, rfl⟩

theorem keys_release (h : g.Tracks done s) :
    Keyed.keys (s.release next others).pending = (Keyed.keys s.pending).erase next := by
  rw [(Keyed.nodup_of_lt h.sorted.keys_lt).erase_eq_filter, ← Keyed.keys_erase]
  exact Keyed.keys_mapValues (fun _ names => names.erase next) (Keyed.erase next s.pending)

/-- An id waits for nothing after a release when it did not before or waited for the released id
only. -/
theorem mem_ready_release (h : g.Tracks done s) (hready : s.ready = next :: others) (id : String) :
    id ∈ (s.release next others).ready ↔ (id, []) ∈ (s.release next others).pending := by
  have hleast := h.ready_lt
  rw [hready, List.pairwise_cons] at hleast
  have hmem : id ∈ (s.release next others).ready ↔ id ∈ others ∨
      ∃ old, (id, old) ∈ s.pending ∧ next ∈ old ∧ old.erase next = [] ∧ id ≠ next := by
    simp [Schedule.release, Keyed.mem_keys, Keyed.erase, and_assoc]
  rw [hmem, mem_pending_release]
  constructor
  · rintro (hid | ⟨old, hold, -, hnil, hne⟩)
    · have hpending := (h.mem_ready id).1 (hready ▸ List.mem_cons_of_mem next hid)
      exact ⟨[], hpending, (String.ne_of_lt (hleast.1 id hid)).symm, rfl⟩
    · exact ⟨old, hold, hne, hnil⟩
  · rintro ⟨old, hold, hne, hnil⟩
    by_cases hnext : next ∈ old
    · exact .inr ⟨old, hold, hnext, hnil, hne⟩
    · rw [List.erase_of_not_mem hnext] at hnil
      subst hnil
      have hid := (h.mem_ready id).2 hold
      rw [hready] at hid
      exact .inl ((List.mem_cons.1 hid).resolve_left hne)

theorem release (h : g.Tracks done s) (hready : s.ready = next :: others) :
    g.Tracks (next :: done) (s.release next others) where
  sorted := (h.sorted.erase next).mapValues fun _ names => names.erase next
  nodup := by
    intro id names hmem
    obtain ⟨old, hold, -, rfl⟩ := mem_pending_release.1 hmem
    exact (h.nodup id old hold).erase next
  mem_iff := by
    intro id names hmem x
    obtain ⟨old, hold, -, rfl⟩ := mem_pending_release.1 hmem
    rw [(h.nodup id old hold).mem_erase_iff, h.mem_iff id old hold, List.mem_cons, not_or]
    tauto
  ready_lt := Keyed.sortNames_lt _
  mem_ready := h.mem_ready_release hready

theorem run_eq (h : g.Tracks done s) (steps : Nat) :
    s.run steps = g.orderFrom steps done (Keyed.keys s.pending) := by
  induction steps generalizing done s with
  | zero => rfl
  | succ steps ih =>
    rw [orderFrom, h.find?_ready, Schedule.run]
    cases hready : s.ready with
    | nil => rfl
    | cons next others =>
      have hrest := ih (h.release hready)
      rw [h.keys_release] at hrest
      exact congrArg (next :: ·) hrest

end Tracks

theorem topologicalOrder_eq (g : Graph) : g.topologicalOrder = g.orderFrom g.size [] g.ids := by
  have hkeys : Keyed.keys g.schedule.pending = g.ids :=
    Keyed.keys_mapValues
      (fun _ (node : Node) => Keyed.sortNames (node.dependencies.filter g.contains)) g.nodes
  rw [topologicalOrder, g.tracks_schedule.run_eq, hkeys]

end FormulaPipeline.Graph
