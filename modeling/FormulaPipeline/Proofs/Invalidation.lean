import FormulaPipeline.Proofs.Graph.Dirtiness
import Mathlib.Data.List.Chain
import Mathlib.Logic.Function.Iterate

/-!
# Invalidation

What is dirty after an id was made dirty: what was dirty before, and every node from which a chain
of dependencies leads to the id. The same marks come from a loop over a queue: its first id is taken
off, and unless it was taken off before, its node is made dirty and the nodes that list it join the
queue. Only an empty queue stops the loop, and on every graph the queue runs empty.
-/

namespace FormulaPipeline.Graph

open Relation

variable {g : Graph} {id x : String}

/-! ## Chains of dependencies -/

/-- What reaches an id is that id or the start of a chain to it, with nodes in between. -/
theorem reaches_iff_chain : ReflTransGen g.Lists x id ↔ x = id ∨
    ∃ between : List String, (∀ y ∈ between, g.contains y = true) ∧
      (x :: (between ++ [id])).IsChain g.Lists := by
  constructor
  · intro h
    induction h using ReflTransGen.head_induction_on with
    | refl => exact .inl rfl
    | head hlist _ ih =>
      right
      rcases ih with rfl | ⟨between, hnodes, hchain⟩
      · exact ⟨[], by simp, List.isChain_pair.2 hlist⟩
      · refine ⟨_ :: between, List.forall_mem_cons.2 ⟨?_, hnodes⟩,
          List.isChain_cons_cons.2 ⟨hlist, hchain⟩⟩
        cases between with
        | nil => exact (List.isChain_pair.1 hchain).contains
        | cons y rest => exact (List.isChain_cons_cons.1 hchain).1.contains
  · rintro (rfl | ⟨between, -, hchain⟩)
    · exact .refl
    · induction between generalizing x with
      | nil => exact .single (List.isChain_pair.1 hchain)
      | cons y rest ih =>
        obtain ⟨hlist, hrest⟩ := List.isChain_cons_cons.1 hchain
        exact .head hlist (ih hrest)

/-! ## The loop over a queue -/

theorem length_dependents_le (g : Graph) (id : String) : (g.dependents id).length ≤ g.size := by
  rw [dependents, List.length_map]
  exact List.length_filter_le _ _

/-- The graph with some nodes made dirty. -/
def soil (g : Graph) (ids : List String) : Graph :=
  g.mapNodes fun key node => if key ∈ ids then { node with dirty := true } else node

@[simp] theorem pristine_soil (g : Graph) (ids : List String) :
    (g.soil ids).pristine = g.pristine := by
  refine pristine_mapNodes fun key node => ?_
  split <;> rfl

theorem soil_soil (g : Graph) (ids : List String) (id : String) :
    (g.soil ids).soil [id] = g.soil (id :: ids) := by
  rw [soil, soil, soil, mapNodes_mapNodes]
  refine mapNodes_congr fun key node => ?_
  rcases eq_or_ne key id with rfl | hid
  · by_cases hids : key ∈ ids <;> simp [hids]
  · simp [hid]

/-- What a loop over a queue has done: the graph with its marks, the ids that were taken off the
queue, and the queue that is left. -/
structure Marking where
  graph : Graph
  visited : List String
  queue : List String

namespace Marking

def start (g : Graph) (id : String) : Marking := ⟨g, [], [id]⟩

/-- Take an id off the queue. The first time its node is made dirty and its dependents, as they are
in the graph now, join the queue. -/
def round (m : Marking) : Marking :=
  match m.queue with
  | [] => m
  | id :: rest =>
    if id ∈ m.visited then { m with queue := rest }
    else
      { graph := m.graph.soil [id]
        visited := id :: m.visited
        queue := rest ++ (m.graph.soil [id]).dependents id }

theorem round_of_nil {m : Marking} (h : m.queue = []) : m.round = m := by
  rw [round, h]

theorem round_of_visited {m : Marking} {rest : List String} (h : m.queue = id :: rest)
    (hid : id ∈ m.visited) : m.round = { m with queue := rest } := by
  simp only [round, h, if_pos hid]

theorem round_of_new {m : Marking} {rest : List String} (h : m.queue = id :: rest)
    (hid : id ∉ m.visited) : m.round = ⟨m.graph.soil [id], id :: m.visited,
      rest ++ (m.graph.soil [id]).dependents id⟩ := by
  simp only [round, h, if_neg hid]

/-- What every round keeps: the ids on the way are those that reach the first one, and the
dependents of those that were taken off are on the way. -/
structure Sound (g : Graph) (id : String) (m : Marking) : Prop where
  graph_eq : m.graph = g.soil m.visited
  reaches : ∀ x, x ∈ m.visited ∨ x ∈ m.queue → ReflTransGen g.Lists x id
  begun : id ∈ m.visited ∨ id ∈ m.queue
  closed : ∀ b ∈ m.visited, ∀ a, g.Lists a b → a ∈ m.visited ∨ a ∈ m.queue

namespace Sound

variable {m : Marking}

theorem start (g : Graph) (id : String) : Sound g id (start g id) where
  graph_eq := by
    refine eq_of_find? (fun x => ?_) rfl
    rw [soil, find?_mapNodes]
    simp [Marking.start]
  reaches := by
    rintro x (hx | hx)
    · exact (List.not_mem_nil hx).elim
    · obtain rfl := List.mem_singleton.1 hx
      exact .refl
  begun := .inr List.mem_cons_self
  closed b hb := (List.not_mem_nil hb).elim

theorem lists_iff_mem_dependents (hm : Sound g id m) {a b : String} {ids : List String} :
    a ∈ (m.graph.soil ids).dependents b ↔ g.Lists a b := by
  rw [mem_dependents, lists_of_pristine_eq (pristine_soil m.graph ids), hm.graph_eq,
    lists_of_pristine_eq (pristine_soil g m.visited)]

theorem round (hm : Sound g id m) : Sound g id m.round := by
  cases hqueue : m.queue with
  | nil => rwa [round_of_nil hqueue]
  | cons first rest =>
    by_cases hvisited : first ∈ m.visited
    · rw [round_of_visited hqueue hvisited]
      -- what is taken off is still among the visited ids
      have hkept : ∀ x, x ∈ m.visited ∨ x ∈ m.queue ↔ x ∈ m.visited ∨ x ∈ rest := by
        intro x
        rw [hqueue, List.mem_cons]
        constructor
        · rintro (hx | rfl | hx)
          exacts [.inl hx, .inl hvisited, .inr hx]
        · rintro (hx | hx)
          exacts [.inl hx, .inr (.inr hx)]
      exact ⟨hm.graph_eq, fun x hx => hm.reaches x ((hkept x).2 hx), (hkept id).1 hm.begun,
        fun b hb a hlist => (hkept a).1 (hm.closed b hb a hlist)⟩
    · rw [round_of_new hqueue hvisited]
      have hkept : ∀ x, x ∈ m.visited ∨ x ∈ m.queue →
          x ∈ first :: m.visited ∨ x ∈ rest ++ (m.graph.soil [first]).dependents first := by
        intro x
        rw [hqueue, List.mem_cons, List.mem_cons, List.mem_append]
        rintro (hx | hx | hx)
        exacts [.inl (.inr hx), .inl (.inl hx), .inr (.inl hx)]
      have hfirst : ReflTransGen g.Lists first id :=
        hm.reaches first (.inr (hqueue ▸ List.mem_cons_self))
      refine ⟨?_, fun x hx => ?_, hkept id hm.begun, fun b hb a hlist => ?_⟩
      · rw [hm.graph_eq, soil_soil]
      · rcases hx with hx | hx
        · rcases List.mem_cons.1 hx with rfl | hx
          · exact hfirst
          · exact hm.reaches x (.inl hx)
        · rcases List.mem_append.1 hx with hx | hx
          · exact hm.reaches x (.inr (hqueue ▸ List.mem_cons_of_mem _ hx))
          · exact .head (hm.lists_iff_mem_dependents.1 hx) hfirst
      · rcases List.mem_cons.1 hb with rfl | hb
        · exact .inr (List.mem_append_right _ (hm.lists_iff_mem_dependents.2 hlist))
        · exact hkept a (hm.closed b hb a hlist)

/-- With an empty queue the loop has visited what reaches the first id, and the marks are those of
the invalidation. -/
theorem graph_of_nil (hm : Sound g id m) (hqueue : m.queue = []) : m.graph = g.markDirty id := by
  have hon : ∀ x, x ∈ m.visited ∨ x ∈ m.queue ↔ x ∈ m.visited := by simp [hqueue]
  have hvisited : ∀ x, x ∈ m.visited ↔ (g.affected id).contains x = true := by
    intro x
    rw [List.contains_iff_mem, mem_affected]
    refine ⟨fun hx => hm.reaches x (.inl hx), fun hx => ?_⟩
    induction hx using ReflTransGen.head_induction_on with
    | refl => exact (hon id).1 hm.begun
    | head hlist _ ih => exact (hon _).1 (hm.closed _ ih _ hlist)
  rw [hm.graph_eq, soil, markDirty]
  refine mapNodes_congr fun key node => ?_
  simp only [hvisited]

end Sound

/-! ## The queue runs empty -/

/-- The ids that may still be taken off for the first time. -/
def unseen (g : Graph) (id : String) (m : Marking) : Finset String :=
  insert id g.ids.toFinset \ m.visited.toFinset

/-- A number of rounds that empty the queue: each unseen id brings at most all nodes into it. -/
def roundsLeft (g : Graph) (id : String) (m : Marking) : Nat :=
  m.queue.length + g.size * (unseen g id m).card

theorem roundsLeft_start_le (g : Graph) (id : String) :
    roundsLeft g id (start g id) ≤ 1 + g.size * (g.size + 1) := by
  have hcard : (unseen g id (start g id)).card ≤ g.size + 1 :=
    (Finset.card_le_card Finset.sdiff_subset).trans
      ((Finset.card_insert_le _ _).trans (Nat.succ_le_succ g.card_ids_le))
  exact Nat.add_le_add_left (Nat.mul_le_mul_left _ hcard) 1

theorem Sound.roundsLeft_round_lt {m : Marking} (hm : Sound g id m) (hqueue : m.queue ≠ []) :
    roundsLeft g id m.round < roundsLeft g id m := by
  obtain ⟨first, rest, hqueue⟩ := List.exists_cons_of_ne_nil hqueue
  by_cases hvisited : first ∈ m.visited
  · rw [round_of_visited hqueue hvisited]
    simp only [roundsLeft, unseen, hqueue, List.length_cons]
    omega
  · rw [round_of_new hqueue hvisited]
    have hnode : first ∈ insert id g.ids.toFinset := by
      rw [Finset.mem_insert, List.mem_toFinset, ← contains_iff_mem_ids]
      rcases ReflTransGen.cases_head (hm.reaches first (.inr (by simp [hqueue]))) with h | ⟨_, h, -⟩
      · exact .inl h
      · exact .inr h.contains
    have hunseen : unseen g id ⟨m.graph.soil [first], first :: m.visited,
        rest ++ (m.graph.soil [first]).dependents first⟩ = (unseen g id m).erase first := by
      rw [unseen, unseen, List.toFinset_cons, Finset.sdiff_insert]
    have hcard : ((unseen g id m).erase first).card + 1 = (unseen g id m).card := by
      apply Finset.card_erase_add_one
      exact Finset.mem_sdiff.2 ⟨hnode, fun h => hvisited (List.mem_toFinset.1 h)⟩
    have hsize : (m.graph.soil [first]).size = g.size := by
      rw [hm.graph_eq, soil_soil, soil, size_mapNodes]
    have hjoin := length_dependents_le (m.graph.soil [first]) first
    rw [roundsLeft, roundsLeft, hunseen, ← hcard, hqueue, Nat.mul_succ, List.length_append,
      List.length_cons]
    omega

theorem Sound.queue_of_rounds {m : Marking} (hm : Sound g id m) (rounds : Nat)
    (h : roundsLeft g id m ≤ rounds) : Sound g id (Marking.round^[rounds] m) ∧
      (Marking.round^[rounds] m).queue = [] := by
  induction rounds generalizing m with
  | zero =>
    refine ⟨hm, List.length_eq_zero_iff.1 ?_⟩
    exact Nat.eq_zero_of_le_zero ((Nat.le_add_right _ _).trans h)
  | succ rounds ih =>
    cases hqueue : m.queue with
    | nil =>
      rw [Function.iterate_fixed (round_of_nil hqueue)]
      exact ⟨hm, hqueue⟩
    | cons first rest =>
      have hlt := hm.roundsLeft_round_lt (by simp [hqueue])
      exact ih hm.round (by omega)

end Marking

/-- Making an id dirty, whether or not it is a node. The queue runs empty on every graph. Then those
nodes are dirty that were so before, the id itself, and all nodes from which a chain of dependencies
through nodes leads to it. Nothing else of the graph is changed. -/
theorem markDirty_exact (g : Graph) (id : String) :
    (∃ visited, Marking.round^[1 + g.size * (g.size + 1)] (.start g id) =
        ⟨g.markDirty id, visited, []⟩) ∧
      (∀ x, (g.markDirty id).Dirty x ↔ g.Dirty x ∨ (g.contains x = true ∧ (x = id ∨
        ∃ between : List String, (∀ y ∈ between, g.contains y = true) ∧
          (x :: (between ++ [id])).IsChain g.Lists))) ∧
      (∀ x node, g.find? x = some node →
        ∃ dirty, (g.markDirty id).find? x = some { node with dirty := dirty }) ∧
      (g.markDirty id).ids = g.ids ∧ (g.markDirty id).removed = g.removed := by
  refine ⟨?_, fun x => ?_, fun x node hnode => ?_, ids_mapNodes _ _, rfl⟩
  · obtain ⟨hsound, hqueue⟩ :=
      (Marking.Sound.start g id).queue_of_rounds _ (Marking.roundsLeft_start_le g id)
    exact ⟨_, by rw [← hsound.graph_of_nil hqueue, ← hqueue]⟩
  · rw [dirty_markDirty_iff, reaches_iff_chain]
  · rw [find?_markDirty, hnode, Option.map_some]
    split
    · exact ⟨true, rfl⟩
    · exact ⟨node.dirty, rfl⟩

end FormulaPipeline.Graph
