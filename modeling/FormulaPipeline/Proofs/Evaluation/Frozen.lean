import FormulaPipeline.Proofs.Evaluation.Coherence

/-!
# Values in place of nodes

A node whose value may be used again is served from its cache, whatever its pipeline is, so it might
as well be a literal. Evaluations of a graph and of the one in which all such nodes are literals go
in step, and in the latter a cache is right whatever the functions are.
-/

namespace FormulaPipeline

/-- The node with its value as its pipeline, when the value may be used again. -/
def Node.freeze (n : Node) : Node :=
  match n.fresh? with
  | some v => { n with pipeline := [.literal v .null], dependencies := [] }
  | none => n

namespace Node

variable {n : Node}

theorem freeze_of_fresh? {v : Value} (h : n.fresh? = some v) :
    n.freeze = { n with pipeline := [.literal v .null], dependencies := [] } := by
  rw [freeze, h]

theorem freeze_of_not_fresh (h : n.fresh? = none) : n.freeze = n := by
  rw [freeze, h]

theorem fresh?_freeze (n : Node) : n.freeze.fresh? = n.fresh? := by
  cases h : n.fresh? with
  | none => rw [freeze_of_not_fresh h, h]
  | some v =>
    rw [freeze_of_fresh? h, ← h]
    rfl

theorem dirty_freeze (n : Node) : n.freeze.dirty = n.dirty := by
  cases h : n.fresh? with
  | none => rw [freeze_of_not_fresh h]
  | some v => rw [freeze_of_fresh? h]

end Node

namespace Graph

variable {g : Graph}

/-- The graph in which every node that would be served from its cache is a literal. -/
def freeze (g : Graph) : Graph := g.mapNodes fun _ node => node.freeze

@[simp] theorem find?_freeze (g : Graph) (id : String) :
    g.freeze.find? id = (g.find? id).map Node.freeze :=
  find?_mapNodes g _ id

@[simp] theorem contains_freeze (g : Graph) (id : String) :
    g.freeze.contains id = g.contains id :=
  contains_mapNodes g _ id

/-- A node of the frozen graph is a literal or as it was. -/
theorem find?_freeze_cases {id : String} {node : Node} (h : g.freeze.find? id = some node) :
    (∃ old v, g.find? id = some old ∧ old.fresh? = some v ∧
        node = { old with pipeline := [.literal v .null], dependencies := [] }) ∨
      g.find? id = some node ∧ node.fresh? = none := by
  rw [find?_freeze, Option.map_eq_some_iff] at h
  obtain ⟨old, hold, rfl⟩ := h
  cases hfresh : old.fresh? with
  | some v => exact .inl ⟨old, v, hold, hfresh, Node.freeze_of_fresh? hfresh⟩
  | none =>
    rw [Node.freeze_of_not_fresh hfresh]
    exact .inr ⟨hold, hfresh⟩

theorem lists_of_lists_freeze {a b : String} (h : g.freeze.Lists a b) : g.Lists a b := by
  obtain ⟨node, hnode, hb⟩ := lists_iff.1 h
  obtain ⟨old, v, -, -, rfl⟩ | ⟨hnode, -⟩ := find?_freeze_cases hnode
  · cases hb
  · exact lists_iff.2 ⟨node, hnode, hb⟩

theorem Covered.freeze (h : g.Covered) : g.freeze.Covered := by
  intro id node hnode x hx hcontains
  rw [contains_freeze] at hcontains
  obtain ⟨old, v, -, -, rfl⟩ | ⟨hnode, -⟩ := find?_freeze_cases hnode
  · cases hx
  · exact h id node hnode x hx hcontains

theorem ChainsWithin.freeze {n : Nat} (h : g.ChainsWithin n) : g.freeze.ChainsWithin n := by
  intro chain hnodes hchain
  simp only [contains_freeze] at hnodes
  exact h chain hnodes (hchain.imp fun _ _ => lists_of_lists_freeze)

/-- A node leaves room for itself. -/
theorem ChainsWithin.pos {n : Nat} (h : g.ChainsWithin n) {id : String} {node : Node}
    (hnode : g.find? id = some node) : 0 < n :=
  h [id] (List.forall_mem_singleton.2 (contains_iff.2 ⟨node, hnode⟩)) (.singleton id)

end Graph

namespace Environment

variable {env : Environment} {g : Graph} {F : String → Prop} {s t : Session}

theorem meaning_freeze_of_fresh {n : Nat} (hn : 0 < n) {id : String} {node : Node} {v : Value}
    (hnode : g.find? id = some node) (hfresh : node.fresh? = some v) :
    env.meaning g.freeze n id = .ok v := by
  obtain ⟨n, rfl⟩ := Nat.exists_eq_add_of_lt hn
  have hfrozen : g.freeze.find? id = some node.freeze := by rw [Graph.find?_freeze, hnode]; rfl
  rw [meaning_succ _ hfrozen, Node.freeze_of_fresh? hfresh]
  rfl

theorem coherent_freeze (env : Environment) (hchains : g.ChainsWithin env.config.maxDepth) :
    g.freeze.Coherent env := by
  intro id node v hnode hfresh
  rw [Graph.find?_freeze, Option.map_eq_some_iff] at hnode
  obtain ⟨old, hold, rfl⟩ := hnode
  rw [Node.fresh?_freeze] at hfresh
  exact meaning_freeze_of_fresh (hchains.pos hold) hold hfresh

section Meanings

variable (hpure : env.config.functions.Pure) (hcovered : g.Covered)
include hpure hcovered

/-- Where there is room for all chains, a node is its pipeline run over the meanings of others. -/
theorem meaning_eq_run {n : Nat} (hchains : g.ChainsWithin n) {id : String} {node : Node}
    (hnode : g.find? id = some node) :
    env.meaning g n id = (env.run (fun x s => (env.meaning g n x, s)) node.pipeline
      env.context.value (Session.start { graph := g })).1 := by
  rw [← meaning_succ_of_shallow hpure hcovered n (hchains.shallow id), meaning_succ _ hnode]

/-- Literals in place of nodes change no meaning as long as they are the meanings of these nodes. -/
theorem meaning_freeze (hchains : g.ChainsWithin env.config.maxDepth) {D : String → Prop}
    (hclosed : ∀ x y, D x → g.Lists x y → D y)
    (hfresh : ∀ x node v, D x → g.find? x = some node → node.fresh? = some v →
      env.meaning g env.config.maxDepth x = .ok v) {x : String} (hx : D x) :
    env.meaning g.freeze env.config.maxDepth x = env.meaning g env.config.maxDepth x := by
  have hmissing : ∀ y, g.contains y = false →
      env.meaning g.freeze env.config.maxDepth y = env.meaning g env.config.maxDepth y := by
    intro y hy
    rw [meaning_of_find?_none _ (Graph.find?_eq_none_iff.2 hy),
      meaning_of_find?_none _ (Graph.find?_eq_none_iff.2 ((g.contains_freeze y).trans hy))]
  -- by induction on the length of the chains of nodes that start at the node
  have hshallow := hchains.shallow x
  generalize hn : env.config.maxDepth = n at hshallow
  rw [← hn]
  clear hn
  induction n generalizing x with
  | zero => exact hmissing x hshallow
  | succ n ih =>
    cases hnode : g.find? x with
    | none => exact hmissing x (Graph.find?_eq_none_iff.1 hnode)
    | some node =>
      have hfrozen : g.freeze.find? x = some node.freeze := by
        rw [Graph.find?_freeze, hnode]
        rfl
      cases hvalue : node.fresh? with
      | some v =>
        rw [meaning_freeze_of_fresh (hchains.pos hnode) hnode hvalue,
          hfresh x node v hx hnode hvalue]
      | none =>
        rw [Node.freeze_of_not_fresh hvalue] at hfrozen
        rw [meaning_eq_run hpure hcovered hchains hnode,
          meaning_eq_run hpure hcovered.freeze hchains.freeze hfrozen]
        refine run_meaning_congr (D := fun y => D y ∧ g.Shallow n y ∨ g.contains y = false) hpure
          (fun y _ => g.contains_freeze y) (fun _ _ => rfl) ?_ fun y hy => ?_
        · rintro y (⟨hy, hroom⟩ | hy)
          · exact ih hy hroom
          · exact hmissing y hy
        · rcases hcovered.lists_or hnode hy with hlist | hnot
          · exact .inl ⟨hclosed x y hx hlist, hshallow y hlist⟩
          · exact .inr hnot

end Meanings

/-! ## Evaluations in step -/

/-- Two sessions that differ in the nodes with some ids only: in the second one these are literals,
and they are served from their caches in both. -/
structure Frozen (F : String → Prop) (s t : Session) : Prop where
  same : ∀ id, ¬F id → t.graph.find? id = s.graph.find? id
  literal : ∀ id, F id → ∃ node v, s.graph.find? id = some node ∧ node.fresh? = some v ∧
    t.graph.find? id = some node.freeze
  removed : t.graph.removed = s.graph.removed
  calls : t.memory.calls = s.memory.calls
  outcomes : t.outcomes = s.outcomes

namespace Frozen

theorem start (m : Memory) : Frozen (fun id => ∃ node v, m.graph.find? id = some node ∧
    node.fresh? = some v) (Session.start m) (Session.start { m with graph := m.graph.freeze }) where
  same id hid := by
    rw [Session.graph_start, Session.graph_start, Graph.find?_freeze]
    cases hnode : m.graph.find? id with
    | none => rfl
    | some node =>
      have hfresh : node.fresh? = none :=
        Option.eq_none_iff_forall_ne_some.2 fun v hv => hid ⟨node, v, hnode, hv⟩
      rw [Option.map_some, Node.freeze_of_not_fresh hfresh]
  literal := by
    rintro id ⟨node, v, hnode, hfresh⟩
    refine ⟨node, v, hnode, hfresh, ?_⟩
    rw [Session.graph_start, Graph.find?_freeze, hnode]
    rfl
  removed := rfl
  calls := rfl
  outcomes := rfl

theorem warn (h : Frozen F s t) (text : String) : Frozen F (s.warn text) (t.warn text) :=
  ⟨h.same, h.literal, h.removed, h.calls, h.outcomes⟩

theorem enter (h : Frozen F s t) (chain : List String) : Frozen F (s.enter chain) (t.enter chain) :=
  ⟨h.same, h.literal, h.removed, h.calls, h.outcomes⟩

theorem called (h : Frozen F s t) (name : String) : Frozen F (s.called name) (t.called name) where
  same := h.same
  literal := h.literal
  removed := h.removed
  calls := by simp only [Session.called, Memory.called, Memory.callCount, h.calls]
  outcomes := h.outcomes

theorem finish (h : Frozen F s t) {id : String} (hid : ¬F id) (outcome : Outcome) :
    Frozen F (s.finish id outcome) (t.finish id outcome) where
  same x hx := by
    simp only [Session.graph_finish, Graph.store, Graph.find?_mapNodes, h.same x hx]
  literal x hx := by
    obtain ⟨node, v, hs, hfresh, ht⟩ := h.literal x hx
    have hne : x ≠ id := fun heq => hid (heq ▸ hx)
    exact ⟨node, v, by simp [Graph.store, hs, hne], hfresh, by simp [Graph.store, ht, hne]⟩
  removed := h.removed
  calls := h.calls
  outcomes := by simp only [Session.finish, h.outcomes]

theorem outcome?_eq (h : Frozen F s t) (id : String) : t.outcome? id = s.outcome? id := by
  rw [Session.outcome?, Session.outcome?, h.outcomes]

theorem contains_eq (h : Frozen F s t) (id : String) :
    s.graph.contains id = t.graph.contains id := by
  rw [← Graph.isSome_find?, ← Graph.isSome_find?]
  by_cases hid : F id
  · obtain ⟨node, v, hs, -, ht⟩ := h.literal id hid
    rw [hs, ht]
    rfl
  · rw [h.same id hid]

theorem settled?_eq (h : Frozen F s t) (active : List String) (id : String) :
    settled? active id t = settled? active id s := by
  unfold settled?
  by_cases hid : F id
  · obtain ⟨node, v, hs, hfresh, ht⟩ := h.literal id hid
    simp only [hs, ht, Node.fresh?_freeze, hfresh]
  · rw [h.same id hid, h.outcome?_eq]

theorem isStale_eq (h : Frozen F s t) (id : String) : isStale t id = isStale s id := by
  unfold isStale
  rw [h.outcome?_eq]
  by_cases hid : F id
  · obtain ⟨node, v, hs, -, ht⟩ := h.literal id hid
    simp only [hs, ht, Option.any_some, Node.dirty_freeze]
  · rw [h.same id hid]

/-- A node that has to be run is the same in both sessions. -/
theorem of_not_settled (h : Frozen F s t) {active : List String} {id : String}
    (hsettled : settled? active id s = none) :
    ¬F id ∧ ∃ node, s.graph.find? id = some node ∧ t.graph.find? id = some node := by
  have hid : ¬F id := by
    intro hid
    obtain ⟨node, v, hs, hfresh, -⟩ := h.literal id hid
    simp [settled?, hs, hfresh] at hsettled
  cases hs : s.graph.find? id with
  | none => simp [settled?, hs] at hsettled
  | some node => exact ⟨hid, node, rfl, by rw [h.same id hid, hs]⟩

theorem lockstep {visit visit' : Visit}
    (hvisit : ∀ id s t, Frozen F s t → Agree (Frozen F) (visit id s) (visit' id t)) :
    env.Lockstep (fun _ => True) (Frozen F) visit visit' where
  visited _ h := hvisit _ _ _ h
  contains _ h := h.contains_eq _
  wasRemoved _ h := by rw [Graph.wasRemoved, Graph.wasRemoved, h.removed]
  warned text h := h.warn text
  called := by
    intro s t name args h
    have hcount : t.memory.callCount name = s.memory.callCount name := by
      rw [Memory.callCount, Memory.callCount, h.calls]
    unfold call
    cases env.config.functions.get? name with
    | some f => exact ⟨by rw [hcount], h.called name⟩
    | none => cases Builtin.ofName? name <;> exact ⟨rfl, h⟩

theorem refresh (visit : String → Session → Evaluation × Session)
    (hvisit : ∀ id s t, Frozen F s t → Frozen F (visit id s).2 (visit id t).2)
    (names : List String) (h : Frozen F s t) :
    Frozen F (refresh visit names s) (refresh visit names t) := by
  induction names generalizing s t with
  | nil => exact h
  | cons id rest ih =>
    rw [Environment.refresh, Environment.refresh, h.isStale_eq]
    refine ih ?_
    split
    · exact hvisit id s t h
    · exact h

theorem node (env : Environment) (h : Frozen F s t) (depth : Nat) (active : List String)
    (id : String) :
    Agree (Frozen F)
      ((env.node depth active id s).1.outcome, (env.node depth active id s).2)
      ((env.node depth active id t).1.outcome, (env.node depth active id t).2) := by
  induction depth generalizing active id s t with
  | zero =>
    rw [Environment.node, Environment.node, h.settled?_eq]
    cases settled? active id s <;> exact ⟨rfl, h⟩
  | succ depth ih =>
    rw [Environment.node, Environment.node, h.settled?_eq]
    cases hsettled : settled? active id s with
    | some answer => exact ⟨rfl, h⟩
    | none =>
      obtain ⟨hid, node, hs, ht⟩ := h.of_not_settled hsettled
      have hready := (h.enter (active ++ [id])).refresh (env.node depth (active ++ [id]))
        (fun x _ _ h => (ih h _ x).2) node.dependencies
      have L := @lockstep env F _ _ fun x _ _ h => ih h (active ++ [id]) x
      have hrun := L.run node.pipeline env.context.value (fun _ _ => trivial) hready
      have hleft := env.enter_eq_run (env.node depth (active ++ [id]))
        (s := s.enter (active ++ [id])) hs
      have hright := env.enter_eq_run (env.node depth (active ++ [id]))
        (s := t.enter (active ++ [id])) ht
      simp only at hleft hright ⊢
      rw [hleft, hright, ← hrun.1]
      exact ⟨rfl, hrun.2.finish hid _⟩

end Frozen

end Environment

end FormulaPipeline
