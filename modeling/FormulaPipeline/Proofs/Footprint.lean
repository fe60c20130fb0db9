import FormulaPipeline.Proofs.Evaluation.Log
import FormulaPipeline.Proofs.Evaluation.Stack
import FormulaPipeline.Proofs.Graph.Dirtiness

/-!
# The footprint of an evaluation

A call that evaluates a node changes outcomes and marks only, and only those of the nodes that it
enters. It gets to them from the evaluated node, from each entered node to what it lists or looks
up, and it enters no node that has a value to be used again. Nothing is assumed about the graph:
nodes may refer to each other in a circle or to names that are no nodes.
-/

namespace FormulaPipeline

open Relation

/-- A node lists an id, or a source in its pipeline looks the id up. -/
def Graph.RefersTo (g : Graph) (a b : String) : Prop :=
  ∃ node, g.find? a = some node ∧ (b ∈ node.dependencies ∨ b ∈ node.pipeline.targets)

/-- The node after a run of its pipeline. -/
def Node.settle (n : Node) (outcome : Outcome) : Node :=
  { n with outcome := outcome, dirty := false, evaluated := true }

theorem Node.fresh?_eq_some {n : Node} (hclean : n.dirty = false)
    (hvalue : n.cached.isNull = false) : n.fresh? = some n.cached := by
  simp [fresh?, hclean, hvalue]

theorem Graph.find?_store (g : Graph) (id x : String) (outcome : Outcome) :
    (g.store id outcome).find? x =
      (g.find? x).map fun node => if x = id then node.settle outcome else node :=
  find?_mapNodes g _ x

namespace Session

/-- The call has entered a node. -/
def Entered (s : Session) (id : String) : Prop := ∃ chain ∈ s.entered, chain.getLast? = some id

/-- The way from an entered node to an id that the node refers to. -/
def Follows (g : Graph) (s : Session) (a b : String) : Prop := s.Entered a ∧ g.RefersTo a b

variable {s : Session}

theorem Entered.enter {x : String} (h : s.Entered x) (chain : List String) :
    (s.enter chain).Entered x := by
  obtain ⟨old, hold, hlast⟩ := h
  exact ⟨old, List.mem_cons_of_mem _ hold, hlast⟩

theorem entered_enter {active : List String} {id x : String} :
    (s.enter (active ++ [id])).Entered x ↔ x = id ∨ s.Entered x := by
  simp [Entered, Session.enter, eq_comm]

end Session

namespace Environment

/-- An outcome of a node is what its pipeline ended with when the call had entered the node. -/
def Gave (env : Environment) (s : Session) (id : String) (node : Node) (outcome : Outcome) : Prop :=
  ∃ chain ∈ s.entered, chain.getLast? = some id ∧
    ∃ ready, (env.run (env.visitOn chain) node.pipeline env.context.value ready).1 = outcome

/-- A session of a call that began with a graph and the evaluation of `root`. -/
structure Footprint (env : Environment) (g : Graph) (root : String) (s : Session) : Prop where
  untouched : ∀ x, s.outcome? x = none → s.graph.find? x = g.find? x
  settled : ∀ x outcome, s.outcome? x = some outcome → ∃ node, g.find? x = some node ∧
    node.fresh? = none ∧ s.graph.find? x = some (node.settle outcome) ∧ env.Gave s x node outcome
  reached : ∀ x, s.Entered x → ReflTransGen (s.Follows g) root x

namespace Footprint

variable {env : Environment} {g : Graph} {root : String} {s : Session}

theorem start {m : Memory} : env.Footprint m.graph root (Session.start m) where
  untouched x _ := rfl
  settled x outcome h := by simp at h
  reached := by
    rintro x ⟨chain, hchain, -⟩
    simp [Session.start] at hchain

theorem warn (hs : env.Footprint g root s) (text : String) : env.Footprint g root (s.warn text) :=
  ⟨hs.untouched, hs.settled, hs.reached⟩

theorem called (hs : env.Footprint g root s) (name : String) :
    env.Footprint g root (s.called name) :=
  ⟨hs.untouched, hs.settled, hs.reached⟩

/-- A node that is entered is reached from the root. -/
theorem enter (hs : env.Footprint g root s) {active : List String} {id : String}
    (hid : ReflTransGen (s.Follows g) root id) :
    env.Footprint g root (s.enter (active ++ [id])) where
  untouched := hs.untouched
  settled := by
    intro x outcome hx
    obtain ⟨node, hnode, hfresh, hnow, chain, hchain, hgave⟩ := hs.settled x outcome hx
    exact ⟨node, hnode, hfresh, hnow, chain, List.mem_cons_of_mem _ hchain, hgave⟩
  reached := by
    have hmono : ∀ x, ReflTransGen (s.Follows g) root x →
        ReflTransGen ((s.enter (active ++ [id])).Follows g) root x := fun x hx =>
      ReflTransGen.mono (fun a b (h : s.Follows g a b) => ⟨h.1.enter _, h.2⟩) _ _ hx
    intro x hx
    rcases Session.entered_enter.1 hx with rfl | hx
    · exact hmono x hid
    · exact hmono x (hs.reached x hx)

/-- A node may be left with what its pipeline gave, if it had no value to be used again. -/
theorem finish (hs : env.Footprint g root s) {id : String} {node : Node} {outcome : Outcome}
    (hnode : g.find? id = some node) (hfresh : node.fresh? = none)
    (hgave : env.Gave s id node outcome) : env.Footprint g root (s.finish id outcome) where
  untouched := by
    intro x hx
    rw [Session.outcome?_finish] at hx
    split at hx
    · simp at hx
    · rename_i hne
      rw [Session.graph_finish, Graph.find?_store, hs.untouched x hx]
      simp [show x ≠ id from fun h => hne h.symm]
  settled := by
    intro x o hx
    rw [Session.outcome?_finish] at hx
    rw [Session.graph_finish, Graph.find?_store]
    split at hx
    · rename_i heq
      subst heq
      obtain rfl := Option.some.inj hx
      refine ⟨node, hnode, hfresh, ?_, hgave⟩
      -- an earlier outcome of the node is replaced
      cases hknown : s.outcome? id with
      | none => simp [hs.untouched id hknown, hnode]
      | some old =>
        obtain ⟨node', hnode', -, hnow, -⟩ := hs.settled id old hknown
        obtain rfl : node' = node := Option.some.inj (hnode'.symm.trans hnode)
        simp [hnow, Node.settle]
    · rename_i hne
      obtain ⟨node', hnode', hfresh', hnow, hgave'⟩ := hs.settled x o hx
      refine ⟨node', hnode', hfresh', ?_, hgave'⟩
      simp [hnow, show x ≠ id from fun h => hne h.symm]
  reached := hs.reached

/-- Entering a node keeps the footprint when visits of what is reached keep it. As long as the node
is being evaluated it stays entered, so what it refers to is reached. -/
theorem run {chain : List String} {id : String} {node : Node}
    {visit : String → Session → Evaluation × Session} (hlast : chain.getLast? = some id)
    (hchain : chain ∈ s.entered) (hnow : s.graph.find? id = some node)
    (hnode : g.find? id = some node) (hfresh : node.fresh? = none)
    (hvisitOn : env.visitOn chain = fun x t => ((visit x t).1.outcome, (visit x t).2))
    (hkept : ∀ x t, chain ∈ t.entered → chain ∈ (visit x t).2.entered)
    (hvisit : ∀ x t, env.Footprint g root t → ReflTransGen (t.Follows g) root x →
      env.Footprint g root (visit x t).2)
    (hs : env.Footprint g root s) : env.Footprint g root (env.enter visit id s).2 := by
  let I : Session → Prop := fun t => env.Footprint g root t ∧ chain ∈ t.entered
  have hrefers : ∀ x, x ∈ node.dependencies ∨ x ∈ node.pipeline.targets → ∀ t, I t →
      I (visit x t).2 := by
    intro x hx t ht
    have hentered : t.Entered id := ⟨chain, ht.2, hlast⟩
    have hreached := (ht.1.reached id hentered).tail ⟨hentered, node, hnode, hx⟩
    exact ⟨hvisit x t ht.1 hreached, hkept x t ht.2⟩
  have hready : I (refresh visit node.dependencies s) :=
    refresh_induction node.dependencies (fun x hx => hrefers x (.inl hx)) ⟨hs, hchain⟩
  have hrun : I (env.run (env.visitOn chain) node.pipeline env.context.value
      (refresh visit node.dependencies s)).2 := by
    rw [hvisitOn]
    exact env.run_targets_induction (I := I) (fun x hx => hrefers x (.inr hx))
      (fun t text ht => ⟨ht.1.warn text, ht.2⟩) (fun t name ht => ⟨ht.1.called name, ht.2⟩)
      _ hready
  have henter := congrArg Prod.snd (env.enter_eq_run visit hnow)
  dsimp only at henter
  rw [henter, ← hvisitOn]
  exact hrun.1.finish hnode hfresh ⟨chain, hrun.2, hlast, _, rfl⟩

/-- A visit of an id keeps the footprint, provided that the id is reached when the visit begins. -/
theorem node (depth : Nat) {active : List String}
    (hdepth : active.length + depth = env.config.maxDepth) {id : String}
    (hs : env.Footprint g root s) (hid : ReflTransGen (s.Follows g) root id) :
    env.Footprint g root (env.node depth active id s).2 := by
  induction depth generalizing active id s with
  | zero =>
    rw [Environment.node]
    cases settled? active id s <;> exact hs
  | succ depth ih =>
    rw [Environment.node]
    cases hsettled : settled? active id s with
    | some answer => exact hs
    | none =>
      obtain ⟨node, hnow, hfresh, hunknown, -⟩ := settled?_eq_none_iff.1 hsettled
      have hnode : g.find? id = some node := (hs.untouched id hunknown).symm.trans hnow
      have hdepth' : (active ++ [id]).length + depth = env.config.maxDepth := by
        rw [List.length_append, List.length_singleton]
        omega
      have hkept : Kept fun t => active ++ [id] ∈ t.entered :=
        ⟨fun _ h => h, fun _ h => h, fun _ h => List.mem_cons_of_mem _ h, fun _ _ h => h⟩
      refine (hs.enter hid).run List.getLast?_concat List.mem_cons_self hnow hnode hfresh ?_
        (fun x t ht => hkept.node env depth _ x ht) fun x t ht hx => ih hdepth' ht hx
      funext x t
      rw [visitOn, show env.config.maxDepth - (active ++ [id]).length = depth by omega]

theorem not_known_of_fresh (hs : env.Footprint g root s) {x : String} {node : Node} {v : Value}
    (hnode : g.find? x = some node) (hfresh : node.fresh? = some v) : s.outcome? x = none := by
  cases hknown : s.outcome? x with
  | none => rfl
  | some outcome =>
    obtain ⟨node', hnode', hstale, -⟩ := hs.settled x outcome hknown
    obtain rfl : node' = node := Option.some.inj (hnode'.symm.trans hnode)
    simp [hfresh] at hstale

theorem dirty (hs : env.Footprint g root s) {x : String} (h : s.graph.Dirty x) : g.Dirty x := by
  obtain ⟨now, hnow, hdirty⟩ := h
  cases hknown : s.outcome? x with
  | none => exact ⟨now, hs.untouched x hknown ▸ hnow, hdirty⟩
  | some outcome =>
    obtain ⟨node, -, -, hsettled, -⟩ := hs.settled x outcome hknown
    obtain rfl := Option.some.inj (hnow.symm.trans hsettled)
    simp [Node.settle] at hdirty

theorem entered_of_known (hs : env.Footprint g root s) {x : String} {outcome : Outcome}
    (h : s.outcome? x = some outcome) : s.Entered x := by
  obtain ⟨_, -, -, -, chain, hchain, hlast, -⟩ := hs.settled x outcome h
  exact ⟨chain, hchain, hlast⟩

end Footprint

/-- What a call that evaluates an id has done to a graph when it ends. -/
structure Framed (env : Environment) (g : Graph) (id : String) (last : Session) : Prop where
  ids_eq : last.graph.ids = g.ids
  removed_eq : last.graph.removed = g.removed
  /-- All that nodes were defined with stays. -/
  defined : ∀ x node, g.find? x = some node → ∃ outcome dirty evaluated, last.graph.find? x =
    some { node with outcome := outcome, dirty := dirty, evaluated := evaluated }
  dirty : ∀ x, last.graph.Dirty x → g.Dirty x
  /-- What entered nodes do not lead to from the evaluated id stays as it was. -/
  unreached : ∀ x, ¬ReflTransGen (fun a b => last.Entered a ∧ g.RefersTo a b) id x →
    last.graph.find? x = g.find? x
  cached : ∀ x node, g.find? x = some node → node.dirty = false → node.cached.isNull = false →
    last.graph.find? x = some node
  /-- What the call does not enter stays as it was. -/
  unentered : ∀ x, ¬last.Entered x → last.graph.find? x = g.find? x
  /-- An entered node had no value to be used again. It ends clean, with the error that its run gave
  and no value, or with the value that its run gave and no error. -/
  entered : ∀ x, last.Entered x → ∃ node now, g.find? x = some node ∧ node.fresh? = none ∧
    last.graph.find? x = some now ∧ now.dirty = false ∧
    ((∃ e, env.Gave last x node (.error e) ∧ now.cached = .null ∧ now.lastError? = some e) ∨
      ∃ v, env.Gave last x node (.ok v) ∧ now.cached = v ∧ now.lastError? = none)

theorem framed_node (env : Environment) (m : Memory) (id : String) :
    env.Framed m.graph id (env.node env.config.maxDepth [] id (.start m)).2 := by
  have hstart : env.Footprint m.graph id (Session.start m) := .start
  have hfoot : env.Footprint m.graph id (env.node env.config.maxDepth [] id (.start m)).2 :=
    hstart.node env.config.maxDepth (Nat.zero_add _) .refl
  have hlogged : env.Logged [] (Session.start m) := .start m
  have hlog := hlogged.node env.config.maxDepth List.nodup_nil (Nat.zero_add _) id
  have hpristine : (env.node env.config.maxDepth [] id (.start m)).2.graph.pristine =
      m.graph.pristine := pristine_evaluateNode env.config env.context m id
  generalize (env.node env.config.maxDepth [] id (.start m)).2 = last at hfoot hlog hpristine ⊢
  have hunentered : ∀ x, ¬last.Entered x → last.graph.find? x = m.graph.find? x := by
    intro x hx
    apply hfoot.untouched
    by_contra hknown
    obtain ⟨outcome, hknown⟩ := Option.ne_none_iff_exists'.1 hknown
    exact hx (hfoot.entered_of_known hknown)
  have hremoved : last.graph.pristine.removed = m.graph.pristine.removed := by rw [hpristine]
  refine ⟨Graph.ids_of_pristine_eq hpristine, hremoved,
    fun x node hnode => ?_, fun x => hfoot.dirty, fun x hx => ?_,
    fun x node hnode hclean hvalue => ?_, hunentered, ?_⟩
  · cases hknown : last.outcome? x with
    | none => exact ⟨_, _, _, (hfoot.untouched x hknown).trans hnode⟩
    | some outcome =>
      obtain ⟨node', hnode', -, hnow, -⟩ := hfoot.settled x outcome hknown
      obtain rfl : node' = node := Option.some.inj (hnode'.symm.trans hnode)
      exact ⟨_, _, _, hnow⟩
  · exact hunentered x fun hentered => hx (hfoot.reached x hentered)
  · have hunknown := hfoot.not_known_of_fresh hnode (Node.fresh?_eq_some hclean hvalue)
    exact (hfoot.untouched x hunknown).trans hnode
  · rintro x ⟨chain, hchain, hx⟩
    -- nothing is being evaluated any more, so the outcome of the node is known
    obtain ⟨y, hy, -, hseen⟩ := hlog.seen chain hchain
    obtain rfl : y = x := Option.some.inj (hy.symm.trans hx)
    have hknown := hseen.resolve_left List.not_mem_nil
    obtain ⟨outcome, hknown⟩ := Option.isSome_iff_exists.1 hknown
    obtain ⟨node, hnode, hfresh, hnow, hgave⟩ := hfoot.settled y outcome hknown
    refine ⟨node, _, hnode, hfresh, hnow, rfl, ?_⟩
    cases outcome with
    | error e => exact .inl ⟨e, hgave, rfl, rfl⟩
    | ok v => exact .inr ⟨v, hgave, rfl, rfl⟩

end Environment

/-- The frame of an evaluation of a node, however it ends. When the node has a value to be used
again it is given at once, and nothing at all is changed. -/
theorem evaluateNode_frame (config : Config) (context : Context) (m : Memory) (id : String) :
    let env : Environment := ⟨config, context⟩
    let call := env.node config.maxDepth [] id (Session.start m)
    evaluateNode config context m id = (call.1, call.2.memory) ∧
      env.Framed m.graph id call.2 ∧
      ∀ node, m.graph.find? id = some node → node.dirty = false → node.cached.isNull = false →
        evaluateNode config context m id =
          ({ outcome := .ok node.cached, steps := [], warnings := [], fromCache := true }, m) := by
  intro env call
  refine ⟨rfl, env.framed_node m id, fun node hnode hclean hvalue => ?_⟩
  have hsettled : Environment.settled? [] id (Session.start m) =
      some { outcome := .ok node.cached, fromCache := true } := by
    simp only [Environment.settled?, Session.graph_start, hnode,
      Node.fresh?_eq_some hclean hvalue]
  rw [evaluateNode, Environment.node_of_settled hsettled]
  rfl

end FormulaPipeline
