import FormulaPipeline.Proofs.Evaluation.Meaning
import FormulaPipeline.Proofs.Graph.Dirtiness
import FormulaPipeline.Proofs.History

/-!
# Dirtiness is closed downstream

Between operations every node that lists a dirty node is dirty, provided that definitions list what
they look up and there is room for the chains of nodes. Nothing is assumed about functions, about
what the source knows, or about the contexts of the evaluations.

Within an evaluation a node is entered with dirty dependencies, but it becomes clean only at its
end. By then its dependencies have been visited, and what has been visited in a call stays clean.
-/

namespace FormulaPipeline

open Relation

/-! ## Within a call -/

namespace Environment

/-- A session over the definitions of a graph, closed downstream, in which the nodes that this call
knows are clean. -/
structure Swept (g : Graph) (s : Session) : Prop where
  pristine : s.graph.pristine = g.pristine
  closed : s.graph.DirtyClosed
  known : ∀ id, (s.outcome? id).isSome → ¬s.graph.Dirty id

namespace Swept

variable {g : Graph} {s : Session}

theorem start {m : Memory} (h : m.graph.DirtyClosed) : Swept m.graph (Session.start m) where
  pristine := rfl
  closed := h
  known id h := by simp at h

theorem warn (hs : Swept g s) (text : String) : Swept g (s.warn text) where
  pristine := hs.pristine
  closed := hs.closed
  known := hs.known

theorem called (hs : Swept g s) (name : String) : Swept g (s.called name) where
  pristine := hs.pristine
  closed := hs.closed
  known := hs.known

theorem enter (hs : Swept g s) (chain : List String) : Swept g (s.enter chain) where
  pristine := hs.pristine
  closed := hs.closed
  known := hs.known

theorem lists_eq (hs : Swept g s) : s.graph.Lists = g.Lists :=
  Graph.lists_of_pristine_eq hs.pristine

theorem finish (hs : Swept g s) {id : String} (outcome : Outcome)
    (hclean : ∀ b, g.Lists id b → ¬s.graph.Dirty b) : Swept g (s.finish id outcome) where
  pristine := by simp [hs.pristine]
  closed := by
    apply hs.closed.store
    intro b hlist
    rw [hs.lists_eq] at hlist
    exact hclean b hlist
  known := by
    intro x hknown hdirty
    obtain ⟨hold, hne⟩ := Graph.dirty_store_iff.1 hdirty
    rw [Session.outcome?_finish, if_neg fun h => hne h.symm] at hknown
    exact hs.known x hknown hold

/-- An id that is not stale is clean, or it is known in this call and therefore clean. -/
theorem not_dirty_of_not_stale (hs : Swept g s) {id : String} (hstale : ¬isStale s id = true) :
    ¬s.graph.Dirty id := by
  intro hdirty
  have hmarked : (s.graph.find? id).any (·.dirty) = true := Graph.dirty_iff.1 hdirty
  have hknown : (s.outcome? id).isSome = true := by
    cases hout : s.outcome? id with
    | none => simp [isStale, hmarked, hout] at hstale
    | some outcome => rfl
  exact hs.known id hknown hdirty

end Swept

/-- What is dirty after a visit of an id was dirty before, and it is not that id. -/
def Cleans (g : Graph) (visit : String → Session → Evaluation × Session) (id : String) : Prop :=
  ∀ s, Swept g s → Swept g (visit id s).2 ∧
    ∀ x, (visit id s).2.graph.Dirty x → s.graph.Dirty x ∧ x ≠ id

section Steps

variable {env : Environment} {g : Graph} {visit : String → Session → Evaluation × Session}

theorem refresh_cleans {names : List String} (hvisit : ∀ id ∈ names, Cleans g visit id)
    {s : Session} (hs : Swept g s) : Swept g (refresh visit names s) ∧
      ∀ x, (refresh visit names s).graph.Dirty x → s.graph.Dirty x ∧ x ∉ names := by
  induction names generalizing s with
  | nil => exact ⟨hs, fun x hx => ⟨hx, List.not_mem_nil⟩⟩
  | cons id rest ih =>
    rw [refresh]
    have hfirst : Swept g (if isStale s id then (visit id s).2 else s) ∧
        ∀ x, (if isStale s id then (visit id s).2 else s).graph.Dirty x →
          s.graph.Dirty x ∧ x ≠ id := by
      split
      · exact hvisit id List.mem_cons_self s hs
      · rename_i hstale
        refine ⟨hs, fun x hx => ⟨hx, ?_⟩⟩
        rintro rfl
        exact hs.not_dirty_of_not_stale hstale hx
    obtain ⟨hswept, hclean⟩ := hfirst
    obtain ⟨hlast, hrest⟩ := ih (fun x hx => hvisit x (List.mem_cons_of_mem _ hx)) hswept
    refine ⟨hlast, fun x hx => ?_⟩
    obtain ⟨hdirty, hnot⟩ := hrest x hx
    obtain ⟨hold, hne⟩ := hclean x hdirty
    refine ⟨hold, ?_⟩
    rw [List.mem_cons, not_or]
    exact ⟨hne, hnot⟩

theorem enter_cleans (hcovered : g.Covered) {id : String}
    (hlisted : ∀ x, g.Lists id x → Cleans g visit x)
    (hmissing : ∀ x, g.contains x = false → Cleans g visit x) {s : Session} {node : Node}
    (hnode : s.graph.find? id = some node) (hs : Swept g s) :
    Swept g (env.enter visit id s).2 ∧
      ∀ x, (env.enter visit id s).2.graph.Dirty x → s.graph.Dirty x ∧ x ≠ id := by
  have hlists : ∀ x, g.Lists id x ↔ x ∈ node.dependencies := by
    intro x
    rw [← hs.lists_eq, Graph.lists_iff, hnode]
    simp
  have hcovered' : s.graph.Covered := Graph.covered_of_pristine_eq hs.pristine.symm hcovered
  have htargets : ∀ x ∈ node.pipeline.targets, Cleans g visit x := by
    intro x hx
    rcases hcovered'.lists_or hnode hx with hlist | hnot
    · rw [hs.lists_eq] at hlist
      exact hlisted x hlist
    · rw [Graph.contains_of_pristine_eq hs.pristine] at hnot
      exact hmissing x hnot
  obtain ⟨hready, hrefreshed⟩ := refresh_cleans (fun x hx => hlisted x ((hlists x).2 hx)) hs
  -- the dependencies are clean before the run, and the run leaves them so
  let I : Session → Prop := fun t =>
    Swept g t ∧ ∀ x, t.graph.Dirty x → s.graph.Dirty x ∧ x ∉ node.dependencies
  let value : Visit := fun x t => ((visit x t).1.outcome, (visit x t).2)
  have hrun : I (env.run value node.pipeline env.context.value
      (refresh visit node.dependencies s)).2 := by
    refine env.run_targets_induction (I := I) (fun x hx t ht => ?_)
      (fun t text ht => ⟨ht.1.warn text, ht.2⟩) (fun t name ht => ⟨ht.1.called name, ht.2⟩) _
      ⟨hready, hrefreshed⟩
    obtain ⟨hswept, hclean⟩ := htargets x hx t ht.1
    exact ⟨hswept, fun y hy => ht.2 y (hclean y hy).1⟩
  have henter := congrArg Prod.snd (env.enter_eq_run visit hnode)
  dsimp only at henter
  rw [henter]
  refine ⟨hrun.1.finish _ fun b hlist hdirty => ?_, fun x hx => ?_⟩
  · exact (hrun.2 b hdirty).2 ((hlists b).1 hlist)
  · obtain ⟨hdirty, hne⟩ := Graph.dirty_store_iff.1 hx
    exact ⟨(hrun.2 x hdirty).1, hne⟩

theorem cleans_of_missing {id : String} (hid : g.contains id = false)
    (hvisit : ∀ s, s.graph.find? id = none → (visit id s).2 = s) : Cleans g visit id := by
  intro s hs
  have hcontains : s.graph.contains id = false := by
    rw [Graph.contains_of_pristine_eq hs.pristine, hid]
  rw [hvisit s (Graph.find?_eq_none_iff.2 hcontains)]
  refine ⟨hs, fun x hx => ⟨hx, ?_⟩⟩
  rintro rfl
  simp [hx.contains] at hcontains

theorem node_cleans_of_missing {id : String} (hid : g.contains id = false) (depth : Nat)
    (active : List String) : Cleans g (env.node depth active) id := by
  apply cleans_of_missing hid
  intro s hnone
  rw [Environment.node.eq_def]
  simp only [settled?, hnone]

/-- A node that is not being evaluated and needs no run is clean. -/
theorem not_dirty_of_settled {active : List String} {id : String} (hactive : id ∉ active)
    {s : Session} (hs : Swept g s) {answer : Evaluation}
    (hsettled : settled? active id s = some answer) : ¬s.graph.Dirty id := by
  rintro ⟨node, hnode, hdirty⟩
  have hfresh : node.fresh? = none := by simp [Node.fresh?, hdirty]
  simp only [settled?, hnode, hfresh] at hsettled
  cases hknown : s.outcome? id with
  | none => simp [hknown, hactive] at hsettled
  | some outcome => exact hs.known id (by simp [hknown]) ⟨node, hnode, hdirty⟩

/-- An evaluation with enough room cleans its node. What is being evaluated depends on the node, so
the node is not among it. -/
theorem node_cleans (hcovered : g.Covered) (depth : Nat) {active : List String} {id : String}
    (hid : g.Shallow depth id)
    (hactive : g.contains id = true → ∀ a ∈ active, TransGen g.Lists a id) :
    Cleans g (env.node depth active) id := by
  induction depth generalizing active id with
  | zero => exact node_cleans_of_missing hid 0 active
  | succ depth ih =>
    cases hcontains : g.contains id with
    | false => exact node_cleans_of_missing hcontains _ active
    | true =>
      intro s hs
      have hfree : id ∉ active := fun hmem => hid.not_cycle (hactive hcontains id hmem)
      rw [Environment.node]
      cases hsettled : settled? active id s with
      | some answer =>
        refine ⟨hs, fun x hx => ⟨hx, ?_⟩⟩
        rintro rfl
        exact not_dirty_of_settled hfree hs hsettled hx
      | none =>
        have hlisted : ∀ x, g.Lists id x → Cleans g (env.node depth (active ++ [id])) x := by
          intro x hx
          apply ih (hid x hx)
          intro _ a ha
          rcases List.mem_append.1 ha with ha | ha
          · exact (hactive hcontains a ha).tail hx
          · obtain rfl := List.mem_singleton.1 ha
            exact .single hx
        obtain ⟨node, hnode⟩ : ∃ node, s.graph.find? id = some node := by
          rw [← Graph.contains_iff, Graph.contains_of_pristine_eq hs.pristine, hcontains]
        exact enter_cleans hcovered hlisted (fun x hx => node_cleans_of_missing hx depth _)
          (s := s.enter (active ++ [id])) hnode (hs.enter _)

end Steps

section Calls

variable {config : Config} {m : Memory} (context : Context) (hclosed : m.graph.DirtyClosed)
  (hcovered : m.graph.Covered) (hchains : m.graph.ChainsWithin config.maxDepth)
include hclosed hcovered hchains

theorem dirtyClosed_evaluateNode (id : String) :
    (evaluateNode config context m id).2.graph.DirtyClosed := by
  have hcleans : Cleans m.graph (node ⟨config, context⟩ config.maxDepth []) id :=
    node_cleans hcovered _ (hchains.shallow id) fun _ a ha => by simp at ha
  exact (hcleans _ (.start hclosed)).1.closed

theorem dirtyClosed_evaluatePipeline (p : Pipeline) :
    (evaluatePipeline config context m p).2.graph.DirtyClosed := by
  let env : Environment := ⟨config, context⟩
  have hvisit : ∀ id s, Swept m.graph s → Swept m.graph (env.visitTop id s).2 := by
    intro id s hs
    have hcleans : Cleans m.graph (env.node config.maxDepth []) id :=
      node_cleans hcovered _ (hchains.shallow id) fun _ a ha => by simp at ha
    exact (hcleans s hs).1
  have hrun : Swept m.graph (env.run env.visitTop p context.value (Session.start m)).2 :=
    env.run_induction (I := Swept m.graph) hvisit (fun _ text hs => hs.warn text)
      (fun _ name hs => hs.called name) p context.value (.start hclosed)
  rw [← runTraced_eq_run] at hrun
  exact hrun.closed

end Calls

end Environment

/-! ## Between calls -/

namespace Calculator

/-- A graph that is closed downstream, whose definitions list what they look up, with room for all
chains of nodes. -/
structure Swept (c : Calculator) : Prop where
  closed : c.graph.DirtyClosed
  covered : c.graph.Covered
  chains : c.graph.ChainsWithin c.config.maxDepth

section Evaluations

variable {c : Calculator} (h : c.Swept) (context : Context)
include h

theorem Swept.evaluate (id : String) : (c.evaluate context id).2.Swept where
  closed := Environment.dirtyClosed_evaluateNode context h.closed h.covered h.chains id
  covered := Graph.covered_of_pristine_eq (c.pristine_evaluate context id).symm h.covered
  chains := Graph.chainsWithin_of_pristine_eq (c.pristine_evaluate context id).symm h.chains

theorem Swept.runPipeline (p : Pipeline) : (c.runPipeline context p).2.graph.DirtyClosed :=
  Environment.dirtyClosed_evaluatePipeline context h.closed h.covered h.chains p

theorem Swept.recompute : (c.recompute context).2.graph.DirtyClosed :=
  (evaluateAll_induction (fun _ id hnext => hnext.evaluate context id) _ h).closed

end Evaluations

theorem dirtyClosed_set {c : Calculator} (h : c.graph.DirtyClosed) (id : String)
    (d : NodeDefinition) : (c.set id d).graph.DirtyClosed := by
  rcases c.set_cases id d with ⟨-, heq⟩ | ⟨-, heq⟩
  · rwa [heq]
  · rw [heq]
    exact h.put id d

/-- Every operation leaves the graph closed downstream. -/
theorem Swept.perform {c : Calculator} (h : c.Swept) (op : Operation) :
    (c.perform op).graph.DirtyClosed := by
  cases op with
  | configure config => exact h.closed
  | register name f => exact h.closed
  | set id d => exact dirtyClosed_set h.closed id d
  | define id d =>
    rcases c.perform_define id d with heq | ⟨d', -, heq⟩
    · rw [heq]
      exact h.closed
    · rw [heq]
      exact dirtyClosed_set h.closed id d'
  | remove id =>
    rw [Calculator.perform]
    rcases c.remove_cases id with ⟨-, heq⟩ | ⟨-, heq⟩
    · rw [heq]
      exact h.closed
    · rw [heq]
      exact h.closed.drop id
  | invalidate id => exact h.closed.markDirty id
  | clear => exact Graph.dirtyClosed_clear
  | evaluate context id => exact (h.evaluate context id).closed
  | runPipeline context p => exact h.runPipeline context p
  | evaluateFormula context formula =>
    rw [Calculator.perform]
    rcases c.evaluateFormula_cases context formula with heq | ⟨p, heq⟩
    · rw [heq]
      exact h.closed
    · rw [heq]
      exact h.runPipeline context p
  | recompute context => exact h.recompute context

/-- In every state between operations whatever lists a dirty node is dirty, as long as definitions
list the nodes they look up and there is room for all chains of nodes. The operations may evaluate
in different contexts. -/
theorem dirty_closed_downstream {config : Config} {ops : List Operation}
    (hcovered : ∀ before, before <+: ops → (after { config := config } before).graph.Covered)
    (hchains : ∀ before, before <+: ops →
      (after { config := config } before).graph.ChainsWithin
        (after { config := config } before).config.maxDepth) :
    ∀ before, before <+: ops →
      let g := (after { config := config } before).graph
      ∀ id dependent, g.Lists dependent id → g.Dirty id → g.Dirty dependent := by
  intro before hbefore g id dependent hlist hdirty
  have hclosed : g.DirtyClosed := by
    refine after_induction (I := fun c => c.graph.DirtyClosed) before ?_ fun earlier op hop h => ?_
    · exact Graph.dirtyClosed_empty
    · have hprefix : earlier <+: ops :=
        ((List.prefix_append earlier [op]).trans hop).trans hbefore
      exact Swept.perform ⟨h, hcovered _ hprefix, hchains _ hprefix⟩ op
  exact hclosed dependent id hlist hdirty

/-- A chain of three nodes that fails without a record. Its middle is made dirty, and only its end
is evaluated again, in another context. -/
theorem dirty_closed_downstream_of_failure :
    let bare := Context.atTime DateTime.epoch
    let row : Context := { bare with record := some { id := "r", fields := [("x", .bool true)] } }
    let ops := [.set "a" { pipeline := [.designate "x"] },
      .set "b" { pipeline := [.connect "#a"], dependencies := ["a"] },
      .set "c" { pipeline := [.connect "#b"], dependencies := ["b"] },
      .evaluate bare "c", .invalidate "b", .evaluate row "a"]
    let g := (after {} ops).graph
    ¬g.Dirty "a" ∧ g.Dirty "b" ∧ g.Dirty "c" := by
  intro bare row ops g
  have hcovered : ∀ before, before <+: ops → (after {} before).graph.Covered := by
    simp only [← List.mem_inits]
    decide +kernel
  have hchains : ∀ before, before <+: ops →
      (after {} before).graph.ChainsWithin (after {} before).config.maxDepth := by
    simp only [← List.mem_inits]
    decide +kernel
  have hlist : g.Lists "c" "b" := by
    show "b" ∈ g.dependenciesOf "c"
    decide +kernel
  have hmiddle : g.Dirty "b" := by decide +kernel
  refine ⟨by decide +kernel, hmiddle, ?_⟩
  exact @dirty_closed_downstream {} ops hcovered hchains ops List.prefix_rfl "b" "c" hlist hmiddle

end Calculator

end FormulaPipeline
