import FormulaPipeline.Proofs.Evaluation.Meaning

/-!
# Caches hold meanings

In a coherent graph a value that may be used again is the meaning of its node. An evaluation of such
a graph gives meanings, and what it stores keeps the graph coherent. So do definitions and removals,
because whatever reaches the changed id is made dirty.
-/

namespace FormulaPipeline

open Relation

/-- Every value that may be used again is what its node means. -/
def Graph.Coherent (g : Graph) (env : Environment) : Prop :=
  ∀ id node v, g.find? id = some node → node.fresh? = some v →
    env.meaning g env.config.maxDepth id = .ok v

namespace Environment

/-- A session over the definitions of a graph that remembers meanings only. -/
structure Sound (env : Environment) (g : Graph) (s : Session) : Prop where
  pristine : s.graph.pristine = g.pristine
  cached : ∀ id node v, s.graph.find? id = some node → node.fresh? = some v →
    env.meaning g env.config.maxDepth id = .ok v
  known : ∀ id outcome, s.outcome? id = some outcome →
    env.meaning g env.config.maxDepth id = outcome

namespace Sound

variable {env : Environment} {g : Graph} {s : Session}

theorem start (hg : g.Coherent env) {m : Memory} (hm : m.graph = g) :
    env.Sound g (Session.start m) where
  pristine := by rw [Session.graph_start, hm]
  cached := by rwa [Session.graph_start, hm]
  known id outcome h := by simp at h

theorem warn (hs : env.Sound g s) (text : String) : env.Sound g (s.warn text) where
  pristine := hs.pristine
  cached := hs.cached
  known := hs.known

theorem enter (hs : env.Sound g s) (chain : List String) : env.Sound g (s.enter chain) where
  pristine := hs.pristine
  cached := hs.cached
  known := hs.known

theorem called (hs : env.Sound g s) (name : String) : env.Sound g (s.called name) where
  pristine := hs.pristine
  cached := hs.cached
  known := hs.known

theorem finish (hs : env.Sound g s) {id : String} {outcome : Outcome}
    (h : env.meaning g env.config.maxDepth id = outcome) : env.Sound g (s.finish id outcome) where
  pristine := by simp [hs.pristine]
  cached := by
    intro x node v hnode hfresh
    rw [Session.graph_finish, Graph.store, Graph.find?_mapNodes, Option.map_eq_some_iff] at hnode
    obtain ⟨old, hold, hnew⟩ := hnode
    split at hnew
    · rename_i hx
      subst hnew hx
      rw [h]
      cases outcome <;> simp_all [Node.fresh?, Node.cached, Value.isNull]
    · subst hnew
      exact hs.cached x old v hold hfresh
  known := by
    intro x o ho
    rw [Session.outcome?_finish] at ho
    split at ho
    · rename_i hx
      obtain rfl := Option.some.inj ho
      rw [← hx, h]
    · exact hs.known x o ho

theorem contains_eq (hs : env.Sound g s) (id : String) : s.graph.contains id = g.contains id :=
  Graph.contains_of_pristine_eq hs.pristine id

theorem find?_eq_none_iff (hs : env.Sound g s) {id : String} :
    s.graph.find? id = none ↔ g.find? id = none := by
  rw [Graph.find?_eq_none_iff, Graph.find?_eq_none_iff, hs.contains_eq]

theorem find? (hs : env.Sound g s) {id : String} {node : Node}
    (hnode : s.graph.find? id = some node) :
    ∃ other, g.find? id = some other ∧ other.pipeline = node.pipeline ∧
      other.dependencies = node.dependencies := by
  obtain ⟨other, hother, hreset⟩ := Graph.exists_of_pristine_eq hs.pristine hnode
  refine ⟨other, hother, ?_, ?_⟩
  · simpa [Node.reset] using congrArg Node.pipeline hreset
  · simpa [Node.reset] using congrArg Node.dependencies hreset

/-- An answer that needs no run is the meaning of the node. -/
theorem settled? (hs : env.Sound g s) {active : List String} {id : String} (hactive : id ∉ active)
    {answer : Evaluation} (h : Environment.settled? active id s = some answer) :
    answer.outcome = env.meaning g env.config.maxDepth id := by
  unfold Environment.settled? at h
  split at h
  · rename_i hnone
    obtain rfl := Option.some.inj h
    exact (env.meaning_of_find?_none (hs.find?_eq_none_iff.1 hnone) _).symm
  · rename_i node hnode
    split at h
    · rename_i v hfresh
      obtain rfl := Option.some.inj h
      exact (hs.cached id node v hnode hfresh).symm
    · split at h
      · rename_i outcome hknown
        obtain rfl := Option.some.inj h
        exact (hs.known id outcome hknown).symm
      · simp [hactive] at h

end Sound

/-- A visit gives the meaning of an id and keeps sessions sound. -/
def Finds (env : Environment) (g : Graph) (visit : String → Session → Evaluation × Session)
    (id : String) : Prop :=
  ∀ s, env.Sound g s → (visit id s).1.outcome = env.meaning g env.config.maxDepth id ∧
    env.Sound g (visit id s).2

variable {env : Environment} {g : Graph}

/-- A run whose lookups find fixed outcomes has the outcome of the run over these outcomes, and it
keeps what its lookups keep. -/
theorem run_eq_of_visits (hpure : env.config.functions.Pure) {I : Session → Prop}
    (hpristine : ∀ s, I s → s.graph.pristine = g.pristine)
    (hwarn : ∀ s text, I s → I (s.warn text)) (hcalled : ∀ s name, I s → I (s.called name))
    {visit : Visit} {outcome : String → Outcome} {p : Pipeline}
    (hvisit : ∀ x ∈ p.targets, ∀ s, I s → (visit x s).1 = outcome x ∧ I (visit x s).2)
    {s : Session} (hs : I s) :
    Agree (fun s _ => I s) (env.run visit p env.context.value s)
      (env.run (fun x s => (outcome x, s)) p env.context.value (Session.start { graph := g })) := by
  have L : env.Lockstep (fun x => ∀ s, I s → (visit x s).1 = outcome x ∧ I (visit x s).2)
      (fun s t => I s ∧ t.graph = g) visit (fun x s => (outcome x, s)) :=
    { visited := by
        rintro x s t hx ⟨hs, ht⟩
        exact ⟨(hx s hs).1, (hx s hs).2, ht⟩
      contains := by
        rintro x s t - ⟨hs, rfl⟩
        exact Graph.contains_of_pristine_eq (hpristine s hs) x
      wasRemoved := by
        rintro x s t - ⟨hs, rfl⟩
        exact Graph.wasRemoved_of_pristine_eq (hpristine s hs) x
      warned := fun text hrel => ⟨hwarn _ text hrel.1, hrel.2⟩
      called := fun name args hrel =>
        agree_call hpure hrel (fun _ _ name hrel => ⟨hcalled _ name hrel.1, hrel.2⟩)
          (fun _ _ _ hrel => hrel) name args }
  have hagree := L.run (t := Session.start { graph := g }) p env.context.value hvisit ⟨hs, rfl⟩
  exact ⟨hagree.1, hagree.2.1⟩

/-- A run whose lookups find meanings has the outcome of the run over meanings. -/
theorem run_eq_of_finds (hpure : env.config.functions.Pure)
    {visit : String → Session → Evaluation × Session} {p : Pipeline}
    (hvisit : ∀ x ∈ p.targets, env.Finds g visit x) {s : Session} (hs : env.Sound g s) :
    Agree (fun s _ => env.Sound g s)
      (env.run (fun x s => ((visit x s).1.outcome, (visit x s).2)) p env.context.value s)
      (env.run (fun x s => (env.meaning g env.config.maxDepth x, s)) p env.context.value
        (Session.start { graph := g })) :=
  run_eq_of_visits hpure (fun _ hs => hs.pristine) (fun _ text hs => hs.warn text)
    (fun _ name hs => hs.called name) hvisit hs

theorem enter_finds (hpure : env.config.functions.Pure) (hcovered : g.Covered)
    {visit : String → Session → Evaluation × Session} {id : String}
    (hid : g.Shallow env.config.maxDepth id)
    (hlisted : ∀ x, g.Lists id x → env.Finds g visit x)
    (hmissing : ∀ x, g.contains x = false → env.Finds g visit x) :
    env.Finds g (env.enter visit) id := by
  intro s hs
  unfold Environment.enter
  cases hnode : s.graph.find? id with
  | none => exact ⟨(env.meaning_of_find?_none (hs.find?_eq_none_iff.1 hnode) _).symm, hs⟩
  | some node =>
    obtain ⟨other, hother, hpipeline, hdependencies⟩ := hs.find? hnode
    have hready : env.Sound g (refresh visit node.dependencies s) := by
      refine refresh_induction _ (fun x hx t ht => (hlisted x ?_ t ht).2) hs
      exact Graph.lists_iff.2 ⟨other, hother, hdependencies ▸ hx⟩
    have htargets : ∀ x ∈ node.pipeline.targets, env.Finds g visit x := by
      intro x hx
      rw [← hpipeline] at hx
      exact (hcovered.lists_or hother hx).elim (hlisted x) (hmissing x)
    obtain ⟨houtcome, hlast⟩ := run_eq_of_finds hpure htargets hready
    have hmeaning : env.meaning g env.config.maxDepth id = (env.run
        (fun x s => ((visit x s).1.outcome, (visit x s).2)) node.pipeline env.context.value
        (refresh visit node.dependencies s)).1 := by
      rw [← meaning_succ_of_shallow hpure hcovered _ hid, env.meaning_succ hother, hpipeline]
      exact houtcome.symm
    rw [← runTraced_eq_run] at hmeaning hlast
    exact ⟨hmeaning.symm, hlast.finish hmeaning⟩

theorem node_finds_of_missing {id : String} (hid : g.contains id = false) (depth : Nat)
    (active : List String) : env.Finds g (env.node depth active) id := by
  intro s hs
  have hnone : g.find? id = none := Graph.find?_eq_none_iff.2 hid
  unfold Environment.node
  simp only [settled?, hs.find?_eq_none_iff.2 hnone]
  exact ⟨(env.meaning_of_find?_none hnone _).symm, hs⟩

/-- An evaluation with enough room finds meanings. What is being evaluated depends on the node, so
the node is not among it. -/
theorem node_finds (hpure : env.config.functions.Pure) (hcovered : g.Covered)
    (hchains : g.ChainsWithin env.config.maxDepth) (depth : Nat) {active : List String}
    {id : String} (hid : g.Shallow depth id)
    (hactive : g.contains id = true → ∀ a ∈ active, TransGen g.Lists a id) :
    env.Finds g (env.node depth active) id := by
  induction depth generalizing active id with
  | zero => exact node_finds_of_missing hid 0 active
  | succ depth ih =>
    cases hcontains : g.contains id with
    | false => exact node_finds_of_missing hcontains _ active
    | true =>
      intro s hs
      rw [Environment.node]
      -- an id that is being evaluated would reach itself, but no id of a bounded chain does
      have hfree : id ∉ active := fun hmem => hid.not_cycle (hactive hcontains id hmem)
      cases hsettled : settled? active id s with
      | some answer => exact ⟨hs.settled? hfree hsettled, hs⟩
      | none =>
        refine enter_finds hpure hcovered (hchains.shallow id) (fun x hx => ?_) (fun x hx => ?_) _
          (hs.enter _)
        · refine ih (hid x hx) fun _ a ha => ?_
          rcases List.mem_append.1 ha with ha | ha
          · exact (hactive hcontains a ha).tail hx
          · obtain rfl := List.mem_singleton.1 ha
            exact .single hx
        · exact node_finds_of_missing hx depth _

section Evaluations

variable (hpure : env.config.functions.Pure) (hcovered : g.Covered)
  (hchains : g.ChainsWithin env.config.maxDepth)
include hpure hcovered hchains

theorem node_top_finds (id : String) : env.Finds g (env.node env.config.maxDepth []) id :=
  node_finds hpure hcovered hchains _ (hchains.shallow id) fun _ _ h => by simp at h

theorem sound_run {s : Session} (hs : env.Sound g s) (p : Pipeline) (input : Value) :
    env.Sound g (env.run env.visitTop p input s).2 :=
  env.run_induction (I := env.Sound g)
    (fun id _ hs => (node_top_finds hpure hcovered hchains id _ hs).2)
    (fun _ text hs => hs.warn text) (fun _ name hs => hs.called name) p input hs

end Evaluations

end Environment

/-! ## Changes of coherent graphs -/

namespace Graph

variable {env : Environment} {g : Graph}

theorem coherent_of_sound (hpure : env.config.functions.Pure) {s : Session}
    (hs : env.Sound g s) : s.graph.Coherent env := by
  intro id node v hnode hfresh
  rw [Environment.meaning_of_pristine_eq hpure hs.pristine]
  exact hs.cached id node v hnode hfresh

theorem coherent_of_all_dirty (h : ∀ id node, g.find? id = some node → node.dirty = true) :
    g.Coherent env := by
  intro id node v hnode hfresh
  simp [Node.fresh?, h id node hnode] at hfresh

theorem coherent_empty : empty.Coherent env := coherent_of_all_dirty (by simp)

theorem coherent_clear : g.clear.Coherent env := by
  refine coherent_of_all_dirty fun id node hnode => ?_
  rw [clear, find?_mapNodes, Option.map_eq_some_iff] at hnode
  obtain ⟨old, -, rfl⟩ := hnode
  rfl

theorem coherent_pristine : g.pristine.Coherent env := by
  refine coherent_of_all_dirty fun id node hnode => ?_
  rw [find?_pristine, Option.map_eq_some_iff] at hnode
  obtain ⟨old, -, rfl⟩ := hnode
  rfl

theorem find?_of_fresh_markDirty {id x : String} {node : Node} {v : Value}
    (hnode : (g.markDirty id).find? x = some node) (hfresh : node.fresh? = some v) :
    ¬ReflTransGen g.Lists x id ∧ g.find? x = some node := by
  rw [find?_markDirty, Option.map_eq_some_iff] at hnode
  obtain ⟨old, hold, hnew⟩ := hnode
  split at hnew
  · subst hnew
    simp [Node.fresh?] at hfresh
  · rename_i hnot
    subst hnew
    rw [List.contains_iff_mem, mem_affected] at hnot
    exact ⟨hnot, hold⟩

theorem Coherent.markDirty (hpure : env.config.functions.Pure) (hg : g.Coherent env)
    (id : String) : (g.markDirty id).Coherent env := by
  intro x node v hnode hfresh
  rw [Environment.meaning_of_pristine_eq hpure (pristine_markDirty g id)]
  exact hg x node v (find?_of_fresh_markDirty hnode hfresh).2 hfresh

/-- A change at one id keeps the meaning of everything that does not reach the id. -/
theorem Coherent.of_change (hpure : env.config.functions.Pure) (hg : g.Coherent env) {h : Graph}
    {id : String} (hfind : ∀ x, id ≠ x → h.find? x = g.find? x)
    (hremoved : ∀ x, id ≠ x → h.wasRemoved x = g.wasRemoved x)
    (htargets : ∀ x node, g.find? x = some node → id ≠ x → ∀ y ∈ node.pipeline.targets,
      h.Lists x y ∨ y ≠ id ∧ h.contains y = false) : (h.markDirty id).Coherent env := by
  have hne : ∀ x, ¬ReflTransGen h.Lists x id → id ≠ x := by
    rintro x hx rfl
    exact hx .refl
  intro x node v hnode hfresh
  obtain ⟨hx, hnode⟩ := find?_of_fresh_markDirty hnode hfresh
  rw [Environment.meaning_of_pristine_eq hpure (pristine_markDirty h id)]
  rw [hfind x (hne x hx)] at hnode
  rw [← hg x node v hnode hfresh]
  symm
  -- lookups do not lead from what does not reach the id to what does
  refine Environment.meaning_congr (D := fun x => ¬ReflTransGen h.Lists x id) hpure
    (fun y hy => by rw [hfind y (hne y hy)]) (fun y hy => (hremoved y (hne y hy)).symm)
    (fun y other hy hother z hz hreach => ?_) _ hx
  rcases htargets y other hother (hne y hy) z hz with hlist | ⟨hzid, hmissing⟩
  · exact hy (.head hlist hreach)
  · obtain heq | ⟨next, hlist, -⟩ := hreach.cases_head
    · exact hzid heq
    · simp [hlist.contains] at hmissing

theorem Coherent.put (hpure : env.config.functions.Pure) (hg : g.Coherent env) {id : String}
    {d : NodeDefinition} (hcovered : (g.put id d).Covered) :
    ((g.put id d).markDirty id).Coherent env := by
  have hid : (g.put id d).contains id = true := by simp [← isSome_find?, find?_put]
  refine hg.of_change hpure (fun x hx => by simp [find?_put, hx])
    (fun x hx => by simp [wasRemoved_put, hx]) fun x node hnode hx y hy => ?_
  have hput : (g.put id d).find? x = some node := by simp [find?_put, hx, hnode]
  refine (hcovered.lists_or hput hy).imp_right fun hmissing => ⟨?_, hmissing⟩
  rintro rfl
  simp [hid] at hmissing

theorem Coherent.drop (hpure : env.config.functions.Pure) (hg : g.Coherent env) {id : String}
    (hid : g.contains id = true) (hcovered : g.Covered) :
    ((g.drop id).markDirty id).Coherent env := by
  refine hg.of_change hpure (fun x hx => by simp [find?_drop, hx])
    (fun x hx => by simp [wasRemoved_drop, hx]) fun x node hnode hx y hy => ?_
  rcases hcovered.lists_or hnode hy with hlist | hmissing
  · exact .inl (lists_drop.2 ⟨hx, hlist⟩)
  · refine .inr ⟨?_, ?_⟩
    · rintro rfl
      simp [hid] at hmissing
    · rw [← find?_eq_none_iff] at hmissing ⊢
      rw [find?_drop, hmissing, ite_self]

end Graph

end FormulaPipeline
