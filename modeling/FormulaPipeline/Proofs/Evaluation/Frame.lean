import FormulaPipeline.Evaluation.Evaluate
import FormulaPipeline.Proofs.Evaluation.Lockstep
import FormulaPipeline.Proofs.Graph.Lookup

/-!
# What evaluations leave alone

A property of sessions that survives warnings, calls, entries and stored outcomes survives every
evaluation. Definitions are such a property: an evaluation changes outcomes and marks of nodes only.
-/

namespace FormulaPipeline

namespace Session

@[simp] theorem graph_start (m : Memory) : (start m).graph = m.graph := rfl

@[simp] theorem graph_finish (s : Session) (id : String) (outcome : Outcome) :
    (s.finish id outcome).graph = s.graph.store id outcome := rfl

@[simp] theorem outcome?_start (m : Memory) (id : String) : (start m).outcome? id = none := rfl

theorem outcome?_finish (s : Session) (id x : String) (outcome : Outcome) :
    (s.finish id outcome).outcome? x = if id = x then some outcome else s.outcome? x :=
  Keyed.find?_insert x id outcome s.outcomes

end Session

namespace Environment

/-- A call leaves everything but the counts of calls. -/
theorem call_session (env : Environment) (name : String) (args : List Value) (s : Session) :
    (env.call name args s).2 = s ∨ (env.call name args s).2 = s.called name := by
  unfold call
  cases env.config.functions.get? name with
  | some f => exact .inr rfl
  | none => cases Builtin.ofName? name <;> exact .inl rfl

theorem refresh_induction {I : Session → Prop} {visit : String → Session → Evaluation × Session}
    (names : List String) (hvisit : ∀ id ∈ names, ∀ s, I s → I (visit id s).2) {s : Session}
    (hs : I s) : I (refresh visit names s) := by
  induction names generalizing s with
  | nil => exact hs
  | cons id rest ih =>
    rw [refresh]
    refine ih (fun x hx => hvisit x (List.mem_cons_of_mem _ hx)) ?_
    split
    · exact hvisit id List.mem_cons_self s hs
    · exact hs

/-- What comes of entering a node, without its trace. -/
theorem enter_eq_run (env : Environment) (visit : String → Session → Evaluation × Session)
    {id : String} {s : Session} {node : Node} (hnode : s.graph.find? id = some node) :
    let last := env.run (fun x t => ((visit x t).1.outcome, (visit x t).2)) node.pipeline
      env.context.value (refresh visit node.dependencies s)
    ((env.enter visit id s).1.outcome, (env.enter visit id s).2) =
      (last.1, last.2.finish id last.1) := by
  simp only [← runTraced_eq_run, enter, hnode]

/-- What the lookups of a pipeline, warnings and calls keep, a run of the pipeline keeps. -/
theorem run_targets_induction (env : Environment) {I : Session → Prop} {visit : Visit}
    {p : List Step} (hvisit : ∀ id ∈ Step.targetsIn p, ∀ s, I s → I (visit id s).2)
    (hwarn : ∀ s text, I s → I (s.warn text)) (hcall : ∀ s name, I s → I (s.called name))
    (input : Value) {s : Session} (hs : I s) : I (env.run visit p input s).2 := by
  -- the run in lockstep with itself
  have L : env.Lockstep (· ∈ Step.targetsIn p) (fun s t => s = t ∧ I s) visit visit :=
    { visited := by
        rintro id s t hid ⟨rfl, hs⟩
        exact ⟨rfl, rfl, hvisit id hid s hs⟩
      contains := by
        rintro id s t - ⟨rfl, -⟩
        rfl
      wasRemoved := by
        rintro id s t - ⟨rfl, -⟩
        rfl
      warned := by
        rintro s t text ⟨rfl, hs⟩
        exact ⟨rfl, hwarn s text hs⟩
      called := by
        rintro s t name args ⟨rfl, hs⟩
        refine ⟨rfl, rfl, ?_⟩
        rcases env.call_session name args s with h | h <;> rw [h]
        · exact hs
        · exact hcall s name hs }
  exact (L.run p input (fun _ hid => hid) ⟨rfl, hs⟩).2.2

/-- What lookups, warnings and calls keep, a run keeps. -/
theorem run_induction (env : Environment) {I : Session → Prop} {visit : Visit}
    (hvisit : ∀ id s, I s → I (visit id s).2) (hwarn : ∀ s text, I s → I (s.warn text))
    (hcall : ∀ s name, I s → I (s.called name)) (p : List Step) (input : Value) {s : Session}
    (hs : I s) : I (env.run visit p input s).2 :=
  env.run_targets_induction (fun id _ => hvisit id) hwarn hcall input hs

/-- A property of sessions that all that evaluations do to a session keeps. -/
structure Kept (I : Session → Prop) : Prop where
  warned : ∀ {s} text, I s → I (s.warn text)
  called : ∀ {s} name, I s → I (s.called name)
  entered : ∀ {s} chain, I s → I (s.enter chain)
  finished : ∀ {s} id outcome, I s → I (s.finish id outcome)

namespace Kept

variable {I : Session → Prop} (env : Environment)

theorem run (K : Kept I) {visit : Visit} (hvisit : ∀ id s, I s → I (visit id s).2)
    (p : List Step) (input : Value) {s : Session} (hs : I s) : I (env.run visit p input s).2 :=
  env.run_induction hvisit (fun _ text h => K.warned text h) (fun _ name h => K.called name h)
    p input hs

theorem runTraced (K : Kept I) {visit : Visit} (hvisit : ∀ id s, I s → I (visit id s).2)
    (p : List Step) (input : Value) {s : Session} (hs : I s) :
    I (env.runTraced visit p input s).2.2 := by
  have h := K.run env hvisit p input hs
  rwa [← runTraced_eq_run] at h

theorem node (K : Kept I) (depth : Nat) (active : List String) (id : String) {s : Session}
    (hs : I s) : I (env.node depth active id s).2 := by
  induction depth generalizing active id s with
  | zero =>
    rw [Environment.node]
    cases settled? active id s <;> exact hs
  | succ depth ih =>
    rw [Environment.node]
    cases settled? active id s with
    | some answer => exact hs
    | none =>
      simp only [enter]
      cases (s.enter (active ++ [id])).graph.find? id with
      | none => exact K.entered _ hs
      | some node =>
        refine K.finished _ _ (K.runTraced env (fun x t ht => ih _ x ht) _ _ ?_)
        exact refresh_induction _ (fun x _ t ht => ih _ x ht) (K.entered _ hs)

theorem visitTop (K : Kept I) (id : String) {s : Session} (hs : I s) :
    I (env.visitTop id s).2 :=
  K.node env _ _ _ hs

end Kept

theorem kept_pristine (g : Graph) : Kept fun s => s.graph.pristine = g where
  warned _ h := h
  called _ h := h
  entered _ h := h
  finished _ _ h := by simpa using h

end Environment

theorem pristine_evaluateNode (config : Config) (context : Context) (m : Memory) (id : String) :
    (evaluateNode config context m id).2.graph.pristine = m.graph.pristine :=
  (Environment.kept_pristine m.graph.pristine).node ⟨config, context⟩ _ _ _ rfl

theorem pristine_evaluatePipeline (config : Config) (context : Context) (m : Memory)
    (p : Pipeline) :
    (evaluatePipeline config context m p).2.graph.pristine = m.graph.pristine :=
  let K := Environment.kept_pristine m.graph.pristine
  K.runTraced ⟨config, context⟩ (fun id _ hs => K.visitTop _ id hs) _ _ rfl

end FormulaPipeline
