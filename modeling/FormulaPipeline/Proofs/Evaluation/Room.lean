import FormulaPipeline.Proofs.Evaluation.Asked
import FormulaPipeline.Proofs.Evaluation.Coherence
import FormulaPipeline.Proofs.Evaluation.Failure

/-!
# Room for nested evaluations

The limit on nested evaluations matters only where it is reached. With room for as many nodes as
there are, no evaluation of an acyclic graph reaches it, so what a node gives then is what it gives
without a limit.
-/

namespace FormulaPipeline.Environment

/-- The environment with another limit on nested evaluations. -/
def withRoom (env : Environment) (limit : Nat) : Environment :=
  { env with config := { env.config with maxDepth := limit } }

section Runs

variable (env : Environment) (limit : Nat) (visit : Visit)

mutual

theorem apply_withRoom (step : Step) (input : Value) (s : Session) :
    (env.withRoom limit).apply visit step input s = env.apply visit step input s := by
  cases step with
  | arithmetic op left right =>
    rw [apply_arithmetic, apply_arithmetic, run_withRoom left]
    refine andThen_ext fun a t => ?_
    rw [run_withRoom right]
    rfl
  | call name args =>
    rw [apply_call, apply_call, runAll_withRoom args]
    rfl
  | connect | segment | designate | synthesize | literal | default | malformed => rfl

/-- Pipelines run in the same way whatever the limit is. -/
theorem run_withRoom (p : List Step) (input : Value) (s : Session) :
    (env.withRoom limit).run visit p input s = env.run visit p input s := by
  cases p with
  | nil => rfl
  | cons step rest =>
    rw [run_cons, run_cons, apply_withRoom step]
    exact andThen_ext fun output t => run_withRoom rest output t

theorem runAll_withRoom (args : List (List Step)) (s : Session) :
    (env.withRoom limit).runAll visit args s = env.runAll visit args s := by
  cases args with
  | nil => rfl
  | cons p rest =>
    rw [runAll_cons, runAll_cons, show (env.withRoom limit).context = env.context from rfl,
      run_withRoom p]
    refine andThen_ext fun v t => ?_
    rw [runAll_withRoom rest]

end

end Runs

variable {env : Environment} {g : Graph}

theorem targets_shallow (hcovered : g.Covered) {n : Nat} {id x : String} {node : Node}
    (hid : g.Shallow (n + 1) id) (hnode : g.find? id = some node)
    (hx : x ∈ node.pipeline.targets) : g.Shallow n x := by
  rcases hcovered.lists_or hnode hx with hlist | hnot
  · exact hid x hlist
  · exact Graph.shallow_of_not_contains hnot n

/-- Where there is enough room, the limit does not show in a meaning. -/
theorem meaning_withRoom (hcovered : g.Covered) (limit n : Nat) {id : String}
    (hid : g.Shallow n id) : (env.withRoom limit).meaning g n id = env.meaning g n id := by
  induction n generalizing id with
  | zero =>
    have hnone : g.find? id = none := Graph.find?_eq_none_iff.2 hid
    rw [meaning_of_find?_none _ hnone, meaning_of_find?_none _ hnone]
  | succ n ih =>
    cases hnode : g.find? id with
    | none => rw [meaning_of_find?_none _ hnode, meaning_of_find?_none _ hnode]
    | some node =>
      rw [meaning_succ _ hnode, meaning_succ _ hnode, run_withRoom]
      refine congrArg Prod.fst (run_congr _ _ _ fun x hx => funext fun s => ?_)
      rw [ih (targets_shallow hcovered hid hnode (asked_subset_targets _ _ _ x hx))]

theorem meaning_of_chainsWithin (hpure : env.config.functions.Pure) (hcovered : g.Covered)
    {n m : Nat} (hchains : g.ChainsWithin n) (hle : n ≤ m) (id : String) :
    env.meaning g m id = env.meaning g n id := by
  induction m, hle using Nat.le_induction with
  | base => rfl
  | succ m hle ih =>
    have hid : g.Shallow m id :=
      Graph.ChainsWithin.shallow (fun c hn hc => (hchains c hn hc).trans hle) id
    rw [meaning_succ_of_shallow hpure hcovered m hid, ih]

/-- The outcome of a node when evaluations may be nested as deep as there are nodes. -/
def unlimited (env : Environment) (g : Graph) (id : String) : Outcome :=
  (env.withRoom g.size).meaning g g.size id

theorem unlimited_of_missing {id : String} (h : g.contains id = false) :
    env.unlimited g id = .error (.nodeNotFound id) :=
  meaning_of_find?_none _ (Graph.find?_eq_none_iff.2 h) _

section Acyclic

variable (hpure : env.config.functions.Pure) (hcovered : g.Covered) (hacyclic : g.Acyclic)
include hpure hcovered hacyclic

/-- No limit from the number of nodes on makes a difference. -/
theorem meaning_eq_unlimited {limit : Nat} (hlimit : g.size ≤ limit) (id : String) :
    (env.withRoom limit).meaning g limit id = env.unlimited g id := by
  have hshallow := hacyclic.chainsWithin.shallow id
  rw [unlimited, meaning_withRoom hcovered _ _ hshallow,
    ← meaning_of_chainsWithin hpure hcovered hacyclic.chainsWithin hlimit]
  exact meaning_withRoom hcovered _ _
    (Graph.ChainsWithin.shallow (fun c hn hc => (hacyclic.chainsWithin c hn hc).trans hlimit) id)

/-- Without a limit, a node is its pipeline run over the outcomes of other nodes. -/
theorem unlimited_eq_run {id : String} {node : Node} (hnode : g.find? id = some node) :
    env.unlimited g id = (env.run (fun x s => (env.unlimited g x, s)) node.pipeline
      env.context.value (Session.start { graph := g })).1 := by
  have hpure' : (env.withRoom g.size).config.functions.Pure := hpure
  rw [unlimited, ← meaning_succ_of_shallow hpure' hcovered _ (hacyclic.chainsWithin.shallow id),
    meaning_succ _ hnode, run_withRoom]
  rfl

end Acyclic

/-! ## No node is out of reach -/

/-- Where there is enough room, a node fails as steps, host functions and missing nodes do, and
never for want of room. -/
theorem meaning_fails (hcovered : g.Covered) {E : EvalError → Prop}
    (hsteps : ∀ e, e.IsLocal → E e) (hmissing : ∀ id, E (.nodeNotFound id))
    (hhost : ∀ name f, env.config.functions.get? name = some f →
      ∀ n args context, FailsOnly E (f.run n args context))
    (n : Nat) {id : String} (hid : g.Shallow n id) : FailsOnly E (env.meaning g n id) := by
  induction n generalizing id with
  | zero =>
    rw [meaning_of_find?_none _ (Graph.find?_eq_none_iff.2 hid)]
    exact FailsOnly.error_iff.2 (hmissing id)
  | succ n ih =>
    cases hnode : g.find? id with
    | none =>
      rw [meaning_of_find?_none _ hnode]
      exact FailsOnly.error_iff.2 (hmissing id)
    | some node =>
      -- nodes for which there is no room are not looked up
      let visit : Visit := fun x s => (if g.Shallow n x then env.meaning g n x else .ok .null, s)
      have F : env.Fails E visit :=
        { steps := hsteps
          missing := hmissing
          host := hhost
          visited := by
            intro x s
            simp only [visit]
            split
            · exact ih ‹_›
            · exact .ok _ }
      have hvisit : ∀ x ∈ node.pipeline.targets, (fun s => (env.meaning g n x, s)) = visit x := by
        intro x hx
        simp only [visit, if_pos (targets_shallow hcovered hid hnode hx)]
      rw [meaning_succ _ hnode,
        run_congr _ _ _ fun x hx => hvisit x (asked_subset_targets _ _ _ x hx)]
      exact F.run _ _ _

theorem unlimited_fails (hcovered : g.Covered) (hacyclic : g.Acyclic) {E : EvalError → Prop}
    (hsteps : ∀ e, e.IsLocal → E e) (hmissing : ∀ id, E (.nodeNotFound id))
    (hhost : ∀ name f, env.config.functions.get? name = some f →
      ∀ n args context, FailsOnly E (f.run n args context)) (id : String) :
    FailsOnly E (env.unlimited g id) := by
  have hhost' : ∀ name f, (env.withRoom g.size).config.functions.get? name = some f →
      ∀ n args context, FailsOnly E (f.run n args context) := hhost
  exact meaning_fails hcovered hsteps hmissing hhost' _ (hacyclic.chainsWithin.shallow id)

end FormulaPipeline.Environment
