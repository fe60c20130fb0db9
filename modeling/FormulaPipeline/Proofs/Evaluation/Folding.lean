import FormulaPipeline.Proofs.Evaluation.Coherence
import FormulaPipeline.Proofs.Pipeline.Folding

/-!
# Evaluations up to the spelling of function names

The spelling of a function is seen in one place only, the error for a function that is not known.
Evaluations of nodes whose pipelines differ in the spelling of functions go in step, and where they
end they differ in the names in such errors.
-/

namespace FormulaPipeline

/-! ## Folded forms -/

/-- The error with the name of an unknown function in upper case. -/
def EvalError.folded : EvalError → EvalError
  | .unknownFunction name => .unknownFunction (Text.asciiUpper name)
  | e => e

/-- The result with its error folded. -/
def foldedResult {α : Type} (x : Except EvalError α) : Except EvalError α :=
  x.mapError EvalError.folded

theorem foldedResult_cases {α : Type} {x y : Except EvalError α}
    (h : foldedResult y = foldedResult x) :
    (∃ a, x = .ok a ∧ y = .ok a) ∨ ∃ e e', x = .error e ∧ y = .error e' := by
  cases x with
  | ok a =>
    cases y with
    | ok b => exact .inl ⟨a, rfl, congrArg _ (Except.ok.inj h)⟩
    | error e' => cases h
  | error e =>
    cases y with
    | ok b => cases h
    | error e' => exact .inr ⟨e, e', rfl, rfl⟩

def StepTrace.folded (t : StepTrace) : StepTrace := { t with result := foldedResult t.result }

/-- The evaluation with the names of unknown functions in upper case. -/
def Evaluation.folded (e : Evaluation) : Evaluation :=
  { e with outcome := foldedResult e.outcome, steps := e.steps.map StepTrace.folded }

/-- The node with the names of functions in upper case, and without the text of its formula. -/
def Node.folded (n : Node) : Node :=
  { n with
    formula := none
    pipeline := Step.foldedSteps n.pipeline
    outcome := foldedResult n.outcome }

def Graph.folded (g : Graph) : Graph := g.mapNodes fun _ node => node.folded

def Memory.folded (m : Memory) : Memory := { m with graph := m.graph.folded }

def Session.folded (s : Session) : Session :=
  { s with
    memory := s.memory.folded
    outcomes := s.outcomes.map fun (id, outcome) => (id, foldedResult outcome) }

theorem Node.fresh?_congr {n n' : Node} (h : n'.folded = n.folded) : n'.fresh? = n.fresh? := by
  have hdirty : n'.dirty = n.dirty := congrArg (fun n => n.dirty) h
  have houtcome : foldedResult n'.outcome = foldedResult n.outcome :=
    congrArg (fun n => n.outcome) h
  have hcached : n'.cached = n.cached := by
    unfold cached
    obtain ⟨v, hv, hv'⟩ | ⟨e, e', he, he'⟩ := foldedResult_cases houtcome
    · rw [hv, hv']
    · rw [he, he']
  rw [fresh?, fresh?, hdirty, hcached]

theorem Graph.store_folded (g : Graph) (id : String) (outcome : Outcome) :
    (g.store id outcome).folded = g.folded.store id (foldedResult outcome) := by
  rw [folded, store, folded, store, mapNodes_mapNodes, mapNodes_mapNodes]
  refine mapNodes_congr fun key node => ?_
  split <;> rfl

namespace Session

variable {s t : Session} (h : t.folded = s.folded)
include h

theorem find?_folded (id : String) :
    (t.graph.find? id).map Node.folded = (s.graph.find? id).map Node.folded := by
  have hgraph : t.graph.folded = s.graph.folded := congrArg (fun s => s.graph) h
  rw [← Graph.find?_mapNodes t.graph (fun _ node => node.folded),
    ← Graph.find?_mapNodes s.graph fun _ node => node.folded]
  exact congrArg (Graph.find? · id) hgraph

theorem contains_folded (id : String) : t.graph.contains id = s.graph.contains id := by
  have hfind := congrArg Option.isSome (find?_folded h id)
  simpa [Graph.isSome_find?] using hfind

theorem wasRemoved_folded (id : String) : t.graph.wasRemoved id = s.graph.wasRemoved id := by
  have hremoved : t.graph.removed = s.graph.removed := congrArg (fun s => s.graph.removed) h
  rw [Graph.wasRemoved, Graph.wasRemoved, hremoved]

theorem outcome?_folded (id : String) :
    (t.outcome? id).map foldedResult = (s.outcome? id).map foldedResult := by
  rw [outcome?, outcome?, ← Keyed.find?_mapValues id (fun _ => foldedResult),
    ← Keyed.find?_mapValues id fun _ => foldedResult]
  exact congrArg (fun s => Keyed.find? id s.outcomes) h

theorem callCount_folded (name : String) : t.memory.callCount name = s.memory.callCount name := by
  have hcalls : t.memory.calls = s.memory.calls := congrArg (fun s => s.memory.calls) h
  rw [Memory.callCount, Memory.callCount, hcalls]

theorem warningsFrom_folded (count : Nat) : t.warningsFrom count = s.warningsFrom count := by
  have hwarnings : t.warnings = s.warnings := congrArg (fun s => s.warnings) h
  rw [warningsFrom, warningsFrom, hwarnings]

theorem warn_folded (text : String) : (t.warn text).folded = (s.warn text).folded :=
  congrArg (Session.warn · text) h

theorem enter_folded (chain : List String) : (t.enter chain).folded = (s.enter chain).folded :=
  congrArg (Session.enter · chain) h

theorem called_folded {a b : String} (hname : Text.asciiUpper b = Text.asciiUpper a) :
    (t.called b).folded = (s.called a).folded := by
  have hcalled : t.folded.called b = s.folded.called a := by
    rw [h, called, called, Memory.called, Memory.called, Memory.callCount, Memory.callCount, hname]
  exact hcalled

theorem finish_folded {id : String} {outcome outcome' : Outcome}
    (houtcome : foldedResult outcome' = foldedResult outcome) :
    (t.finish id outcome').folded = (s.finish id outcome).folded := by
  have hfinish (s : Session) (outcome : Outcome) :
      (s.finish id outcome).folded = s.folded.finish id (foldedResult outcome) := by
    have hgraph : (s.graph.store id outcome).folded =
        s.folded.graph.store id (foldedResult outcome) := s.graph.store_folded id outcome
    have houtcomes := Keyed.insert_map id outcome foldedResult s.outcomes
    simp only [finish, folded, Memory.folded, Session.mk.injEq, Memory.mk.injEq, and_true]
    exact ⟨hgraph, houtcomes.symm⟩
  rw [hfinish, hfinish, h, houtcome]

end Session

/-! ## Runs -/

/-- What an action ends in, with its error and its session folded. -/
def foldedEnd {α : Type} (x : Except EvalError α × Session) : Except EvalError α × Session :=
  (foldedResult x.1, x.2.folded)

theorem foldedEnd_iff {α : Type} {x y : Except EvalError α × Session} :
    foldedEnd y = foldedEnd x ↔ foldedResult y.1 = foldedResult x.1 ∧ y.2.folded = x.2.folded :=
  Prod.mk.injEq .. ▸ .rfl

theorem foldedEnd_andThen {α β : Type} {x y : Except EvalError α × Session} {f g : α → Action β}
    (h : foldedEnd y = foldedEnd x)
    (hnext : ∀ a s t, t.folded = s.folded → foldedEnd (g a t) = foldedEnd (f a s)) :
    foldedEnd (andThen y g) = foldedEnd (andThen x f) := by
  obtain ⟨rx, s⟩ := x
  obtain ⟨ry, t⟩ := y
  obtain ⟨hresult, hsession⟩ := foldedEnd_iff.1 h
  obtain ⟨a, ha, ha'⟩ | ⟨e, e', he, he'⟩ := foldedResult_cases hresult
  · obtain rfl : rx = .ok a := ha
    obtain rfl : ry = .ok a := ha'
    exact hnext a s t hsession
  · obtain rfl : rx = .error e := he
    obtain rfl : ry = .error e' := he'
    have hresult : foldedResult (α := β) (.error e') = foldedResult (.error e) :=
      congrArg Except.error (Except.error.inj hresult)
    exact foldedEnd_iff.2 ⟨hresult, hsession⟩

namespace Environment

variable (env : Environment) {s t : Session}

/-- The functions of the host and of the language are found under names in any case. -/
theorem call_folded {a b : String} (hname : Text.asciiUpper b = Text.asciiUpper a)
    (args : List Value) (h : t.folded = s.folded) :
    foldedEnd (env.call b args t) = foldedEnd (env.call a args s) := by
  have hhost : env.config.functions.get? b = env.config.functions.get? a := by
    rw [Registry.get?, Registry.get?, hname]
  have hbuiltin : Builtin.ofName? b = Builtin.ofName? a := by
    rw [Builtin.ofName?, Builtin.ofName?, hname]
  have hcount : t.memory.callCount b = s.memory.callCount a := by
    rw [Session.callCount_folded h, Memory.callCount, Memory.callCount, hname]
  unfold call
  rw [hhost, hbuiltin, hcount]
  split
  · exact foldedEnd_iff.2 ⟨rfl, Session.called_folded h hname⟩
  · split
    · exact foldedEnd_iff.2 ⟨rfl, h⟩
    · refine foldedEnd_iff.2 ⟨?_, h⟩
      exact congrArg (fun name => Except.error (EvalError.unknownFunction name)) hname

theorem connectData_folded (name : String) (h : t.folded = s.folded) :
    foldedEnd (env.connectData name t) = foldedEnd (env.connectData name s) := by
  unfold connectData
  split
  · exact foldedEnd_iff.2 ⟨rfl, h⟩
  · rw [Session.wasRemoved_folded h]
    split
    · exact foldedEnd_iff.2 ⟨rfl, h⟩
    · exact foldedEnd_iff.2 ⟨rfl, Session.warn_folded h _⟩

/-- The values of nodes depend on folded forms only. -/
def Folds (visit : Visit) : Prop :=
  ∀ {s t : Session} (id : String), t.folded = s.folded →
    foldedEnd (visit id t) = foldedEnd (visit id s)

variable {visit : Visit}

theorem connect_folded (hvisit : Folds visit) (source : String) (h : t.folded = s.folded) :
    foldedEnd (env.connect visit source t) = foldedEnd (env.connect visit source s) := by
  unfold connect
  split
  · exact hvisit _ h
  · rw [Session.contains_folded h]
    split
    · exact hvisit _ h
    · exact connectData_folded env _ h

mutual

theorem apply_folded (hvisit : Folds visit) (step : Step) (input : Value) {s t : Session}
    (h : t.folded = s.folded) :
    foldedEnd (env.apply visit step.folded input t) = foldedEnd (env.apply visit step input s) := by
  cases step with
  | connect source => exact connect_folded env hvisit source h
  | segment condition => exact foldedEnd_iff.2 ⟨rfl, h⟩
  | designate property => exact foldedEnd_iff.2 ⟨rfl, h⟩
  | synthesize mode property separator => exact foldedEnd_iff.2 ⟨rfl, h⟩
  | literal value type => exact foldedEnd_iff.2 ⟨rfl, h⟩
  | arithmetic op left right =>
    rw [Step.folded, apply_arithmetic, apply_arithmetic]
    refine foldedEnd_andThen (run_folded hvisit left _ h) fun a s t h => ?_
    exact foldedEnd_andThen (run_folded hvisit right _ h) fun b s t h => foldedEnd_iff.2 ⟨rfl, h⟩
  | call name args =>
    rw [Step.folded, apply_call, apply_call]
    refine foldedEnd_andThen (runAll_folded hvisit args h) fun values s t h => ?_
    exact call_folded env (Text.asciiUpper_asciiUpper name) values h
  | default value => exact foldedEnd_iff.2 ⟨rfl, h⟩
  | malformed raw reason => exact foldedEnd_iff.2 ⟨rfl, h⟩

theorem run_folded (hvisit : Folds visit) (p : List Step) (input : Value) {s t : Session}
    (h : t.folded = s.folded) :
    foldedEnd (env.run visit (Step.foldedSteps p) input t) =
      foldedEnd (env.run visit p input s) := by
  cases p with
  | nil => exact foldedEnd_iff.2 ⟨rfl, h⟩
  | cons step rest =>
    rw [Step.foldedSteps, run_cons, run_cons]
    exact foldedEnd_andThen (apply_folded hvisit step input h) fun output s t h =>
      run_folded hvisit rest output h

theorem runAll_folded (hvisit : Folds visit) (args : List (List Step)) {s t : Session}
    (h : t.folded = s.folded) :
    foldedEnd (env.runAll visit (Step.foldedArgs args) t) =
      foldedEnd (env.runAll visit args s) := by
  cases args with
  | nil => exact foldedEnd_iff.2 ⟨rfl, h⟩
  | cons p rest =>
    rw [Step.foldedArgs, runAll_cons, runAll_cons]
    refine foldedEnd_andThen (run_folded hvisit p _ h) fun v s t h => ?_
    exact foldedEnd_andThen (runAll_folded hvisit rest h) fun values s t h =>
      foldedEnd_iff.2 ⟨rfl, h⟩

end

/-- What a traced run ends in, with its errors and its session folded. -/
def foldedRun (x : Outcome × List StepTrace × Session) : Outcome × List StepTrace × Session :=
  (foldedResult x.1, x.2.1.map StepTrace.folded, x.2.2.folded)

theorem runTraced_folded (hvisit : Folds visit) (p : List Step) (input : Value) {s t : Session}
    (h : t.folded = s.folded) :
    foldedRun (env.runTraced visit (Step.foldedSteps p) input t) =
      foldedRun (env.runTraced visit p input s) := by
  induction p generalizing input s t with
  | nil => exact congrArg (fun s => (Except.ok input, [], s)) h
  | cons step rest ih =>
    have happly := apply_folded env hvisit step input h
    have hcount : t.warnings.length = s.warnings.length :=
      congrArg (fun s => s.warnings.length) h
    rw [Step.foldedSteps, runTraced, runTraced, Step.operator_folded, hcount]
    generalize env.apply visit step.folded input t = y at happly ⊢
    generalize env.apply visit step input s = x at happly ⊢
    obtain ⟨rx, s'⟩ := x
    obtain ⟨ry, t'⟩ := y
    obtain ⟨hresult, hafter⟩ := foldedEnd_iff.1 happly
    have htrace : StepTrace.folded ⟨step.operator, input, ry,
          (t'.warningsFrom s.warnings.length).head?⟩ =
        StepTrace.folded ⟨step.operator, input, rx,
          (s'.warningsFrom s.warnings.length).head?⟩ := by
      rw [StepTrace.folded, StepTrace.folded, Session.warningsFrom_folded hafter]
      exact congrArg (fun result => StepTrace.mk _ _ result _) hresult
    obtain ⟨a, ha, ha'⟩ | ⟨e, e', he, he'⟩ := foldedResult_cases hresult
    · obtain rfl : rx = .ok a := ha
      obtain rfl : ry = .ok a := ha'
      have hrest := ih a hafter
      simp only [foldedRun, Prod.mk.injEq, List.map_cons, List.cons.injEq] at hrest ⊢
      exact ⟨hrest.1, ⟨htrace, hrest.2.1⟩, hrest.2.2⟩
    · obtain rfl : rx = .error e := he
      obtain rfl : ry = .error e' := he'
      simp only [foldedRun, Prod.mk.injEq, List.map_cons, List.map_nil, List.cons.injEq, and_true]
      exact ⟨hresult, htrace, hafter⟩

/-- Pipelines with the same folded form go in step. -/
theorem runTraced_congr (hvisit : Folds visit) {p p' : List Step}
    (hp : Step.foldedSteps p' = Step.foldedSteps p) (input : Value) (h : t.folded = s.folded) :
    foldedRun (env.runTraced visit p' input t) = foldedRun (env.runTraced visit p input s) :=
  calc foldedRun (env.runTraced visit p' input t)
    _ = foldedRun (env.runTraced visit (Step.foldedSteps p') input t) :=
      (runTraced_folded env hvisit p' input rfl).symm
    _ = foldedRun (env.runTraced visit p input s) := by
      rw [hp]
      exact runTraced_folded env hvisit p input h

/-! ## Nodes -/

/-- What an evaluation ends in, with its errors and its session folded. -/
def foldedEvaluation (x : Evaluation × Session) : Evaluation × Session := (x.1.folded, x.2.folded)

theorem foldedEvaluation_iff {x y : Evaluation × Session} :
    foldedEvaluation y = foldedEvaluation x ↔ y.1.folded = x.1.folded ∧ y.2.folded = x.2.folded :=
  Prod.mk.injEq .. ▸ .rfl

theorem map_eq_map_cases {α β : Type} {f : α → β} {x y : Option α} (h : y.map f = x.map f) :
    (x = none ∧ y = none) ∨ ∃ a b, x = some a ∧ y = some b ∧ f b = f a := by
  cases x with
  | none =>
    rw [Option.map_none, Option.map_eq_none_iff] at h
    exact .inl ⟨rfl, h⟩
  | some a =>
    rw [Option.map_some, Option.map_eq_some_iff] at h
    obtain ⟨b, hb, heq⟩ := h
    exact .inr ⟨a, b, rfl, hb, heq⟩

theorem settled?_folded (h : t.folded = s.folded) (active : List String) (id : String) :
    (settled? active id t).map Evaluation.folded =
      (settled? active id s).map Evaluation.folded := by
  unfold settled?
  obtain ⟨hs, ht⟩ | ⟨node, node', hs, ht, hnode⟩ := map_eq_map_cases (Session.find?_folded h id)
  · rw [hs, ht]
  · rw [hs, ht]
    dsimp only
    rw [Node.fresh?_congr hnode]
    split
    · rfl
    · obtain ⟨hs, ht⟩ | ⟨outcome, outcome', hs, ht, houtcome⟩ :=
        map_eq_map_cases (Session.outcome?_folded h id)
      · rw [hs, ht]
      · rw [hs, ht]
        exact congrArg (fun outcome => some (Evaluation.ofOutcome outcome)) houtcome

theorem isStale_folded (h : t.folded = s.folded) (id : String) : isStale t id = isStale s id := by
  have houtcome : (t.outcome? id).isNone = (s.outcome? id).isNone := by
    have hmap := congrArg Option.isNone (Session.outcome?_folded h id)
    simpa using hmap
  rw [isStale, isStale, houtcome]
  obtain ⟨hs, ht⟩ | ⟨node, node', hs, ht, hnode⟩ := map_eq_map_cases (Session.find?_folded h id)
  · rw [hs, ht]
  · have hdirty : node'.dirty = node.dirty := congrArg (fun n => n.dirty) hnode
    rw [hs, ht, Option.any_some, Option.any_some, hdirty]

theorem refresh_folded {visit : String → Session → Evaluation × Session}
    (hvisit : ∀ {s t : Session} (id : String), t.folded = s.folded →
      foldedEvaluation (visit id t) = foldedEvaluation (visit id s))
    (names : List String) (h : t.folded = s.folded) :
    (refresh visit names t).folded = (refresh visit names s).folded := by
  induction names generalizing s t with
  | nil => exact h
  | cons id rest ih =>
    rw [refresh, refresh, isStale_folded h]
    refine ih ?_
    split
    · exact (foldedEvaluation_iff.1 (hvisit id h)).2
    · exact h

theorem enter_folded {visit : String → Session → Evaluation × Session}
    (hvisit : ∀ {s t : Session} (id : String), t.folded = s.folded →
      foldedEvaluation (visit id t) = foldedEvaluation (visit id s))
    (id : String) (h : t.folded = s.folded) :
    foldedEvaluation (env.enter visit id t) = foldedEvaluation (env.enter visit id s) := by
  unfold enter
  obtain ⟨hs, ht⟩ | ⟨node, node', hs, ht, hnode⟩ := map_eq_map_cases (Session.find?_folded h id)
  · rw [hs, ht]
    exact foldedEvaluation_iff.2 ⟨rfl, h⟩
  · have hdependencies : node'.dependencies = node.dependencies :=
      congrArg (fun n => n.dependencies) hnode
    have hpipeline : Step.foldedSteps node'.pipeline = Step.foldedSteps node.pipeline :=
      congrArg (fun n => n.pipeline) hnode
    have hcount : t.warnings.length = s.warnings.length := congrArg (fun s => s.warnings.length) h
    have hvalue : Folds fun id s => ((visit id s).1.outcome, (visit id s).2) := by
      intro s t id h
      obtain ⟨hevaluation, hsession⟩ := foldedEvaluation_iff.1 (hvisit id h)
      exact foldedEnd_iff.2 ⟨congrArg (fun e => e.outcome) hevaluation, hsession⟩
    have hrun := runTraced_congr env hvalue hpipeline env.context.value
      (refresh_folded hvisit node.dependencies h)
    rw [hs, ht]
    dsimp only
    rw [hdependencies, hcount]
    generalize env.runTraced _ node'.pipeline _ _ = y at hrun ⊢
    generalize env.runTraced _ node.pipeline _ _ = x at hrun ⊢
    obtain ⟨outcome, steps, last⟩ := x
    obtain ⟨outcome', steps', last'⟩ := y
    simp only [foldedRun, Prod.mk.injEq] at hrun
    obtain ⟨houtcome, hsteps, hlast⟩ := hrun
    refine foldedEvaluation_iff.2 ⟨?_, Session.finish_folded hlast houtcome⟩
    simp only [Evaluation.folded, houtcome, hsteps, Session.warningsFrom_folded hlast]

theorem node_folded (depth : Nat) (active : List String) (id : String) (h : t.folded = s.folded) :
    foldedEvaluation (env.node depth active id t) =
      foldedEvaluation (env.node depth active id s) := by
  induction depth generalizing active id s t with
  | zero =>
    unfold node
    obtain ⟨hs, ht⟩ | ⟨answer, answer', hs, ht, hanswer⟩ :=
      map_eq_map_cases (settled?_folded h active id)
    · rw [hs, ht]
      exact foldedEvaluation_iff.2 ⟨rfl, h⟩
    · rw [hs, ht]
      exact foldedEvaluation_iff.2 ⟨hanswer, h⟩
  | succ depth ih =>
    unfold node
    obtain ⟨hs, ht⟩ | ⟨answer, answer', hs, ht, hanswer⟩ :=
      map_eq_map_cases (settled?_folded h active id)
    · rw [hs, ht]
      exact enter_folded env (fun id h => ih _ id h) id (Session.enter_folded h _)
    · rw [hs, ht]
      exact foldedEvaluation_iff.2 ⟨hanswer, h⟩

theorem folds_visitTop : Folds env.visitTop := by
  intro s t id h
  obtain ⟨hevaluation, hsession⟩ :=
    foldedEvaluation_iff.1 (node_folded env env.config.maxDepth [] id h)
  exact foldedEnd_iff.2 ⟨congrArg (fun e => e.outcome) hevaluation, hsession⟩

end Environment

end FormulaPipeline
