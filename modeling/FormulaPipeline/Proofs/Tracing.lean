import FormulaPipeline.Proofs.Evaluation.Stack

/-!
# Traces

A pipeline may run with a trace or as an operand inside another one. Both runs end alike, with all
they do to the session and to the stack. The trace tells what happened: its entries are the executed
steps in order, each on the output of the one before, and an error stands in its last entry only.
-/

namespace FormulaPipeline

/-- The text of the error that an entry carries. -/
def StepTrace.errorText? (t : StepTrace) : Option String :=
  (Outcome.error? t.result).map EvalError.message

namespace Environment

/-- Run a pipeline with its trace, in the middle of a call. -/
def traced (env : Environment) (c : Call) (p : Pipeline) : Evaluation × Session :=
  let (outcome, steps, last) :=
    env.runTraced (env.visitOn c.stack) p env.context.value c.session
  ({ outcome := outcome, steps := steps,
     warnings := last.warningsFrom c.session.warnings.length }, last)

/-- What a trace tells of a run of steps on an input. -/
structure Tells (env : Environment) (visit : Visit) (p : List Step) (input : Value) (s : Session)
    (outcome : Outcome) (steps : List StepTrace) : Prop where
  /-- The first input is that of the run, and each other one is the output before it. -/
  inputs : steps.map (·.input) = (input :: steps.map (·.output)).dropLast
  /-- An entry shows a step with what came of it after the steps before. -/
  entries : ∀ i entry, steps[i]? = some entry → ∃ step t, p[i]? = some step ∧
    entry.operator = step.operator ∧ env.run visit (p.take i) input s = (.ok entry.input, t) ∧
    (env.apply visit step entry.input t).1 = entry.result
  ok : ∀ v, outcome = .ok v → steps.length = p.length ∧
    (∀ entry ∈ steps, entry.errorText? = none) ∧
    (input :: steps.map (·.output)).getLast? = some v
  error : ∀ e, outcome = .error e → ∃ before entry, steps = before ++ [entry] ∧
    (∀ other ∈ before, other.errorText? = none) ∧ entry.errorText? = some e.message ∧
    entry.output = .null

namespace Tells

variable {env : Environment} {visit : Visit} {step : Step} {rest : List Step} {input : Value}
  {s after : Session} {entry : StepTrace}

theorem nil (env : Environment) (visit : Visit) (input : Value) (s : Session) :
    env.Tells visit [] input s (.ok input) [] where
  inputs := rfl
  entries i entry h := by simp at h
  ok v h := ⟨rfl, by simp, congrArg some (Except.ok.inj h)⟩
  error e h := by simp at h

/-- A step that fails ends the trace. -/
theorem failed {e : EvalError} (happly : env.apply visit step input s = (.error e, after))
    (hoperator : entry.operator = step.operator) (hinput : entry.input = input)
    (hresult : entry.result = .error e) :
    env.Tells visit (step :: rest) input s (.error e) [entry] where
  inputs := by simp [hinput]
  entries := by
    intro i other h
    cases i with
    | zero =>
      obtain rfl : entry = other := Option.some.inj h
      subst hinput
      exact ⟨step, s, rfl, hoperator, rfl, by rw [happly, hresult]⟩
    | succ i => simp at h
  ok v h := by simp at h
  error := by
    intro e' h
    obtain rfl := Except.error.inj h
    refine ⟨[], entry, rfl, by simp, ?_, ?_⟩
    · simp [StepTrace.errorText?, hresult, Outcome.error?]
    · simp [StepTrace.output, hresult, Outcome.value]

/-- A step that gives an output stands before the trace of the steps that run on it. -/
theorem cons {output : Value} {outcome : Outcome} {steps : List StepTrace}
    (happly : env.apply visit step input s = (.ok output, after))
    (hoperator : entry.operator = step.operator) (hinput : entry.input = input)
    (hresult : entry.result = .ok output) (h : env.Tells visit rest output after outcome steps) :
    env.Tells visit (step :: rest) input s outcome (entry :: steps) := by
  have houtput : entry.output = output := by rw [StepTrace.output, hresult, Outcome.value]
  have hnone : entry.errorText? = none := by simp [StepTrace.errorText?, hresult, Outcome.error?]
  refine ⟨?_, ?_, fun v hv => ?_, fun e he => ?_⟩
  · rw [List.map_cons, List.map_cons, hinput, houtput, h.inputs, List.dropLast_cons_cons]
  · intro i other hi
    cases i with
    | zero =>
      obtain rfl : entry = other := Option.some.inj hi
      subst hinput
      exact ⟨step, s, rfl, hoperator, rfl, by rw [happly, hresult]⟩
    | succ i =>
      obtain ⟨next, t, hnext, hop, hrun, hgave⟩ := h.entries i other hi
      refine ⟨next, t, hnext, hop, ?_, hgave⟩
      rw [List.take_succ_cons, run_cons, happly]
      exact hrun
  · obtain ⟨hlength, hclean, hlast⟩ := h.ok v hv
    refine ⟨by rw [List.length_cons, List.length_cons, hlength],
      List.forall_mem_cons.2 ⟨hnone, hclean⟩, ?_⟩
    rw [List.map_cons, houtput, List.getLast?_cons_cons]
    exact hlast
  · obtain ⟨before, last, rfl, hclean, hlast⟩ := h.error e he
    exact ⟨entry :: before, last, rfl, List.forall_mem_cons.2 ⟨hnone, hclean⟩, hlast⟩

end Tells

theorem tells_runTraced (env : Environment) (visit : Visit) (p : List Step) (input : Value)
    (s : Session) :
    env.Tells visit p input s (env.runTraced visit p input s).1
      (env.runTraced visit p input s).2.1 := by
  induction p generalizing input s with
  | nil => exact .nil env visit input s
  | cons step rest ih =>
    simp only [runTraced]
    rcases happly : env.apply visit step input s with ⟨e | output, after⟩
    · exact .failed happly rfl rfl rfl
    · exact .cons happly rfl rfl rfl (ih output after)

/-- A pipeline that runs with a trace, at any moment of a call, ends as it does inside another one:
with the same value or error, in the same session and with the stack it began with. Its trace tells
the run. A call that runs the pipeline alone is the case of a session without a history. -/
theorem traced_eq_nested (env : Environment) (c : Call) (p : Pipeline) :
    let evaluation := (env.traced c p).1
    let last := (env.traced c p).2
    env.run (env.visitOn c.stack) p env.context.value c.session = (evaluation.outcome, last) ∧
      env.Ends (env.runTask p env.context.value) c (evaluation.outcome, ⟨last, c.stack⟩) ∧
      env.Tells (env.visitOn c.stack) p env.context.value c.session evaluation.outcome
        evaluation.steps ∧
      (∀ e, evaluation.error? = some e → evaluation.value = .null) ∧
      ∀ m, c = .start m →
        evaluatePipeline env.config env.context m p = (evaluation, last.memory) := by
  intro evaluation last
  have hrun : env.run (env.visitOn c.stack) p env.context.value c.session =
      (evaluation.outcome, last) := (env.runTraced_eq_run _ p _ c.session).symm
  refine ⟨hrun, ?_, env.tells_runTraced _ p _ c.session, fun e he => ?_, ?_⟩
  · have hends := @ends_eval env _ (env.runTask p env.context.value) c
    rwa [eval_runTask, hrun] at hends
  · cases houtcome : evaluation.outcome with
    | ok v => simp [Evaluation.error?, houtcome, Outcome.error?] at he
    | error e' => rw [Evaluation.value, houtcome, Outcome.value]
  · rintro m rfl
    rfl

end Environment

end FormulaPipeline
