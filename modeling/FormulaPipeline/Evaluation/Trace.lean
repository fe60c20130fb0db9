import FormulaPipeline.Evaluation.Run

/-!
# Traced runs

A traced run keeps, for every step it has executed, what the step was given and what came of it.
-/

namespace FormulaPipeline

/-- One executed step. A step that failed has no output. -/
structure StepTrace where
  operator : String
  input : Value
  result : Outcome
  /-- The first warning that the step raised. -/
  warning : Option String

/-- The output of a step; a failed one counts as null. -/
def Outcome.value (o : Outcome) : Value :=
  match o with
  | .ok v => v
  | .error _ => .null

def Outcome.error? (o : Outcome) : Option EvalError :=
  match o with
  | .ok _ => none
  | .error e => some e

namespace StepTrace

def output (t : StepTrace) : Value := Outcome.value t.result

/-- The step on one line, after its number. -/
def describe (t : StepTrace) : String :=
  let error := match t.result with
    | .error e => " (" ++ e.message ++ ")"
    | .ok _ => ""
  let warning := match t.warning with
    | some w => " [warning: " ++ w ++ "]"
    | none => ""
  t.operator ++ ": " ++ t.input.compact ++ " -> " ++ t.output.compact ++ error ++ warning

end StepTrace

/-- The result of evaluating a pipeline or a node. -/
structure Evaluation where
  outcome : Outcome
  steps : List StepTrace := []
  warnings : List String := []
  fromCache : Bool := false

namespace Evaluation

/-- An evaluation that ran nothing. -/
def ofOutcome (outcome : Outcome) : Evaluation := { outcome := outcome }

def value (e : Evaluation) : Value := Outcome.value e.outcome

def error? (e : Evaluation) : Option EvalError := Outcome.error? e.outcome

/-- The executed steps, one on a line. -/
def describeSteps (e : Evaluation) : String :=
  String.join (e.steps.zipIdx.map fun (step, i) =>
    toString (i + 1) ++ ". " ++ step.describe ++ "\n")

end Evaluation

namespace Environment

/-- The result of steps, with the trace of those that were executed. -/
def runTraced (env : Environment) (visit : Visit) :
    List Step → Value → Session → Outcome × List StepTrace × Session
  | [], input, s => (.ok input, [], s)
  | step :: rest, input, s =>
    let (result, after) := env.apply visit step input s
    let trace : StepTrace :=
      ⟨step.operator, input, result, (after.warningsFrom s.warnings.length).head?⟩
    match result with
    | .error e => (.error e, [trace], after)
    | .ok output =>
      let (outcome, steps, last) := runTraced env visit rest output after
      (outcome, trace :: steps, last)

end Environment

end FormulaPipeline
