import FormulaPipeline.Calculator

/-!
# Reports

What hosts are shown of a compiled formula and of an evaluation.
-/

namespace FormulaPipeline

namespace Report

/-- The pipeline of a formula with what it reads and returns, or the error and its position. -/
def compilation (formula : String) : Json :=
  match Pipeline.ofFormula formula with
  | .ok p =>
    .object [("dependencies", .array (p.dependencies.map .string)), ("pipeline", p.toJson),
      ("returnType", .string p.returnType.word)]
  | .error e =>
    .object [("dependencies", .array []), ("error", .string e.message), ("pipeline", .array []),
      ("position", .int e.position), ("returnType", .string ReturnType.error.word)]

/-- The numbered steps of a formula, or the error alone. -/
def inspection (formula : String) : List String :=
  match Pipeline.ofFormula formula with
  | .ok p => p.outline
  | .error e => ["Syntax error: " ++ e.describe]

def textMember (name : String) : Option String → List (String × Json)
  | some s => [(name, .string s)]
  | none => []

def step (t : StepTrace) : Json :=
  .object (textMember "error" ((Outcome.error? t.result).map EvalError.message) ++
    [("input", t.input.toJson), ("operator", .string t.operator), ("output", t.output.toJson)] ++
    textMember "warning" t.warning)

def failure : Option EvalError → List (String × Json)
  | some e => [("error", .string e.message), ("kind", .string e.kind)]
  | none => []

/-- The value of an evaluation with its error and its warnings, and its steps on request. -/
def evaluation (e : Evaluation) (withSteps : Bool) : Json :=
  Json.ofMembers ([("value", e.value.toJson)] ++ failure e.error? ++
    (if e.warnings.isEmpty then [] else [("warnings", .array (e.warnings.map .string))]) ++
    (if e.fromCache then [("fromCache", .bool true)] else []) ++
    (if withSteps then [("steps", .array (e.steps.map step))] else []))

end Report

end FormulaPipeline
