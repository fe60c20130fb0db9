import FormulaPipeline.Pipeline.Compile
import FormulaPipeline.Proofs.Formula.Folding

/-!
# Pipelines up to the spelling of function names

Compiling goes along with folding the names of functions, and neither what a pipeline reads nor the
type that it promises depends on these names.
-/

namespace FormulaPipeline

namespace Step

mutual

/-- The step with the names of functions in upper case. -/
def folded : Step → Step
  | .connect source => .connect source
  | .segment condition => .segment condition
  | .designate property => .designate property
  | .synthesize mode property separator => .synthesize mode property separator
  | .literal value type => .literal value type
  | .arithmetic op left right => .arithmetic op (foldedSteps left) (foldedSteps right)
  | .call name args => .call (Text.asciiUpper name) (foldedArgs args)
  | .default value => .default value
  | .malformed raw reason => .malformed raw reason

def foldedSteps : List Step → List Step
  | [] => []
  | step :: rest => folded step :: foldedSteps rest

def foldedArgs : List (List Step) → List (List Step)
  | [] => []
  | p :: rest => foldedSteps p :: foldedArgs rest

end

theorem foldedSteps_eq_map (p : Pipeline) : foldedSteps p = p.map folded := by
  induction p with
  | nil => rfl
  | cons step rest ih => rw [foldedSteps, ih, List.map_cons]

theorem foldedSteps_append (p q : Pipeline) :
    foldedSteps (p ++ q) = foldedSteps p ++ foldedSteps q := by
  simp only [foldedSteps_eq_map, List.map_append]

@[simp] theorem operator_folded (step : Step) : step.folded.operator = step.operator := by
  cases step <;> rfl

@[simp] theorem keepsInput_folded (step : Step) : step.folded.keepsInput = step.keepsInput := by
  cases step <;> rfl

mutual

theorem reads_folded (fromRecord : Bool) (step : Step) :
    reads fromRecord step.folded = reads fromRecord step := by
  cases step with
  | arithmetic op left right =>
    rw [folded, reads, reads, readsSteps_folded true left, readsSteps_folded true right]
  | call name args => rw [folded, reads, reads, readsArgs_folded args]
  | _ => rw [folded]

theorem readsSteps_folded (fromRecord : Bool) (p : List Step) :
    readsSteps fromRecord (foldedSteps p) = readsSteps fromRecord p := by
  cases p with
  | nil => rfl
  | cons step rest =>
    rw [foldedSteps, readsSteps, readsSteps, reads_folded fromRecord step, keepsInput_folded,
      readsSteps_folded _ rest]

theorem readsArgs_folded (args : List (List Step)) :
    readsArgs (foldedArgs args) = readsArgs args := by
  cases args with
  | nil => rfl
  | cons p rest =>
    rw [foldedArgs, readsArgs, readsArgs, readsSteps_folded true p, readsArgs_folded rest]

end

end Step

theorem ReturnType.ofStep_folded (step : Step) : ofStep step.folded = ofStep step := by
  cases step <;> rfl

namespace Pipeline

theorem dependencies_folded (p : Pipeline) :
    dependencies (Step.foldedSteps p) = dependencies p := by
  rw [dependencies, dependencies, Step.readsSteps_folded]

theorem dependencies_congr {p p' : Pipeline} (h : Step.foldedSteps p' = Step.foldedSteps p) :
    p'.dependencies = p.dependencies := by
  rw [← dependencies_folded, h, dependencies_folded]

theorem returnType_folded (p : Pipeline) : returnType (Step.foldedSteps p) = returnType p := by
  rw [returnType, returnType, Step.foldedSteps_eq_map, List.getLast?_map]
  cases p.getLast? with
  | none => rfl
  | some step => exact ReturnType.ofStep_folded step

theorem returnType_congr {p p' : Pipeline} (h : Step.foldedSteps p' = Step.foldedSteps p) :
    p'.returnType = p.returnType := by
  rw [← returnType_folded, h, returnType_folded]

end Pipeline

namespace Expr

theorem folded_filterSteps (filter : Option Condition) :
    Step.foldedSteps (filterSteps filter) = filterSteps filter := by
  cases filter <;> rfl

mutual

theorem folded_compile (e : Expr) : Step.foldedSteps (compile e) = compile e.folded := by
  cases e with
  | literal value type => rfl
  | field name filter =>
    rw [folded, compile, Step.foldedSteps_append, folded_filterSteps]
    rfl
  | node name filter => rw [folded, compile, Step.foldedSteps, folded_filterSteps, Step.folded]
  | property source name =>
    rw [folded, compile, compile, Step.foldedSteps_append, folded_compile source]
    rfl
  | aggregation source mode projected separator =>
    rw [folded, compile, compile, Step.foldedSteps_append, folded_compile source]
    rfl
  | call name args =>
    rw [folded, compile, compile, Step.foldedSteps, Step.folded, folded_compileAll args,
      Step.foldedSteps]
  | binary op left right =>
    rw [folded, compile, compile, Step.foldedSteps, Step.folded, folded_compile left,
      folded_compile right, Step.foldedSteps]
  | negate operand =>
    rw [folded, compile, compile, Step.foldedSteps, Step.folded, folded_compile operand]
    rfl

theorem folded_compileAll (es : List Expr) :
    Step.foldedArgs (compileAll es) = compileAll (foldedAll es) := by
  cases es with
  | nil => rfl
  | cons e rest =>
    rw [foldedAll, compileAll, compileAll, Step.foldedArgs, folded_compile e,
      folded_compileAll rest]

end

end Expr

/-- Texts that differ in words that count in any case are refused at the same place, or they compile
to pipelines that differ in the spelling of function names. -/
theorem Pipeline.ofFormula_recased {text text' : String} (h : Formula.Recased text text') :
    Matching (fun p p' => Step.foldedSteps p' = Step.foldedSteps p) (Pipeline.ofFormula text)
      (Pipeline.ofFormula text') :=
  (Expr.parse_recased h).map fun {e e'} he => by
    rw [Expr.folded_compile, Expr.folded_compile, he]

end FormulaPipeline
