import FormulaPipeline.Formula.Parser
import FormulaPipeline.Pipeline.Step

/-!
# From expressions to pipelines

References and suffixes extend the pipeline of their source; operands and arguments are compiled to
pipelines of their own. A negation is a multiplication by `-1`.
-/

namespace FormulaPipeline

namespace Expr

def filterSteps : Option Condition → Pipeline
  | some condition => [.segment condition]
  | none => []

mutual

def compile : Expr → Pipeline
  | .literal value type => [.literal value type]
  | .field name filter => filterSteps filter ++ [.designate name]
  | .node name filter => .connect name :: filterSteps filter
  | .property source name => compile source ++ [.designate name]
  | .aggregation source mode projected separator =>
    compile source ++ [.synthesize mode projected separator]
  | .call name args => [.call name (compileAll args)]
  | .binary op left right => [.arithmetic op (compile left) (compile right)]
  | .negate operand => [.arithmetic .multiply (compile operand) [.literal (.int (-1)) .number]]

def compileAll : List Expr → List Pipeline
  | [] => []
  | e :: rest => compile e :: compileAll rest

end

end Expr

/-! ## What a pipeline reads -/

namespace Step

/-- Whether the step hands on the value it is given, so that a later property is still read from the
current record. -/
def keepsInput : Step → Bool
  | .segment _ => true
  | .default _ => true
  | .malformed .. => true
  | _ => false

/-- The id that a source names, without its marks. -/
def sourceId (source : String) : String := String.ofList (source.toList.dropWhile (· == '#'))

mutual

/-- The names that a step reads from outside: sources, and properties of the current record while no
earlier step has produced a value. -/
def reads (fromRecord : Bool) : Step → List String
  | .connect source => [sourceId source]
  | .designate property => if fromRecord then [property] else []
  | .arithmetic _ left right => readsSteps true left ++ readsSteps true right
  | .call _ args => readsArgs args
  | _ => []

def readsSteps (fromRecord : Bool) : List Step → List String
  | [] => []
  | step :: rest => reads fromRecord step ++ readsSteps (fromRecord && step.keepsInput) rest

def readsArgs : List (List Step) → List String
  | [] => []
  | p :: rest => readsSteps true p ++ readsArgs rest

end

end Step

/-- The result type that the last step of a pipeline promises. -/
inductive ReturnType where
  | number
  | text
  | boolean
  | array
  | unknown
  | error
  deriving DecidableEq, Repr

namespace ReturnType

def all : List ReturnType := [number, text, boolean, array, unknown, error]

def word : ReturnType → String
  | number => "number"
  | text => "text"
  | boolean => "boolean"
  | array => "array"
  | unknown => "unknown"
  | error => "error"

def ofAggregation : Aggregation → ReturnType
  | .concat => text
  | .collect => array
  | .first | .last => unknown
  | _ => number

def ofStep : Step → ReturnType
  | .synthesize mode .. => ofAggregation mode
  | .arithmetic op .. => if op.isComparison then boolean else number
  | _ => unknown

end ReturnType

namespace Pipeline

/-- The names that a pipeline reads from outside, in order and without repetition. -/
def dependencies (p : Pipeline) : List String := Keyed.sortNames (Step.readsSteps true p)

def returnType (p : Pipeline) : ReturnType :=
  match p.getLast? with
  | some step => .ofStep step
  | none => .unknown

end Pipeline

/-- The pipeline that a formula compiles to. -/
def Pipeline.ofFormula (text : String) : Except SyntaxError Pipeline :=
  (Expr.parse text).map Expr.compile

theorem Pipeline.exists_ofFormula {text : String} {check : Pipeline → Bool}
    (h : (Pipeline.ofFormula text).toOption.any check = true) :
    ∃ p, Pipeline.ofFormula text = .ok p ∧ check p = true := by
  cases hformula : Pipeline.ofFormula text with
  | error fault =>
    rw [hformula] at h
    cases h
  | ok p =>
    rw [hformula] at h
    exact ⟨p, rfl, h⟩

end FormulaPipeline
