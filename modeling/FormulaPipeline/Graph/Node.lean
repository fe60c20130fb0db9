import FormulaPipeline.Evaluation.Error
import FormulaPipeline.Pipeline.Document

/-!
# Nodes

A node is a named pipeline with the names it reads and the outcome of its last evaluation.
-/

namespace FormulaPipeline

/-- What a node is made from. The formula is kept for display; the pipeline is what runs. -/
structure NodeDefinition where
  label : Option String := none
  formula : Option String := none
  pipeline : Pipeline := []
  dependencies : List String := []
  returnType : ReturnType := .unknown

namespace NodeDefinition

/-- A definition that reads its dependencies and its type off the pipeline. -/
def ofPipeline (p : Pipeline) : NodeDefinition :=
  { pipeline := p, dependencies := p.dependencies, returnType := p.returnType }

/-! ## Documents -/

def optionalText? : Json → Option (Option String)
  | .null => some none
  | .string s => some (some s)
  | _ => none

def texts? : Json → Option (List String)
  | .array items => items.mapM Json.string?
  | _ => none

/-- A type by its word, or by an object that holds nothing under the word. -/
def returnTypeOfJson? : Json → Option ReturnType
  | .string s => ofWord? ReturnType.all ReturnType.word s
  | .object [(s, .null)] => ofWord? ReturnType.all ReturnType.word s
  | _ => none

/-- The content of a field, or the default of a field that is not given. -/
def fieldD {α : Type} (read : Json → Option α) (default : α) : Option Json → Option α
  | some j => read j
  | none => some default

/-- A definition from the documents of its fields. -/
def ofFields? (label formula pipeline dependencies returnType : Option Json) :
    Option NodeDefinition := do
  let label ← fieldD optionalText? none label
  let formula ← fieldD optionalText? none formula
  let pipeline ← fieldD Pipeline.ofJson? [] pipeline
  let dependencies ← fieldD texts? [] dependencies
  let returnType ← fieldD returnTypeOfJson? .unknown returnType
  return ⟨label, formula, pipeline, dependencies, returnType⟩

/-- A definition is an object with some of its fields, or an array of the first of them. -/
def ofJson? : Json → Option NodeDefinition
  | .object members =>
    ofFields? (Keyed.find? "label" members) (Keyed.find? "formula" members)
      (Keyed.find? "pipeline" members) (Keyed.find? "dependencies" members)
      (Keyed.find? "returnType" members)
  | .array items =>
    if 5 < items.length then none
    else ofFields? items[0]? items[1]? items[2]? items[3]? items[4]?
  | _ => none

def textMember (name : String) : Option String → List (String × Json)
  | some s => [(name, .string s)]
  | none => []

/-- The document of a definition, its fields in key order. -/
def toJson (d : NodeDefinition) : Json :=
  .object ([("dependencies", .array (d.dependencies.map .string))] ++
    textMember "formula" d.formula ++ textMember "label" d.label ++
    [("pipeline", d.pipeline.toJson), ("returnType", .string d.returnType.word)])

end NodeDefinition

/-- A node of a graph. A node that is not dirty holds the outcome of its last evaluation; a null
outcome stands for none. -/
structure Node where
  id : String
  label : String
  formula : Option String
  pipeline : Pipeline
  dependencies : List String
  returnType : ReturnType
  outcome : Outcome
  dirty : Bool
  evaluated : Bool

namespace Node

/-- A node that has not been evaluated. Its label is its id unless it is given another. -/
def ofDefinition (id : String) (d : NodeDefinition) : Node where
  id := id
  label := d.label.getD id
  formula := d.formula
  pipeline := d.pipeline
  dependencies := d.dependencies
  returnType := d.returnType
  outcome := .ok .null
  dirty := true
  evaluated := false

def dependsOn (n : Node) (id : String) : Bool := n.dependencies.contains id

/-- The value of the last evaluation; a failed one has none. -/
def cached (n : Node) : Value :=
  match n.outcome with
  | .ok v => v
  | .error _ => .null

def lastError? (n : Node) : Option EvalError :=
  match n.outcome with
  | .ok _ => none
  | .error e => some e

/-- The cached value, when it may be used again. -/
def fresh? (n : Node) : Option Value :=
  if n.dirty || n.cached.isNull then none else some n.cached

end Node

end FormulaPipeline
