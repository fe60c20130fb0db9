import FormulaPipeline.Evaluation.Evaluate

/-!
# Calculators

A calculator holds named formulas and keeps their results up to date. It is a configuration together
with what evaluations remember.
-/

namespace FormulaPipeline

/-- Why a definition is refused. -/
inductive DefineError where
  | invalidFormula (error : SyntaxError)
  | cyclic (cycle : Cycle)
  deriving DecidableEq

def DefineError.message : DefineError → String
  | invalidFormula e => "Syntax error: " ++ e.describe
  | cyclic c => c.message

/-- A definition with all that can be read off its formula or its pipeline. A formula is compiled
when there is no pipeline; dependencies and type are read off the pipeline when none are listed. -/
def NodeDefinition.complete (d : NodeDefinition) : Except SyntaxError NodeDefinition :=
  match d.pipeline, d.formula with
  | [], some formula => do
    let p ← Pipeline.ofFormula formula
    return { NodeDefinition.ofPipeline p with label := d.label, formula := d.formula }
  | p, formula =>
    if d.dependencies.isEmpty then
      .ok { NodeDefinition.ofPipeline p with label := d.label, formula := formula }
    else .ok d

structure Calculator where
  config : Config := {}
  memory : Memory := {}

namespace Calculator

def graph (c : Calculator) : Graph := c.memory.graph

def withGraph (c : Calculator) (g : Graph) : Calculator :=
  { c with memory := { c.memory with graph := g } }

/-! ## Definitions -/

def define (c : Calculator) (id : String) (d : NodeDefinition) : Except DefineError Calculator :=
  match d.complete with
  | .error e => .error (.invalidFormula e)
  | .ok d =>
    match c.graph.define id d with
    | .error cycle => .error (.cyclic cycle)
    | .ok g => .ok (c.withGraph g)

def defineFormula (c : Calculator) (id formula : String) : Except DefineError Calculator :=
  c.define id { formula := some formula }

/-- Make a node and everything that depends on it dirty. -/
def invalidate (c : Calculator) (id : String) : Calculator := c.withGraph (c.graph.markDirty id)

/-- Forget all results. -/
def clear (c : Calculator) : Calculator := c.withGraph c.graph.clear

def remove (c : Calculator) (id : String) : Calculator := c.withGraph (c.graph.remove id)

/-- Add a host function; it goes before a builtin function of the same name. -/
def register (c : Calculator) (name : String) (f : HostFunction) : Calculator :=
  { config := { c.config with functions := c.config.functions.register name f }
    memory := c.memory.resetCalls name }

/-! ## Evaluations -/

def evaluate (c : Calculator) (context : Context) (id : String) : Evaluation × Calculator :=
  let (evaluation, memory) := evaluateNode c.config context c.memory id
  (evaluation, { c with memory := memory })

/-- Run a pipeline that is no node. -/
def runPipeline (c : Calculator) (context : Context) (p : Pipeline) : Evaluation × Calculator :=
  let (evaluation, memory) := evaluatePipeline c.config context c.memory p
  (evaluation, { c with memory := memory })

/-- Compile and run a formula that is no node. -/
def evaluateFormula (c : Calculator) (context : Context) (formula : String) :
    Evaluation × Calculator :=
  match Pipeline.ofFormula formula with
  | .error e => (.ofOutcome (.error (.invalidFormula e)), c)
  | .ok p => c.runPipeline context p

/-- Evaluate nodes in the given order. -/
def evaluateAll (c : Calculator) (context : Context) :
    List String → List (String × Evaluation) × Calculator
  | [] => ([], c)
  | id :: rest =>
    let (evaluation, next) := c.evaluate context id
    let (others, last) := evaluateAll next context rest
    ((id, evaluation) :: others, last)

/-- Bring every node up to date, each after its dependencies. -/
def recompute (c : Calculator) (context : Context) : List (String × Evaluation) × Calculator :=
  c.evaluateAll context c.graph.topologicalOrder

end Calculator

end FormulaPipeline
