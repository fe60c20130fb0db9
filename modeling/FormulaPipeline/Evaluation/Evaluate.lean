import FormulaPipeline.Evaluation.Trace

/-!
# Evaluating nodes

A node is served from its cache, from what this call has already found, or by running its pipeline
after its dirty dependencies. No node is entered while it is being evaluated, and no more nodes are
entered inside each other than the configuration allows.
-/

namespace FormulaPipeline

namespace Environment

variable (env : Environment)

/-- The answer for a node that needs no run: it is missing, cached, known from this call, or being
evaluated. The nodes that are being evaluated are listed outermost first. -/
def settled? (active : List String) (id : String) (s : Session) : Option Evaluation :=
  match s.graph.find? id with
  | none => some (.ofOutcome (.error (.nodeNotFound id)))
  | some node =>
    match node.fresh? with
    | some v => some { outcome := .ok v, fromCache := true }
    | none =>
      match s.outcome? id with
      | some outcome => some (.ofOutcome outcome)
      | none =>
        if active.contains id then
          some (.ofOutcome (.error (.cyclicDependency (active ++ [id]))))
        else none

/-- Whether a dependency has to be brought up to date. -/
def isStale (s : Session) (id : String) : Bool :=
  (s.graph.find? id).any (·.dirty) && (s.outcome? id).isNone

/-- Bring dependencies up to date, in order. Their errors do not count here. -/
def refresh (visit : String → Session → Evaluation × Session) :
    List String → Session → Session
  | [], s => s
  | id :: rest, s => refresh visit rest (if isStale s id then (visit id s).2 else s)

/-- Run the pipeline of a node and keep the outcome. -/
def enter (visit : String → Session → Evaluation × Session) (id : String) (s : Session) :
    Evaluation × Session :=
  match s.graph.find? id with
  | none => (.ofOutcome (.error (.nodeNotFound id)), s)
  | some node =>
    let ready := refresh visit node.dependencies s
    let value : Visit := fun id s => ((visit id s).1.outcome, (visit id s).2)
    let (outcome, steps, last) := env.runTraced value node.pipeline env.context.value ready
    ({ outcome := outcome, steps := steps, warnings := last.warningsFrom s.warnings.length },
      last.finish id outcome)

/-- Evaluate a node with room for `depth` more nodes inside each other. -/
def node : Nat → List String → String → Session → Evaluation × Session
  | depth, active, id, s =>
    match settled? active id s with
    | some answer => (answer, s)
    | none =>
      match depth with
      | 0 => (.ofOutcome (.error (.depthExceeded env.config.maxDepth)), s)
      | depth + 1 =>
        let chain := active ++ [id]
        env.enter (node depth chain) id (s.enter chain)

/-- The value of a node that a pipeline outside of any node asks for. -/
def visitTop : Visit := fun id s =>
  let (evaluation, s) := env.node env.config.maxDepth [] id s
  (evaluation.outcome, s)

end Environment

/-- Evaluate a node. -/
def evaluateNode (config : Config) (context : Context) (memory : Memory) (id : String) :
    Evaluation × Memory :=
  let env : Environment := ⟨config, context⟩
  let (evaluation, s) := env.node config.maxDepth [] id (Session.start memory)
  (evaluation, s.memory)

/-- Run a pipeline that is no node. -/
def evaluatePipeline (config : Config) (context : Context) (memory : Memory) (p : Pipeline) :
    Evaluation × Memory :=
  let env : Environment := ⟨config, context⟩
  let (outcome, steps, s) := env.runTraced env.visitTop p context.value (Session.start memory)
  ({ outcome := outcome, steps := steps, warnings := s.warnings }, s.memory)

end FormulaPipeline
