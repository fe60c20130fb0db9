import FormulaPipeline.Proofs.Evaluation.Asked
import FormulaPipeline.Proofs.Evaluation.Frame

/-!
# Evaluations with a stack

An evaluation told as tasks that end one after the other, in a state that holds the nodes being
evaluated on a stack: an id is pushed when its node is entered and popped when the node is left.
Nothing bounds these tasks from the outside, and yet every one of them ends, in one way only, with
the result that the evaluator computes and with the stack it began with.
-/

namespace FormulaPipeline

/-- What there is to do in an evaluation. An attempt goes on after an error. -/
inductive Task : Type → Type 1
  | act {α : Type} (f : Action α) : Task α
  | node (id : String) : Task Value
  | bind {α β : Type} (first : Task α) (next : α → Task β) : Task β
  | attempt {α : Type} (task : Task α) : Task Unit

namespace Task

/-- A result that leaves the session alone. -/
def result {α : Type} (f : Session → Except EvalError α) : Task α := .act fun s => (f s, s)

/-- The result of a task when a function finds the values of nodes. -/
def eval (visit : Visit) : {α : Type} → Task α → Action α
  | _, .act f, s => f s
  | _, .node id, s => visit id s
  | _, .bind first next, s => andThen (eval visit first s) fun a => eval visit (next a)
  | _, .attempt task, s => (.ok (), (eval visit task s).2)

end Task

namespace Environment

section Tasks

variable (env : Environment)

def connectTask (source : String) : Task Value :=
  match source.toList with
  | '#' :: id => .node (String.ofList id)
  | _ =>
    .bind (.result fun s => .ok (s.graph.contains source)) fun known =>
      if known then .node source else .act (env.connectData source)

mutual

def stepTask : Step → Value → Task Value
  | .connect source, _ => env.connectTask source
  | .segment condition, input => .result fun _ => .ok (condition.filter input)
  | .designate property, input => .result fun _ => env.context.designate property input
  | .synthesize mode property separator, input =>
    .result fun _ => .ok (mode.apply property (separator.getD env.config.separator) input)
  | .literal value _, _ => .result fun _ => .ok value
  | .arithmetic op left right, _ =>
    .bind (runTask left env.context.value) fun a =>
      .bind (runTask right env.context.value) fun b => .result fun _ => op.apply a b
  | .call name args, _ => .bind (argsTask args) fun values => .act (env.call name values)
  | .default value, input => .result fun _ => .ok (if input.isEmpty then value else input)
  | .malformed _ reason, _ => .result fun _ => .error (.malformedStep reason)

/-- Run steps, each on the result of the one before. -/
def runTask : List Step → Value → Task Value
  | [], input => .result fun _ => .ok input
  | step :: rest, input => .bind (stepTask step input) fun output => runTask rest output

def argsTask : List (List Step) → Task (List Value)
  | [] => .result fun _ => .ok []
  | p :: rest =>
    .bind (runTask p env.context.value) fun v =>
      .bind (argsTask rest) fun values => .result fun _ => .ok (v :: values)

end

/-- Bring dependencies up to date, in order. -/
def refreshTask : List String → Task Unit
  | [] => .result fun _ => .ok ()
  | id :: rest =>
    .bind (.result fun s => .ok (isStale s id)) fun stale =>
      .bind (if stale then .attempt (.node id) else .result fun _ => .ok ()) fun _ =>
        refreshTask rest

end Tasks

/-! ## The evaluator computes tasks -/

section Computes

variable (env : Environment) (visit : Visit)

theorem eval_connectTask (source : String) (s : Session) :
    (env.connectTask source).eval visit s = env.connect visit source s := by
  unfold connectTask
  split
  · rename_i id hid
    simp only [Task.eval, connect, hid]
  · rename_i hnot
    rw [connect_of_not_marked hnot, Task.eval, Task.result, Task.eval, andThen]
    cases s.graph.contains source <;> rfl

mutual

theorem eval_stepTask (step : Step) (input : Value) (s : Session) :
    (env.stepTask step input).eval visit s = env.apply visit step input s := by
  cases step with
  | connect source =>
    rw [stepTask, eval_connectTask]
    rfl
  | arithmetic op left right =>
    rw [stepTask, apply_arithmetic, Task.eval, eval_runTask left]
    congr 1
    funext a t
    rw [Task.eval, eval_runTask right]
    rfl
  | call name args =>
    rw [stepTask, apply_call, Task.eval, eval_argsTask args]
    rfl
  | segment | designate | synthesize | literal | default | malformed => rfl

theorem eval_runTask (p : List Step) (input : Value) (s : Session) :
    (env.runTask p input).eval visit s = env.run visit p input s := by
  cases p with
  | nil => rfl
  | cons step rest =>
    rw [runTask, run_cons, Task.eval, eval_stepTask step]
    congr 1
    funext output t
    rw [eval_runTask rest]

theorem eval_argsTask (args : List (List Step)) (s : Session) :
    (env.argsTask args).eval visit s = env.runAll visit args s := by
  cases args with
  | nil => rfl
  | cons p rest =>
    rw [argsTask, runAll_cons, Task.eval, eval_runTask p]
    congr 1
    funext v t
    rw [Task.eval, eval_argsTask rest]
    rfl

end

theorem exists_eval_refreshTask (names : List String) (s : Session) :
    ∃ ready, (refreshTask names).eval visit s = (.ok (), ready) := by
  induction names generalizing s with
  | nil => exact ⟨s, rfl⟩
  | cons id rest ih =>
    simp only [refreshTask, Task.eval, Task.result, andThen]
    cases isStale s id <;> exact ih _

theorem eval_refreshTask (visit : String → Session → Evaluation × Session) (names : List String)
    (s : Session) :
    (refreshTask names).eval (fun id s => ((visit id s).1.outcome, (visit id s).2)) s =
      (.ok (), refresh visit names s) := by
  induction names generalizing s with
  | nil => rfl
  | cons id rest ih =>
    simp only [refreshTask, refresh, Task.eval, Task.result, andThen]
    cases isStale s id with
    | false => exact ih s
    | true => exact ih _

end Computes

/-! ## Tasks on a stack -/

/-- The state of a call: its session and the nodes that are being evaluated, outermost first. -/
structure Call where
  session : Session
  stack : List String

namespace Call

def start (m : Memory) : Call := ⟨Session.start m, []⟩

/-- Enter a node. The session logs the stack. -/
def push (c : Call) (id : String) : Call := ⟨c.session.enter (c.stack ++ [id]), c.stack ++ [id]⟩

/-- Leave the innermost node and keep its outcome. -/
def pop (c : Call) (id : String) (outcome : Outcome) : Call :=
  ⟨c.session.finish id outcome, c.stack.dropLast⟩

end Call

/-- A task that is begun in a state ends with a result in a state. -/
inductive Ends (env : Environment) :
    {α : Type} → Task α → Call → Except EvalError α × Call → Prop
  | act {α : Type} (f : Action α) (c : Call) :
      Ends env (.act f) c ((f c.session).1, { c with session := (f c.session).2 })
  | next {α β : Type} {first : Task α} {next : α → Task β} {c c' : Call} {a : α}
      {last : Except EvalError β × Call} (hfirst : Ends env first c (.ok a, c'))
      (hnext : Ends env (next a) c' last) : Ends env (.bind first next) c last
  | halt {α β : Type} {first : Task α} {next : α → Task β} {c c' : Call} {e : EvalError}
      (hfirst : Ends env first c (.error e, c')) : Ends env (.bind first next) c (.error e, c')
  | attempt {α : Type} {task : Task α} {c c' : Call} {r : Except EvalError α}
      (h : Ends env task c (r, c')) : Ends env (.attempt task) c (.ok (), c')
  | settled {c : Call} {id : String} {answer : Evaluation}
      (h : settled? c.stack id c.session = some answer) : Ends env (.node id) c (answer.outcome, c)
  | tooDeep {c : Call} {id : String} (h : settled? c.stack id c.session = none)
      (hfull : env.config.maxDepth ≤ c.stack.length) :
      Ends env (.node id) c (.error (.depthExceeded env.config.maxDepth), c)
  | entered {c ready last : Call} {id : String} {node : Node} {outcome : Outcome}
      (h : settled? c.stack id c.session = none) (hroom : c.stack.length < env.config.maxDepth)
      (hnode : c.session.graph.find? id = some node)
      (hready : Ends env (refreshTask node.dependencies) (c.push id) (.ok (), ready))
      (hlast : Ends env (env.runTask node.pipeline env.context.value) ready (outcome, last)) :
      Ends env (.node id) c (outcome, last.pop id outcome)

/-- The evaluator with the room that a stack leaves. -/
def visitOn (env : Environment) (stack : List String) : Visit := fun id s =>
  ((env.node (env.config.maxDepth - stack.length) stack id s).1.outcome,
    (env.node (env.config.maxDepth - stack.length) stack id s).2)

section Stack

variable {env : Environment}

theorem node_of_settled {active : List String} {id : String} {s : Session} {answer : Evaluation}
    (h : settled? active id s = some answer) (depth : Nat) :
    env.node depth active id s = (answer, s) := by
  cases depth <;> rw [node, h]

theorem visitOn_of_settled {stack : List String} {id : String} {s : Session} {answer : Evaluation}
    (h : settled? stack id s = some answer) : env.visitOn stack id s = (answer.outcome, s) := by
  rw [visitOn, node_of_settled h]

theorem visitOn_of_full {stack : List String} {id : String} {s : Session}
    (h : settled? stack id s = none) (hfull : env.config.maxDepth ≤ stack.length) :
    env.visitOn stack id s = (.error (.depthExceeded env.config.maxDepth), s) := by
  rw [visitOn, Nat.sub_eq_zero_of_le hfull, node, h]
  rfl

/-- A node that is entered is run, after its dependencies, one place further down the stack. -/
theorem visitOn_of_room {stack : List String} {id : String} {s : Session} {node : Node}
    (h : settled? stack id s = none) (hroom : stack.length < env.config.maxDepth)
    (hnode : s.graph.find? id = some node) {ready : Session}
    (hready : (refreshTask node.dependencies).eval (env.visitOn (stack ++ [id]))
      (s.enter (stack ++ [id])) = (.ok (), ready)) :
    env.visitOn stack id s =
      let last := (env.runTask node.pipeline env.context.value).eval (env.visitOn (stack ++ [id]))
        ready
      (last.1, last.2.finish id last.1) := by
  obtain ⟨depth, hdepth⟩ : ∃ depth, env.config.maxDepth - stack.length = depth + 1 :=
    ⟨env.config.maxDepth - stack.length - 1, by omega⟩
  have hchain : env.config.maxDepth - (stack ++ [id]).length = depth := by
    rw [List.length_append, List.length_singleton]
    omega
  have hvisit : env.visitOn (stack ++ [id]) = fun x t =>
      ((env.node depth (stack ++ [id]) x t).1.outcome, (env.node depth (stack ++ [id]) x t).2) := by
    funext x t
    rw [visitOn, hchain]
  rw [hvisit, eval_refreshTask, Prod.mk.injEq] at hready
  have hnode' : (s.enter (stack ++ [id])).graph.find? id = some node := hnode
  rw [eval_runTask, hvisit, ← hready.2, visitOn, hdepth, Environment.node, h]
  exact env.enter_eq_run (env.node depth (stack ++ [id])) hnode'

/-- What a task ends with is what the evaluator computes, and the stack is as it was. -/
theorem Ends.eval_eq {α : Type} {task : Task α} {c : Call} {r : Except EvalError α × Call}
    (h : env.Ends task c r) :
    task.eval (env.visitOn c.stack) c.session = (r.1, r.2.session) ∧ r.2.stack = c.stack := by
  induction h with
  | act f c => exact ⟨rfl, rfl⟩
  | next _ _ ihfirst ihnext =>
    obtain ⟨hfirst, hstack⟩ := ihfirst
    obtain ⟨hnext, hstack'⟩ := ihnext
    refine ⟨?_, hstack'.trans hstack⟩
    rw [hstack] at hnext
    rw [Task.eval, hfirst]
    exact hnext
  | halt _ ihfirst =>
    obtain ⟨hfirst, hstack⟩ := ihfirst
    refine ⟨?_, hstack⟩
    rw [Task.eval, hfirst]
    rfl
  | attempt _ ih =>
    obtain ⟨htask, hstack⟩ := ih
    refine ⟨?_, hstack⟩
    rw [Task.eval, htask]
  | settled h => exact ⟨visitOn_of_settled h, rfl⟩
  | tooDeep h hfull => exact ⟨visitOn_of_full h hfull, rfl⟩
  | @entered c ready last id node outcome h hroom hnode _ _ ihready ihlast =>
    obtain ⟨hready, hstack⟩ := ihready
    obtain ⟨hlast, hstack'⟩ := ihlast
    have hchain : last.stack = c.stack ++ [id] := hstack'.trans hstack
    have hready' : (refreshTask node.dependencies).eval (env.visitOn (c.stack ++ [id]))
        (c.session.enter (c.stack ++ [id])) = (.ok (), ready.session) := hready
    have hlast' : (env.runTask node.pipeline env.context.value).eval
        (env.visitOn (c.stack ++ [id])) ready.session = (outcome, last.session) :=
      (show ready.stack = c.stack ++ [id] from hstack) ▸ hlast
    refine ⟨?_, by simp [Call.pop, hchain]⟩
    rw [Task.eval, visitOn_of_room h hroom hnode hready', hlast']
    rfl

theorem ends_of_nodes {stack : List String}
    (hnodes : ∀ id s, env.Ends (.node id) ⟨s, stack⟩
      ((env.visitOn stack id s).1, ⟨(env.visitOn stack id s).2, stack⟩))
    {α : Type} (task : Task α) (s : Session) :
    env.Ends task ⟨s, stack⟩ ((task.eval (env.visitOn stack) s).1,
      ⟨(task.eval (env.visitOn stack) s).2, stack⟩) := by
  induction task generalizing s with
  | act f => exact .act f ⟨s, stack⟩
  | node id => exact hnodes id s
  | bind first next ihfirst ihnext =>
    have hfirst := ihfirst s
    rw [Task.eval]
    generalize first.eval (env.visitOn stack) s = result at hfirst ⊢
    obtain ⟨e | a, t⟩ := result
    · exact .halt hfirst
    · exact .next hfirst (ihnext a t)
  | attempt task ih => exact .attempt (ih s)

/-- Every task ends. -/
theorem ends_eval {α : Type} (task : Task α) (c : Call) :
    env.Ends task c ((task.eval (env.visitOn c.stack) c.session).1,
      ⟨(task.eval (env.visitOn c.stack) c.session).2, c.stack⟩) := by
  obtain ⟨s, stack⟩ := c
  refine ends_of_nodes ?_ task s
  clear task s
  -- by induction on the room that is left
  induction hdepth : env.config.maxDepth - stack.length generalizing stack with
  | zero =>
    intro id s
    cases hsettled : settled? stack id s with
    | some answer =>
      rw [visitOn_of_settled hsettled]
      exact .settled (c := ⟨s, stack⟩) hsettled
    | none =>
      have hfull : env.config.maxDepth ≤ stack.length := Nat.le_of_sub_eq_zero hdepth
      rw [visitOn_of_full hsettled hfull]
      exact .tooDeep (c := ⟨s, stack⟩) hsettled hfull
  | succ depth ih =>
    intro id s
    cases hsettled : settled? stack id s with
    | some answer =>
      rw [visitOn_of_settled hsettled]
      exact .settled (c := ⟨s, stack⟩) hsettled
    | none =>
      have hroom : stack.length < env.config.maxDepth := by omega
      obtain ⟨node, hnode⟩ : ∃ node, s.graph.find? id = some node := by
        cases hfind : s.graph.find? id with
        | none => simp [settled?, hfind] at hsettled
        | some node => exact ⟨node, rfl⟩
      have hnodes := ih (stack ++ [id]) (by rw [List.length_append, List.length_singleton]; omega)
      have hready := ends_of_nodes hnodes (refreshTask node.dependencies) (s.enter (stack ++ [id]))
      obtain ⟨ready, heval⟩ : ∃ ready, (refreshTask node.dependencies).eval
          (env.visitOn (stack ++ [id])) (s.enter (stack ++ [id])) = (.ok (), ready) :=
        exists_eval_refreshTask _ _ _
      rw [heval] at hready
      have hlast := ends_of_nodes hnodes (env.runTask node.pipeline env.context.value) ready
      have hentered := Ends.entered (c := ⟨s, stack⟩) hsettled hroom hnode hready hlast
      rw [visitOn_of_room hsettled hroom hnode heval]
      simpa [Call.pop] using hentered

end Stack

end Environment

end FormulaPipeline
