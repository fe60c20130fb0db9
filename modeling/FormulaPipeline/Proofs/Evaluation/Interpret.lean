import FormulaPipeline.Proofs.Evaluation.Lockstep

/-!
# Compiled expressions

An expression can be evaluated on its tree, without a pipeline. Its pipeline does the same: it finds
the same value or the same error, and it leaves the same session behind.
-/

namespace FormulaPipeline.Environment

/-- What a filter leaves of a value; a missing filter leaves all of it. -/
def filtered (filter : Option Condition) (v : Value) : Value :=
  match filter with
  | some condition => condition.filter v
  | none => v

section Interpret

variable (env : Environment) (visit : Visit)

mutual

/-- The value of an expression, found by recursion on its tree. -/
def interpret : Expr → Action Value
  | .literal value _, s => (.ok value, s)
  | .field name filter, s =>
    (env.context.designate name (filtered filter env.context.value), s)
  | .node name filter, s =>
    andThen (env.connect visit name s) fun v s => (.ok (filtered filter v), s)
  | .property source name, s =>
    andThen (interpret source s) fun v s => (env.context.designate name v, s)
  | .aggregation source mode property separator, s =>
    andThen (interpret source s) fun v s =>
      (.ok (mode.apply property (separator.getD env.config.separator) v), s)
  | .binary op left right, s =>
    andThen (interpret left s) fun a s =>
      andThen (interpret right s) fun b s => (op.apply a b, s)
  | .negate operand, s =>
    andThen (interpret operand s) fun a s => (BinaryOp.multiply.apply a (.int (-1)), s)
  | .call name args, s => andThen (interpretAll args s) fun values => env.call name values

/-- The values of arguments, from left to right. -/
def interpretAll : List Expr → Action (List Value)
  | [], s => (.ok [], s)
  | e :: rest, s =>
    andThen (interpret e s) fun v s =>
      andThen (interpretAll rest s) fun values s => (.ok (v :: values), s)

end

end Interpret

variable (env : Environment) (visit : Visit)

/-- Steps that follow others run on what the others make of the input. -/
theorem run_append (p q : List Step) (input : Value) (s : Session) :
    env.run visit (p ++ q) input s =
      andThen (env.run visit p input s) fun v => env.run visit q v := by
  induction p generalizing input s with
  | nil => rfl
  | cons step rest ih =>
    rw [List.cons_append, run_cons, run_cons, andThen_andThen]
    exact andThen_ext fun output t => ih output t

theorem run_singleton (step : Step) (input : Value) (s : Session) :
    env.run visit [step] input s = env.apply visit step input s := by
  rw [run_cons]
  exact andThen_ok _

theorem run_filterSteps (filter : Option Condition) (v : Value) (s : Session) :
    env.run visit (Expr.filterSteps filter) v s = (.ok (filtered filter v), s) := by
  cases filter <;> rfl

mutual

/-- A compiled expression runs as the expression is evaluated. -/
theorem run_compile (e : Expr) (s : Session) :
    env.run visit e.compile env.context.value s = env.interpret visit e s := by
  cases e with
  | literal value type => rfl
  | field name filter =>
    rw [Expr.compile, interpret, run_append, run_filterSteps, andThen, run_singleton]
    rfl
  | node name filter =>
    rw [Expr.compile, interpret, run_cons]
    exact andThen_ext fun v t => run_filterSteps env visit filter v t
  | property source name =>
    rw [Expr.compile, interpret, run_append, run_compile source]
    exact andThen_ext fun v t => run_singleton env visit _ v t
  | aggregation source mode property separator =>
    rw [Expr.compile, interpret, run_append, run_compile source]
    exact andThen_ext fun v t => run_singleton env visit _ v t
  | binary op left right =>
    rw [Expr.compile, interpret, run_singleton, apply_arithmetic, run_compile left]
    refine andThen_ext fun a t => ?_
    rw [run_compile right]
  | negate operand =>
    rw [Expr.compile, interpret, run_singleton, apply_arithmetic, run_compile operand]
    rfl
  | call name args =>
    rw [Expr.compile, interpret, run_singleton, apply_call, runAll_compileAll args]

theorem runAll_compileAll (args : List Expr) (s : Session) :
    env.runAll visit (Expr.compileAll args) s = env.interpretAll visit args s := by
  cases args with
  | nil => rfl
  | cons e rest =>
    rw [Expr.compileAll, interpretAll, runAll_cons, run_compile e]
    refine andThen_ext fun v t => ?_
    rw [runAll_compileAll rest]

end

/-- Compilation keeps meaning: in every session, and whatever finds the values of nodes, the
compiled pipeline ends with the value or the error of the expression and in the same session,
whether it is traced or runs inside another one. -/
theorem compile_preserves_meaning (e : Expr) (s : Session) :
    env.run visit e.compile env.context.value s = env.interpret visit e s ∧
      ((env.runTraced visit e.compile env.context.value s).1,
        (env.runTraced visit e.compile env.context.value s).2.2) = env.interpret visit e s := by
  have hrun : env.run visit e.compile env.context.value s = env.interpret visit e s :=
    run_compile env visit e s
  have htraced := runTraced_eq_run env visit e.compile env.context.value s
  exact ⟨hrun, htraced.trans hrun⟩

end FormulaPipeline.Environment
