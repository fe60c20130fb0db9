import FormulaPipeline.Proofs.Evaluation.Lockstep

/-!
# Where errors come from

Operators and builtin functions fail with errors about their operands and arguments. An error that
tells of a node comes from looking up a node, so a run fails only as its lookups, its host functions
and its steps do.
-/

namespace FormulaPipeline

namespace EvalError

/-- An error of a step by itself, which tells of no node. -/
def IsLocal : EvalError → Prop
  | nodeNotFound _ | cyclicDependency _ | depthExceeded _ => False
  | _ => True

end EvalError

/-- A failure, if there is one, is of the given kind. -/
def FailsOnly {α : Type} (E : EvalError → Prop) (x : Except EvalError α) : Prop :=
  ∀ e, x = .error e → E e

namespace FailsOnly

variable {α β : Type} {E E' : EvalError → Prop} {x : Except EvalError α}

@[simp] theorem ok (a : α) : FailsOnly E (.ok a) := by simp [FailsOnly]

@[simp] theorem pure (a : α) : FailsOnly E (Pure.pure a : Except EvalError α) := ok a

@[simp] theorem error_iff {e : EvalError} : FailsOnly E (.error e : Except EvalError α) ↔ E e := by
  simp [FailsOnly]

@[simp] theorem throw_iff {e : EvalError} : FailsOnly E (throw e : Except EvalError α) ↔ E e :=
  error_iff

theorem mono (h : FailsOnly E x) (hE : ∀ e, E e → E' e) : FailsOnly E' x :=
  fun e he => hE e (h e he)

theorem bind (h : FailsOnly E x) {f : α → Except EvalError β} (hf : ∀ a, FailsOnly E (f a)) :
    FailsOnly E (x >>= f) := by
  cases x with
  | error e => exact fun e' he' => h e' (by simpa [Bind.bind, Except.bind] using he')
  | ok a => exact hf a

theorem map (h : FailsOnly E x) (f : α → β) : FailsOnly E (x.map f) := by
  cases x with
  | error e => exact fun e' he' => h e' (by simpa [Except.map] using he')
  | ok a => exact ok (f a)

theorem ite {c : Prop} [Decidable c] {y : Except EvalError α} (hx : FailsOnly E x)
    (hy : FailsOnly E y) : FailsOnly E (if c then x else y) := by
  split
  · exact hx
  · exact hy

/-- A check before the rest of a computation. -/
theorem guard {c : Prop} [Decidable c] {e : EvalError} (he : E e) {f : PUnit → Except EvalError α}
    (hf : FailsOnly E (f ⟨⟩)) :
    FailsOnly E (if c then (throw e : Except EvalError PUnit) >>= f else f ⟨⟩) :=
  .ite (bind (throw_iff.2 he) fun _ => hf) hf

end FailsOnly

/-! ## Operators -/

namespace Arithmetic

open EvalError

theorem operands_fails (op : BinaryOp) (left right : Value) :
    FailsOnly IsLocal (operands op left right) := by
  have hoperand : ∀ v, FailsOnly IsLocal (operand op v) := by
    intro v
    unfold operand
    split
    · exact .ok _
    · split
      · exact .ok _
      · exact FailsOnly.error_iff.2 trivial
  exact (hoperand left).bind fun a => (hoperand right).bind fun b => .ok _

theorem Layers.apply_fails (k : Layers) (op : BinaryOp) (a b : Numeric) :
    FailsOnly IsLocal (k.apply op a b) := by
  unfold Layers.apply
  split
  · exact .ok _
  · exact .ite (.ok _) (FailsOnly.error_iff.2 trivial)

theorem power_fails (base exponent : Numeric) : FailsOnly IsLocal (power base exponent) := by
  simp only [power]
  split
  · exact .ok _
  · exact .ite (.ok _) (FailsOnly.error_iff.2 trivial)

theorem compute_fails (k : Layers) (op : BinaryOp) (left right : Value) :
    FailsOnly IsLocal (compute k op left right) :=
  (operands_fails op left right).bind fun _ => k.apply_fails op _ _

theorem computeNonzero_fails (k : Layers) (op : BinaryOp) (left right : Value) :
    FailsOnly IsLocal (computeNonzero k op left right) :=
  (operands_fails op left right).bind fun _ => .guard trivial (k.apply_fails op _ _)

end Arithmetic

open Arithmetic in
theorem BinaryOp.apply_fails (op : BinaryOp) (left right : Value) :
    FailsOnly EvalError.IsLocal (op.apply left right) := by
  cases op with
  | add => exact .ite (.ok _) (compute_fails _ _ _ _)
  | subtract | multiply => exact compute_fails _ _ _ _
  | divide | modulo => exact computeNonzero_fails _ _ _ _
  | power => exact (operands_fails _ _ _).bind fun _ => power_fails _ _
  | equal | notEqual | less | greater | lessEqual | greaterEqual => exact .ok _

/-! ## Builtin functions -/

namespace Argument

open EvalError

theorem number_fails (args : List Value) (i : Nat) (function : String) :
    FailsOnly IsLocal (number args i function) := by
  unfold number
  split
  · exact .ok _
  · split
    · exact .ok _
    · exact FailsOnly.error_iff.2 trivial

theorem integer_fails (args : List Value) (i : Nat) (default : Int) (function : String) :
    FailsOnly IsLocal (integer args i default function) := by
  unfold integer
  split
  · exact .ok _
  · split
    · exact .ok _
    · exact FailsOnly.error_iff.2 trivial

theorem count_fails (args : List Value) (i : Nat) (default : Int) (function : String) :
    FailsOnly IsLocal (count args i default function) :=
  (integer_fails args i default function).bind fun _ => .guard trivial (.pure _)

end Argument

namespace Builtin

open Argument EvalError

/-- A function of one number fails only on an argument that is no number. -/
theorem ofNumber_fails (args : List Value) (i : Nat) (function : String)
    {f : Binary64 → Except EvalError Value} (hf : ∀ x, FailsOnly IsLocal (f x)) :
    FailsOnly IsLocal (number args i function >>= f) :=
  (number_fails args i function).bind hf

theorem magnitude_fails (args : List Value) : FailsOnly IsLocal (magnitude args) := by
  unfold magnitude
  split
  · split <;> exact .ok _
  · exact .ok _
  · exact ofNumber_fails _ _ _ fun _ => .pure _

theorem squareRoot_fails (args : List Value) : FailsOnly IsLocal (squareRoot args) :=
  ofNumber_fails _ _ _ fun _ => .guard trivial (.pure _)

theorem power_fails (args : List Value) : FailsOnly IsLocal (power args) := by
  have hoperand : ∀ i, FailsOnly IsLocal (powerOperand args i) := fun i =>
    (number_fails args i _).bind fun _ => .pure _
  exact (hoperand 0).bind fun _ => (hoperand 1).bind fun _ => Arithmetic.power_fails _ _

theorem ofDate_fails (f : DateTime → Value) (args : List Value) :
    FailsOnly IsLocal (ofDate f args) := by
  unfold ofDate
  split
  · exact .ok _
  · refine FailsOnly.map ?_ f
    unfold date
    split
    · exact .ok _
    · exact FailsOnly.error_iff.2 trivial

theorem catalog_fails : ∀ entry ∈ catalog, ∀ args context,
    FailsOnly IsLocal (entry.2 args context) := by
  have hround : ∀ args, FailsOnly IsLocal (round args) := fun args =>
    ofNumber_fails _ _ _ fun _ => (integer_fails _ _ _ _).bind fun _ => .pure _
  have hfloor : ∀ args, FailsOnly IsLocal (floor args) := fun args =>
    ofNumber_fails _ _ _ fun _ => .pure _
  have hceiling : ∀ args, FailsOnly IsLocal (ceiling args) := fun args =>
    ofNumber_fails _ _ _ fun _ => .pure _
  have hleft : ∀ args, FailsOnly IsLocal (left args) := fun args =>
    (count_fails _ _ _ _).bind fun _ => .pure _
  have hright : ∀ args, FailsOnly IsLocal (right args) := fun args =>
    (count_fails _ _ _ _).bind fun _ => .pure _
  have hmiddle : ∀ args, FailsOnly IsLocal (middle args) := fun args =>
    (integer_fails _ _ _ _).bind fun _ => (count_fails _ _ _ _).bind fun _ => .pure _
  have hchoose : ∀ args, FailsOnly IsLocal (choose args) := fun args =>
    .ite (FailsOnly.error_iff.2 trivial) (.ok _)
  have hfail : ∀ args, FailsOnly IsLocal (fail args) := fun _ => FailsOnly.error_iff.2 trivial
  have hlength : ∀ args, FailsOnly IsLocal (length args) := by
    intro args
    unfold length
    split <;> exact .ok _
  have hswitch : ∀ args, FailsOnly IsLocal (switch args) := by
    intro args
    cases args <;> exact .ok _
  have hrecordId : ∀ args context, FailsOnly IsLocal (recordId args context) := by
    intro args context
    unfold recordId
    split <;> exact .ok _
  simp [catalog, plain, hround, hfloor, hceiling, hleft, hright, hmiddle, hchoose, hfail, hlength,
    hswitch, hrecordId, magnitude_fails, squareRoot_fails, power_fails, ofDate_fails, concatenate,
    lower, upper, trim, mapText, sum, average, greatest, least, numberCount, conjunction,
    disjunction, negation, now, today, year, month, day, formatDate, parseDate, unique, compact,
    join, coalesce, blank]

theorem ofName?_fails {name : String} {f : Builtin} (h : ofName? name = some f)
    (args : List Value) (context : CallContext) : FailsOnly IsLocal (f args context) := by
  exact catalog_fails _ (mem_catalog_of_ofName? h) args context

end Builtin

/-! ## Runs -/

theorem FailsOnly.andThen {α β : Type} {E : EvalError → Prop} {x : Except EvalError α × Session}
    (h : FailsOnly E x.1) {f : α → Action β} (hf : ∀ a s, FailsOnly E (f a s).1) :
    FailsOnly E (andThen x f).1 := by
  rcases x with ⟨e | a, s⟩
  · exact error_iff.2 (error_iff.1 h)
  · exact hf a s

theorem Context.designate_fails (context : Context) (property : String) (input : Value) :
    FailsOnly EvalError.IsLocal (context.designate property input) := by
  have hread : FailsOnly EvalError.IsLocal (context.readRecord property) := by
    unfold readRecord
    split
    · exact FailsOnly.error_iff.2 trivial
    · split
      · exact .ok _
      · exact FailsOnly.error_iff.2 trivial
  unfold designate
  split
  · exact .ok _
  · exact .ite (.ok _) hread

namespace Environment

/-- Everything that a run does fails with errors of one kind only. -/
structure Fails (env : Environment) (E : EvalError → Prop) (visit : Visit) : Prop where
  steps : ∀ e, e.IsLocal → E e
  missing : ∀ id, E (.nodeNotFound id)
  host : ∀ name f, env.config.functions.get? name = some f →
    ∀ n args context, FailsOnly E (f.run n args context)
  visited : ∀ id s, FailsOnly E (visit id s).1

namespace Fails

variable {env : Environment} {E : EvalError → Prop} {visit : Visit}

theorem call (F : env.Fails E visit) (name : String) (args : List Value) (s : Session) :
    FailsOnly E (env.call name args s).1 := by
  unfold Environment.call
  cases hname : env.config.functions.get? name with
  | some f => exact F.host name f hname _ _ _
  | none =>
    cases hbuiltin : Builtin.ofName? name with
    | some f => exact (Builtin.ofName?_fails hbuiltin args _).mono F.steps
    | none => exact FailsOnly.error_iff.2 (F.steps _ trivial)

theorem connect (F : env.Fails E visit) (source : String) (s : Session) :
    FailsOnly E (env.connect visit source s).1 := by
  unfold Environment.connect
  split
  · exact F.visited _ _
  · split
    · exact F.visited _ _
    · unfold connectData
      split
      · exact .ok _
      · split
        · exact FailsOnly.error_iff.2 (F.missing _)
        · exact .ok _

mutual

theorem apply (F : env.Fails E visit) (step : Step) (input : Value) (s : Session) :
    FailsOnly E (env.apply visit step input s).1 := by
  cases step with
  | connect source => exact F.connect source s
  | designate property => exact (env.context.designate_fails property input).mono F.steps
  | arithmetic op left right =>
    rw [apply_arithmetic]
    refine (F.run left _ s).andThen fun a t => (F.run right _ t).andThen fun b u => ?_
    exact (op.apply_fails a b).mono F.steps
  | call name args =>
    rw [apply_call]
    exact (F.runAll args s).andThen fun values t => F.call name values t
  | malformed raw reason => exact FailsOnly.error_iff.2 (F.steps _ trivial)
  | segment | synthesize | literal | default => exact .ok _

/-- A run fails as its lookups, its host functions and its steps do. -/
theorem run (F : env.Fails E visit) (p : List Step) (input : Value) (s : Session) :
    FailsOnly E (env.run visit p input s).1 := by
  cases p with
  | nil => exact .ok _
  | cons step rest =>
    rw [run_cons]
    exact (F.apply step input s).andThen fun output t => F.run rest output t

theorem runAll (F : env.Fails E visit) (args : List (List Step)) (s : Session) :
    FailsOnly E (env.runAll visit args s).1 := by
  cases args with
  | nil => exact .ok _
  | cons p rest =>
    rw [runAll_cons]
    exact (F.run p _ s).andThen fun v t => (F.runAll rest t).andThen fun values u => .ok _

end

end Fails

end Environment

end FormulaPipeline
