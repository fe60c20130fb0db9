import FormulaPipeline.Proofs.Evaluation.Access
import FormulaPipeline.Proofs.Evaluation.Asked
import FormulaPipeline.Proofs.Evaluation.Meaning

/-!
# Who calls a host function

A function is called under its name in any case of the ASCII letters. A pipeline without such a call
runs in the same way whether or not the function is registered, and a node has the same meaning if
lookups lead from it to such pipelines only.
-/

namespace FormulaPipeline

open Step (Access Shape)

namespace Step.Access

/-- The access is a call of the function with a name. -/
def Calls (name : String) : Access → Prop
  | call callee => Text.asciiUpper name = Text.asciiUpper callee
  | _ => False

instance (name : String) : DecidablePred (Calls name)
  | call callee => inferInstanceAs (Decidable (Text.asciiUpper name = Text.asciiUpper callee))
  | listed _ => .isFalse id
  | stray _ => .isFalse id

end Step.Access

def Pipeline.Calls (p : Pipeline) (name : String) : Prop := ∃ x ∈ p.accesses, x.Calls name

instance (p : Pipeline) (name : String) : Decidable (p.Calls name) := by
  unfold Pipeline.Calls
  infer_instance

/-- The function does not look at how often it was called. -/
def HostFunction.Pure (f : HostFunction) : Prop :=
  ∀ n m args context, f.run n args context = f.run m args context

namespace Registry

theorem get?_register (r : Registry) (name callee : String) (f : HostFunction) :
    (r.register name f).get? callee =
      if Text.asciiUpper name = Text.asciiUpper callee then some f else r.get? callee :=
  Keyed.find?_insert _ _ f r.functions

theorem Pure.register {r : Registry} (hr : r.Pure) {f : HostFunction} (hf : f.Pure)
    (name : String) : (r.register name f).Pure := by
  intro callee f' h
  rw [get?_register] at h
  split at h
  · obtain rfl := Option.some.inj h
    exact hf
  · exact hr callee f' h

end Registry

namespace Environment

/-- The environment with one more host function. -/
def register (env : Environment) (name : String) (f : HostFunction) : Environment :=
  { env with config := { env.config with functions := env.config.functions.register name f } }

section Runs

variable (env : Environment) (visit : Visit) {name : String} (f : HostFunction)

mutual

theorem apply_register {shape : Shape} (step : Step) (input : Value) (s : Session)
    (h : ∀ x ∈ step.accesses shape, ¬x.Calls name) :
    (env.register name f).apply visit step input s = env.apply visit step input s := by
  cases step with
  | arithmetic op left right =>
    rw [Step.accesses, List.forall_mem_append] at h
    rw [apply_arithmetic, apply_arithmetic, show (env.register name f).context = env.context from
      rfl, run_register left _ _ h.1]
    refine andThen_ext fun a t => ?_
    rw [run_register right _ _ h.2]
  | call callee args =>
    rw [Step.accesses, List.forall_mem_cons] at h
    rw [apply_call, apply_call, runAll_register args _ h.2]
    refine andThen_ext fun values t => ?_
    have hget : (env.config.functions.register name f).get? callee =
        env.config.functions.get? callee :=
      (Registry.get?_register _ name callee f).trans (if_neg h.1)
    simp only [Environment.call, register, hget]
  | connect | segment | designate | synthesize | literal | default | malformed => rfl

/-- A pipeline that does not call the function runs as without it. -/
theorem run_register {shape : Shape} (p : List Step) (input : Value) (s : Session)
    (h : ∀ x ∈ Step.accessesIn shape p, ¬x.Calls name) :
    (env.register name f).run visit p input s = env.run visit p input s := by
  cases p with
  | nil => rfl
  | cons step rest =>
    rw [Step.accessesIn, List.forall_mem_append] at h
    rw [run_cons, run_cons, apply_register step _ _ h.1]
    exact andThen_ext fun output t => run_register rest output t h.2

theorem runAll_register (args : List (List Step)) (s : Session)
    (h : ∀ x ∈ Step.accessesInAll args, ¬x.Calls name) :
    (env.register name f).runAll visit args s = env.runAll visit args s := by
  cases args with
  | nil => rfl
  | cons p rest =>
    rw [Step.accessesInAll, List.forall_mem_append] at h
    rw [runAll_cons, runAll_cons, show (env.register name f).context = env.context from rfl,
      run_register p _ _ h.1]
    refine andThen_ext fun v t => ?_
    rw [runAll_register rest _ h.2]

end

end Runs

variable {env : Environment} {g : Graph} {name : String} {f : HostFunction}

/-- A node from which lookups lead to no caller of the function means what it meant without it. -/
theorem meaning_register {D : String → Prop}
    (hcalls : ∀ x node, D x → g.find? x = some node → ¬node.pipeline.Calls name)
    (hclosed : ∀ x node, D x → g.find? x = some node → ∀ y ∈ node.pipeline.targets, D y)
    (depth : Nat) {x : String} (hx : D x) :
    (env.register name f).meaning g depth x = env.meaning g depth x := by
  induction depth generalizing x with
  | zero =>
    unfold meaning
    rfl
  | succ depth ih =>
    cases hnode : g.find? x with
    | none => rw [meaning_of_find?_none _ hnode, meaning_of_find?_none _ hnode]
    | some node =>
      have hfree : ∀ a ∈ node.pipeline.accesses, ¬a.Calls name :=
        fun a ha hcall => hcalls x node hx hnode ⟨a, ha, hcall⟩
      rw [meaning_succ _ hnode, meaning_succ _ hnode, run_register _ _ _ _ _ _ hfree]
      refine congrArg Prod.fst (run_congr _ _ _ fun y hy => funext fun s => ?_)
      rw [ih (hclosed x node hx hnode y (asked_subset_targets _ _ _ y hy))]

end Environment

end FormulaPipeline
