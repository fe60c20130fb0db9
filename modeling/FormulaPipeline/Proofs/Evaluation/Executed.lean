import FormulaPipeline.Proofs.Evaluation.Frame

/-!
# The steps that an evaluation executes

A trace shows the steps of one pipeline. What is executed is more: the steps of operands and
arguments, and those of the nodes that are evaluated on the way, at every depth.
-/

namespace FormulaPipeline

/-- An executed step, with what it was given and what came of it. -/
structure Execution where
  step : Step
  input : Value
  result : Outcome

/-- What is executed in going on from a result; after an error that is nothing. -/
def executedNext {α : Type} (f : α → Session → List Execution) :
    Except EvalError α × Session → List Execution
  | (.error _, _) => []
  | (.ok a, s) => f a s

theorem forall_executedNext {α : Type} {f : α → Session → List Execution}
    {x : Except EvalError α × Session} {C : Execution → Prop}
    (h : ∀ a, x.1 = .ok a → ∀ y ∈ f a x.2, C y) : ∀ y ∈ executedNext f x, C y := by
  rcases x with ⟨e | a, s⟩
  · intro y hy
    cases hy
  · exact h a rfl

/-- Actions that agree go on in agreement, and what the first one executes next is known. -/
theorem Agree.andThen_executed {α β : Type} {R : Session → Session → Prop}
    {x y : Except EvalError α × Session} (h : Agree R x y) {C : Execution → Prop}
    {next : α → Session → List Execution} (hexecuted : ∀ z ∈ executedNext next x, C z)
    {f g : α → Action β}
    (hnext : ∀ a s t, R s t → (∀ z ∈ next a s, C z) → Agree R (f a s) (g a t)) :
    Agree R (FormulaPipeline.andThen x f) (FormulaPipeline.andThen y g) := by
  obtain ⟨rx, s⟩ := x
  obtain ⟨ry, t⟩ := y
  obtain ⟨hresult, hrel⟩ := h
  obtain rfl : rx = ry := hresult
  cases rx with
  | error e => exact ⟨rfl, hrel⟩
  | ok a => exact hnext a s t hrel hexecuted

namespace Environment

section Runs

/- What a visit of an id executes is a parameter beside what it finds. -/
variable (env : Environment) (visit : Visit) (inside : String → Session → List Execution)

def executedConnect (source : String) (s : Session) : List Execution :=
  match source.toList with
  | '#' :: id => inside (String.ofList id) s
  | _ => if s.graph.contains source then inside source s else []

mutual

/-- What is executed within a step. -/
def executedWithin : Step → Session → List Execution
  | .connect source, s => executedConnect inside source s
  | .arithmetic _ left right, s =>
    executed left env.context.value s ++
      executedNext (fun _ => executed right env.context.value)
        (env.run visit left env.context.value s)
  | .call _ args, s => executedAll args s
  | _, _ => []

/-- The steps that a run executes, each after what is executed within it. -/
def executed : List Step → Value → Session → List Execution
  | [], _, _ => []
  | step :: rest, input, s =>
    executedWithin step s ++ ⟨step, input, (env.apply visit step input s).1⟩ ::
      executedNext (fun output => executed rest output) (env.apply visit step input s)

def executedAll : List (List Step) → Session → List Execution
  | [], _ => []
  | p :: rest, s =>
    executed p env.context.value s ++
      executedNext (fun _ => executedAll rest) (env.run visit p env.context.value s)

end

end Runs

section Nodes

variable (env : Environment) (visit : String → Session → Evaluation × Session)
  (inside : String → Session → List Execution)

def executedRefresh : List String → Session → List Execution
  | [], _ => []
  | id :: rest, s =>
    if isStale s id then inside id s ++ executedRefresh rest (visit id s).2
    else executedRefresh rest s

def executedEnter (id : String) (s : Session) : List Execution :=
  match s.graph.find? id with
  | none => []
  | some node =>
    executedRefresh visit inside node.dependencies s ++
      env.executed (fun x t => ((visit x t).1.outcome, (visit x t).2)) inside node.pipeline
        env.context.value (refresh visit node.dependencies s)

def executedNode : Nat → List String → String → Session → List Execution
  | depth, active, id, s =>
    match settled? active id s with
    | some _ => []
    | none =>
      match depth with
      | 0 => []
      | depth + 1 =>
        let chain := active ++ [id]
        env.executedEnter (env.node depth chain) (executedNode depth chain) id (s.enter chain)

end Nodes

end Environment

def executedByNode (config : Config) (context : Context) (m : Memory) (id : String) :
    List Execution :=
  Environment.executedNode ⟨config, context⟩ config.maxDepth [] id (Session.start m)

def executedByPipeline (config : Config) (context : Context) (m : Memory) (p : Pipeline) :
    List Execution :=
  let env : Environment := ⟨config, context⟩
  env.executed env.visitTop (env.executedNode config.maxDepth []) p context.value (Session.start m)

namespace Environment

/-! ## Properties of what is executed -/

section Runs

variable {env : Environment} {visit : Visit} {inside : String → Session → List Execution}
  {C : Execution → Prop}

theorem forall_executed_cons {step : Step} {rest : List Step} {input : Value} {s : Session} :
    (∀ x ∈ env.executed visit inside (step :: rest) input s, C x) ↔
      (∀ x ∈ env.executedWithin visit inside step s, C x) ∧
        C ⟨step, input, (env.apply visit step input s).1⟩ ∧
        ∀ x ∈ executedNext (fun output => env.executed visit inside rest output)
          (env.apply visit step input s), C x := by
  rw [executed, List.forall_mem_append, List.forall_mem_cons]

end Runs

end Environment

end FormulaPipeline
