import FormulaPipeline.Evaluation.Trace
import FormulaPipeline.Proofs.Pipeline.Targets

/-!
# Runs in lockstep

Two runs of one pipeline that start in related sessions give the same outcome and end in related
sessions, provided that the relation is kept wherever a run touches its session: at a lookup in the
graph, at a warning and at a call. This is the one induction over pipelines; frames, caches and
changes elsewhere in the graph are instances of it.
-/

namespace FormulaPipeline

/-- Two actions end with the same result and in related sessions. -/
def Agree {α : Type} (R : Session → Session → Prop) (x y : Except EvalError α × Session) : Prop :=
  x.1 = y.1 ∧ R x.2 y.2

/-- Go on from a result in its session; an error ends the run. -/
def andThen {α β : Type} (x : Except EvalError α × Session) (f : α → Action β) :
    Except EvalError β × Session :=
  match x with
  | (.error e, s) => (.error e, s)
  | (.ok a, s) => f a s

theorem andThen_ok {α : Type} (x : Except EvalError α × Session) :
    andThen x (fun a s => (.ok a, s)) = x := by
  rcases x with ⟨e | a, s⟩ <;> rfl

theorem andThen_ext {α β : Type} {x : Except EvalError α × Session} {f g : α → Action β}
    (h : ∀ a s, f a s = g a s) : andThen x f = andThen x g :=
  congrArg (andThen x) (funext fun a => funext (h a))

theorem andThen_andThen {α β γ : Type} (x : Except EvalError α × Session) (f : α → Action β)
    (g : β → Action γ) : andThen (andThen x f) g = andThen x fun a s => andThen (f a s) g := by
  rcases x with ⟨e | a, s⟩ <;> rfl

theorem Agree.andThen {α β : Type} {R : Session → Session → Prop}
    {x y : Except EvalError α × Session} {f g : α → Action β} (h : Agree R x y)
    (hnext : ∀ a s t, R s t → Agree R (f a s) (g a t)) :
    Agree R (andThen x f) (andThen y g) := by
  obtain ⟨rx, sx⟩ := x
  obtain ⟨ry, sy⟩ := y
  obtain ⟨hresult, hrel⟩ := h
  obtain rfl : rx = ry := hresult
  cases rx with
  | error e => exact ⟨rfl, hrel⟩
  | ok a => exact hnext a sx sy hrel

namespace Environment

section Equations

variable (env : Environment) (visit : Visit) (s : Session)

theorem apply_arithmetic (op : BinaryOp) (left right : List Step) (input : Value) :
    env.apply visit (.arithmetic op left right) input s =
      andThen (env.run visit left env.context.value s) fun a s =>
        andThen (env.run visit right env.context.value s) fun b s => (op.apply a b, s) := by
  rw [apply]
  rcases env.run visit left env.context.value s with ⟨e | a, t⟩
  · rfl
  · simp only [andThen]
    rcases env.run visit right env.context.value t with ⟨e | b, u⟩ <;> rfl

theorem apply_call (name : String) (args : List (List Step)) (input : Value) :
    env.apply visit (.call name args) input s =
      andThen (env.runAll visit args s) fun values => env.call name values := by
  rw [apply]
  rcases env.runAll visit args s with ⟨e | values, s⟩ <;> rfl

theorem run_cons (step : Step) (rest : List Step) (input : Value) :
    env.run visit (step :: rest) input s =
      andThen (env.apply visit step input s) fun output => env.run visit rest output := by
  rw [run]
  rcases env.apply visit step input s with ⟨e | output, s⟩ <;> rfl

theorem runAll_cons (p : List Step) (rest : List (List Step)) :
    env.runAll visit (p :: rest) s =
      andThen (env.run visit p env.context.value s) fun v s =>
        andThen (env.runAll visit rest s) fun values s => (.ok (v :: values), s) := by
  rw [runAll]
  rcases env.run visit p env.context.value s with ⟨e | v, t⟩
  · rfl
  · simp only [andThen]
    rcases env.runAll visit rest t with ⟨e | values, u⟩ <;> rfl

end Equations

/-- Sessions stay related through everything that a run does, when all ids that it looks up satisfy
`D`. -/
structure Lockstep (env : Environment) (D : String → Prop) (R : Session → Session → Prop)
    (visit visit' : Visit) : Prop where
  visited : ∀ {id s t}, D id → R s t → Agree R (visit id s) (visit' id t)
  contains : ∀ {id s t}, D id → R s t → s.graph.contains id = t.graph.contains id
  wasRemoved : ∀ {id s t}, D id → R s t → s.graph.wasRemoved id = t.graph.wasRemoved id
  warned : ∀ {s t} text, R s t → R (s.warn text) (t.warn text)
  called : ∀ {s t} name args, R s t → Agree R (env.call name args s) (env.call name args t)

namespace Lockstep

variable {env : Environment} {D : String → Prop} {R : Session → Session → Prop}
  {visit visit' : Visit}

theorem connectData (L : env.Lockstep D R visit visit') {name : String} {s t : Session}
    (hname : D name) (hrel : R s t) :
    Agree R (env.connectData name s) (env.connectData name t) := by
  unfold Environment.connectData
  cases env.fromSource? name with
  | some v => exact ⟨rfl, hrel⟩
  | none =>
    simp only [L.wasRemoved hname hrel]
    cases t.graph.wasRemoved name with
    | true => exact ⟨rfl, hrel⟩
    | false => exact ⟨rfl, L.warned _ hrel⟩

theorem connect (L : env.Lockstep D R visit visit') {source : String} {s t : Session}
    (hsource : D (Step.target source)) (hrel : R s t) :
    Agree R (env.connect visit source s) (env.connect visit' source t) := by
  unfold Environment.connect
  split
  · rename_i id hid
    rw [Step.target_of_marked hid] at hsource
    exact L.visited hsource hrel
  · rename_i hnot
    rw [Step.target_of_not_marked hnot] at hsource
    rw [L.contains hsource hrel]
    split
    · exact L.visited hsource hrel
    · exact L.connectData hsource hrel

mutual

theorem apply (L : env.Lockstep D R visit visit') (step : Step) (input : Value) {s t : Session}
    (htargets : ∀ id ∈ step.targets, D id) (hrel : R s t) :
    Agree R (env.apply visit step input s) (env.apply visit' step input t) := by
  cases step with
  | connect source => exact L.connect (htargets _ (by simp [Step.targets])) hrel
  | segment condition => exact ⟨rfl, hrel⟩
  | designate property => exact ⟨rfl, hrel⟩
  | synthesize mode property separator => exact ⟨rfl, hrel⟩
  | literal value type => exact ⟨rfl, hrel⟩
  | arithmetic op left right =>
    rw [Step.targets, List.forall_mem_append] at htargets
    rw [apply_arithmetic, apply_arithmetic]
    refine (L.run left _ htargets.1 hrel).andThen fun a s t hrel => ?_
    exact (L.run right _ htargets.2 hrel).andThen fun b s t hrel => ⟨rfl, hrel⟩
  | call name args =>
    rw [Step.targets] at htargets
    rw [apply_call, apply_call]
    exact (L.runAll args htargets hrel).andThen fun values s t hrel => L.called name values hrel
  | default value => exact ⟨rfl, hrel⟩
  | malformed raw reason => exact ⟨rfl, hrel⟩

theorem run (L : env.Lockstep D R visit visit') (p : List Step) (input : Value) {s t : Session}
    (htargets : ∀ id ∈ Step.targetsIn p, D id) (hrel : R s t) :
    Agree R (env.run visit p input s) (env.run visit' p input t) := by
  cases p with
  | nil => exact ⟨rfl, hrel⟩
  | cons step rest =>
    rw [Step.targetsIn, List.forall_mem_append] at htargets
    rw [run_cons, run_cons]
    exact (L.apply step input htargets.1 hrel).andThen fun output s t hrel =>
      L.run rest output htargets.2 hrel

theorem runAll (L : env.Lockstep D R visit visit') (args : List (List Step)) {s t : Session}
    (htargets : ∀ id ∈ Step.targetsInAll args, D id) (hrel : R s t) :
    Agree R (env.runAll visit args s) (env.runAll visit' args t) := by
  cases args with
  | nil => exact ⟨rfl, hrel⟩
  | cons p rest =>
    rw [Step.targetsInAll, List.forall_mem_append] at htargets
    rw [runAll_cons, runAll_cons]
    refine (L.run p _ htargets.1 hrel).andThen fun v s t hrel => ?_
    exact (L.runAll rest htargets.2 hrel).andThen fun values s t hrel => ⟨rfl, hrel⟩

end

end Lockstep

/-- A traced run has the outcome of the run and ends in the same session. -/
theorem runTraced_eq_run (env : Environment) (visit : Visit) (p : List Step) (input : Value)
    (s : Session) : ((env.runTraced visit p input s).1, (env.runTraced visit p input s).2.2) =
      env.run visit p input s := by
  induction p generalizing input s with
  | nil => rfl
  | cons step rest ih =>
    simp only [runTraced, run]
    rcases env.apply visit step input s with ⟨e | output, after⟩
    · rfl
    · exact ih output after

end Environment

end FormulaPipeline
