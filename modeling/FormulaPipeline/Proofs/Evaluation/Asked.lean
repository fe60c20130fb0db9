import FormulaPipeline.Proofs.Evaluation.Lockstep

/-!
# What a run asks for

The ids of nodes that the sources of a pipeline ask the graph for in the course of a run, at every
depth of operands and arguments. What the run makes of visits depends on visits of these ids alone,
and all of them can be read off the pipeline.
-/

namespace FormulaPipeline.Environment

/-- The id that a source asks for. A source without a mark asks only for a node that is there. -/
def askedOf (source : String) (s : Session) : List String :=
  match source.toList with
  | '#' :: id => [String.ofList id]
  | _ => if s.graph.contains source then [source] else []

/-- What is asked for in going on from a result; after an error that is nothing. -/
def askedNext {α : Type} (f : α → Session → List String) :
    Except EvalError α × Session → List String
  | (.error _, _) => []
  | (.ok a, s) => f a s

section Asked

variable (env : Environment) (visit : Visit)

mutual

def askedBy : Step → Value → Session → List String
  | .connect source, _, s => askedOf source s
  | .arithmetic _ left right, _, s =>
    asked left env.context.value s ++
      askedNext (fun _ => asked right env.context.value) (env.run visit left env.context.value s)
  | .call _ args, _, s => askedByAll args s
  | _, _, _ => []

/-- The ids that a run asks for, in order. -/
def asked : List Step → Value → Session → List String
  | [], _, _ => []
  | step :: rest, input, s =>
    askedBy step input s ++
      askedNext (fun output => asked rest output) (env.apply visit step input s)

def askedByAll : List (List Step) → Session → List String
  | [], _ => []
  | p :: rest, s =>
    asked p env.context.value s ++
      askedNext (fun _ => askedByAll rest) (env.run visit p env.context.value s)

end

end Asked

variable {env : Environment} {visit visit' : Visit}

theorem mem_target_of_mem_askedOf {source x : String} {s : Session} (h : x ∈ askedOf source s) :
    x = Step.target source := by
  unfold askedOf at h
  split at h
  · rename_i id hid
    rw [Step.target_of_marked hid]
    simpa using h
  · rename_i hnot
    rw [Step.target_of_not_marked hnot]
    split at h <;> simp_all

theorem forall_askedNext {α : Type} {f : α → Session → List String} {D : String → Prop}
    (hf : ∀ a s, ∀ x ∈ f a s, D x) (r : Except EvalError α × Session) :
    ∀ x ∈ askedNext f r, D x := by
  rcases r with ⟨e | a, s⟩
  · simp [askedNext]
  · exact hf a s

mutual

theorem askedBy_subset_targets (step : Step) (input : Value) (s : Session) :
    ∀ x ∈ env.askedBy visit step input s, x ∈ step.targets := by
  cases step with
  | connect source =>
    intro x hx
    rw [askedBy] at hx
    simp [Step.targets, mem_target_of_mem_askedOf hx]
  | arithmetic op left right =>
    rw [askedBy, Step.targets, List.forall_mem_append]
    refine ⟨fun x hx => ?_, forall_askedNext (fun _ t x hx => ?_) _⟩
    · exact List.mem_append_left _ (asked_subset_targets left _ _ x hx)
    · exact List.mem_append_right _ (asked_subset_targets right _ _ x hx)
  | call name args =>
    rw [askedBy, Step.targets]
    exact askedByAll_subset_targets args s
  | segment | designate | synthesize | literal | default | malformed => simp [askedBy]

theorem asked_subset_targets (p : List Step) (input : Value) (s : Session) :
    ∀ x ∈ env.asked visit p input s, x ∈ Step.targetsIn p := by
  cases p with
  | nil => simp [asked]
  | cons step rest =>
    rw [asked, Step.targetsIn, List.forall_mem_append]
    refine ⟨fun x hx => ?_, forall_askedNext (fun _ t x hx => ?_) _⟩
    · exact List.mem_append_left _ (askedBy_subset_targets step _ _ x hx)
    · exact List.mem_append_right _ (asked_subset_targets rest _ _ x hx)

theorem askedByAll_subset_targets (args : List (List Step)) (s : Session) :
    ∀ x ∈ env.askedByAll visit args s, x ∈ Step.targetsInAll args := by
  cases args with
  | nil => simp [askedByAll]
  | cons p rest =>
    rw [askedByAll, Step.targetsInAll, List.forall_mem_append]
    refine ⟨fun x hx => ?_, forall_askedNext (fun _ t x hx => ?_) _⟩
    · exact List.mem_append_left _ (asked_subset_targets p _ _ x hx)
    · exact List.mem_append_right _ (askedByAll_subset_targets rest _ x hx)

end

/-! ## A run looks nowhere else -/

theorem andThen_congr {α β : Type} {x : Except EvalError α × Session} {f g : α → Action β}
    {asks : α → Session → List String} {D : String → Prop}
    (hasks : ∀ id ∈ askedNext asks x, D id)
    (hnext : ∀ a s, (∀ id ∈ asks a s, D id) → f a s = g a s) : andThen x f = andThen x g := by
  rcases x with ⟨e | a, s⟩
  · rfl
  · exact hnext a s hasks

theorem connect_of_not_marked {source : String} (h : ∀ id, source.toList ≠ '#' :: id)
    (visit : Visit) (s : Session) : env.connect visit source s =
      if s.graph.contains source then visit source s else env.connectData source s := by
  unfold connect
  split
  · rename_i id hid
    exact (h id hid).elim
  · rfl

theorem connect_congr {source : String} {s : Session}
    (h : ∀ x ∈ askedOf source s, visit x = visit' x) :
    env.connect visit source s = env.connect visit' source s := by
  unfold askedOf at h
  split at h
  · rename_i id hid
    simp only [connect, hid]
    rw [h _ (List.mem_singleton_self _)]
  · rename_i hnot
    rw [connect_of_not_marked hnot, connect_of_not_marked hnot]
    split
    · rename_i hcontains
      rw [h source (by simp [hcontains])]
    · rfl

mutual

theorem apply_congr (step : Step) (input : Value) (s : Session)
    (h : ∀ x ∈ env.askedBy visit step input s, visit x = visit' x) :
    env.apply visit step input s = env.apply visit' step input s := by
  cases step with
  | connect source =>
    rw [askedBy] at h
    exact connect_congr h
  | arithmetic op left right =>
    rw [askedBy, List.forall_mem_append] at h
    rw [apply_arithmetic, apply_arithmetic, ← run_congr left _ _ h.1]
    refine andThen_congr h.2 fun _ t ht => ?_
    rw [run_congr right _ _ ht]
  | call name args =>
    rw [askedBy] at h
    rw [apply_call, apply_call, runAll_congr args s h]
  | segment | designate | synthesize | literal | default | malformed => rfl

/-- Visits that agree on what is asked for make no difference to a run. -/
theorem run_congr (p : List Step) (input : Value) (s : Session)
    (h : ∀ x ∈ env.asked visit p input s, visit x = visit' x) :
    env.run visit p input s = env.run visit' p input s := by
  cases p with
  | nil => rfl
  | cons step rest =>
    rw [asked, List.forall_mem_append] at h
    rw [run_cons, run_cons, ← apply_congr step _ _ h.1]
    exact andThen_congr h.2 fun _ t ht => run_congr rest _ _ ht

theorem runAll_congr (args : List (List Step)) (s : Session)
    (h : ∀ x ∈ env.askedByAll visit args s, visit x = visit' x) :
    env.runAll visit args s = env.runAll visit' args s := by
  cases args with
  | nil => rfl
  | cons p rest =>
    rw [askedByAll, List.forall_mem_append] at h
    rw [runAll_cons, runAll_cons, ← run_congr p _ _ h.1]
    refine andThen_congr h.2 fun _ t ht => ?_
    rw [runAll_congr rest _ ht]

end

end FormulaPipeline.Environment
