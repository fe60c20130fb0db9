import FormulaPipeline.Proofs.Evaluation.Frame
import FormulaPipeline.Proofs.Graph.Dependence

/-!
# The meaning of a node

What a node stands for when nothing is remembered: the result of its pipeline, in which every lookup
of a node gives the meaning of that node. It depends on the definitions of those nodes alone that
lookups reach, and not on the room for nested evaluations once there is enough of it.
-/

namespace FormulaPipeline

/-- The functions do not look at how often they were called. -/
def Registry.Pure (r : Registry) : Prop :=
  ∀ name f, r.get? name = some f → ∀ n m args context, f.run n args context = f.run m args context

/-- Every node lists the nodes that its pipeline looks up. -/
def Graph.Covered (g : Graph) : Prop :=
  ∀ id node, g.find? id = some node → ∀ x ∈ node.pipeline.targets, g.contains x = true →
    x ∈ node.dependencies

theorem Graph.covered_iff {g : Graph} :
    g.Covered ↔ ∀ entry ∈ g.nodes, ∀ x ∈ entry.2.pipeline.targets, g.contains x = true →
      x ∈ entry.2.dependencies := by
  constructor
  · exact fun hg entry hentry => hg entry.1 entry.2 (g.sorted.find?_of_mem hentry)
  · exact fun hg id node hnode => hg (id, node) (Keyed.mem_of_find? hnode)

instance (g : Graph) : Decidable g.Covered := decidable_of_iff _ Graph.covered_iff.symm

theorem Graph.covered_of_pristine_eq {g h : Graph} (heq : g.pristine = h.pristine)
    (hg : g.Covered) : h.Covered := by
  intro id node hnode x hx hcontains
  obtain ⟨other, hother, hreset⟩ := exists_of_pristine_eq heq.symm hnode
  have hpipeline : other.pipeline = node.pipeline := by
    simpa [Node.reset] using congrArg Node.pipeline hreset
  have hdependencies : other.dependencies = node.dependencies := by
    simpa [Node.reset] using congrArg Node.dependencies hreset
  rw [← hdependencies]
  rw [← hpipeline] at hx
  exact hg id other hother x hx ((contains_of_pristine_eq heq x).trans hcontains)

theorem Graph.Covered.lists_or {g : Graph} (hg : g.Covered) {id x : String} {node : Node}
    (hnode : g.find? id = some node) (hx : x ∈ node.pipeline.targets) :
    g.Lists id x ∨ g.contains x = false := by
  cases hcontains : g.contains x with
  | false => exact .inr rfl
  | true => exact .inl (Graph.lists_iff.2 ⟨node, hnode, hg id node hnode x hx hcontains⟩)

namespace Environment

variable (env : Environment)

/-- The outcome of a node in a graph, with room for `depth` nodes inside each other. -/
def meaning (g : Graph) : Nat → String → Outcome
  | depth, id =>
    match g.find? id with
    | none => .error (.nodeNotFound id)
    | some node =>
      match depth with
      | 0 => .error (.depthExceeded env.config.maxDepth)
      | depth + 1 =>
        (env.run (fun x s => (meaning g depth x, s)) node.pipeline env.context.value
          (Session.start { graph := g })).1

theorem meaning_of_find?_none {g : Graph} {id : String} (h : g.find? id = none) (depth : Nat) :
    env.meaning g depth id = .error (.nodeNotFound id) := by
  cases depth <;> simp [meaning, h]

theorem meaning_succ {g : Graph} {id : String} {node : Node} (h : g.find? id = some node)
    (depth : Nat) :
    env.meaning g (depth + 1) id =
      (env.run (fun x s => (env.meaning g depth x, s)) node.pipeline env.context.value
        (Session.start { graph := g })).1 := by
  rw [meaning, h]

variable {env}

theorem call_result (hpure : env.config.functions.Pure) (name : String) (args : List Value)
    (s t : Session) : (env.call name args s).1 = (env.call name args t).1 := by
  unfold call
  cases hname : env.config.functions.get? name with
  | some f => exact hpure name f hname _ _ _ _
  | none => cases Builtin.ofName? name <;> rfl

theorem agree_call (hpure : env.config.functions.Pure) {R : Session → Session → Prop}
    {s t : Session} (hrel : R s t) (hleft : ∀ s t name, R s t → R (s.called name) t)
    (hright : ∀ s t name, R s t → R s (t.called name)) (name : String) (args : List Value) :
    Agree R (env.call name args s) (env.call name args t) := by
  refine ⟨call_result hpure name args s t, ?_⟩
  rcases env.call_session name args s with hs | hs
  all_goals rcases env.call_session name args t with ht | ht
  all_goals rw [hs, ht]
  · exact hrel
  · exact hright _ _ _ hrel
  · exact hleft _ _ _ hrel
  · exact hright _ _ _ (hleft _ _ _ hrel)

theorem run_meaning_congr (hpure : env.config.functions.Pure) {g h : Graph} {D : String → Prop}
    (hcontains : ∀ x, D x → g.contains x = h.contains x)
    (hremoved : ∀ x, D x → g.wasRemoved x = h.wasRemoved x) {n m : Nat}
    (hmeaning : ∀ x, D x → env.meaning g n x = env.meaning h m x) {p : Pipeline}
    (htargets : ∀ x ∈ p.targets, D x) :
    (env.run (fun x s => (env.meaning g n x, s)) p env.context.value
        (Session.start { graph := g })).1 =
      (env.run (fun x s => (env.meaning h m x, s)) p env.context.value
        (Session.start { graph := h })).1 := by
  have L : env.Lockstep D (fun s t => s.graph = g ∧ t.graph = h)
      (fun x s => (env.meaning g n x, s)) (fun x s => (env.meaning h m x, s)) :=
    { visited := fun hx hrel => ⟨hmeaning _ hx, hrel⟩
      contains := by
        rintro x s t hx ⟨rfl, rfl⟩
        exact hcontains x hx
      wasRemoved := by
        rintro x s t hx ⟨rfl, rfl⟩
        exact hremoved x hx
      warned := fun _ hrel => hrel
      called := fun name args hrel =>
        agree_call hpure hrel (fun _ _ _ h => h) (fun _ _ _ h => h) name args }
  exact (L.run p _ htargets ⟨rfl, rfl⟩).1

/-- Graphs with the same definitions, at least where lookups lead from an id, give the id the same
meaning. -/
theorem meaning_congr (hpure : env.config.functions.Pure) {g h : Graph} {D : String → Prop}
    (hpipeline : ∀ x, D x → (g.find? x).map (·.pipeline) = (h.find? x).map (·.pipeline))
    (hremoved : ∀ x, D x → g.wasRemoved x = h.wasRemoved x)
    (hclosed : ∀ x node, D x → g.find? x = some node → ∀ y ∈ node.pipeline.targets, D y)
    (depth : Nat) {x : String} (hx : D x) : env.meaning g depth x = env.meaning h depth x := by
  have hcontains : ∀ x, D x → g.contains x = h.contains x := by
    intro x hx
    simpa [← Graph.isSome_find?] using congrArg Option.isSome (hpipeline x hx)
  induction depth generalizing x with
  | zero =>
    have hpipe := hpipeline x hx
    cases hg : g.find? x <;> cases hh : h.find? x <;> simp_all [meaning]
  | succ depth ih =>
    have hpipe := hpipeline x hx
    cases hg : g.find? x with
    | none =>
      rw [hg, Option.map_none, eq_comm, Option.map_eq_none_iff] at hpipe
      rw [env.meaning_of_find?_none hg, env.meaning_of_find?_none hpipe]
    | some node =>
      rw [hg, Option.map_some, eq_comm, Option.map_eq_some_iff] at hpipe
      obtain ⟨other, hother, heq⟩ := hpipe
      rw [env.meaning_succ hg, env.meaning_succ hother, heq]
      exact run_meaning_congr hpure hcontains hremoved (fun y hy => ih hy) (hclosed x node hx hg)

theorem meaning_of_pristine_eq (hpure : env.config.functions.Pure) {g h : Graph}
    (heq : g.pristine = h.pristine) (depth : Nat) (id : String) :
    env.meaning g depth id = env.meaning h depth id := by
  refine meaning_congr (D := fun _ => True) hpure (fun x _ => ?_)
    (fun x _ => Graph.wasRemoved_of_pristine_eq heq x) (fun _ _ _ _ _ _ => trivial) depth trivial
  have hfind : (g.find? x).map Node.reset = (h.find? x).map Node.reset := by
    rw [← Graph.find?_pristine, heq, Graph.find?_pristine]
  simpa [Function.comp_def, Node.reset] using congrArg (Option.map Node.pipeline) hfind

/-- A node above which there is room for all that it needs does not notice more room. -/
theorem meaning_succ_of_shallow (hpure : env.config.functions.Pure) {g : Graph}
    (hcovered : g.Covered) (n : Nat) {id : String} (hid : g.Shallow n id) :
    env.meaning g (n + 1) id = env.meaning g n id := by
  induction n generalizing id with
  | zero =>
    have hnone : g.find? id = none := Graph.find?_eq_none_iff.2 hid
    rw [env.meaning_of_find?_none hnone, env.meaning_of_find?_none hnone]
  | succ n ih =>
    cases hnode : g.find? id with
    | none => rw [env.meaning_of_find?_none hnode, env.meaning_of_find?_none hnode]
    | some node =>
      rw [env.meaning_succ hnode, env.meaning_succ hnode]
      refine run_meaning_congr (D := g.Shallow n) hpure (fun _ _ => rfl) (fun _ _ => rfl)
        (fun x hx => ih hx) fun x hx => ?_
      rcases hcovered.lists_or hnode hx with hlist | hnot
      · exact hid x hlist
      · exact Graph.shallow_of_not_contains hnot n

end Environment

end FormulaPipeline
