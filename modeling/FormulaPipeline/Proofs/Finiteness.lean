import FormulaPipeline.Calculator
import FormulaPipeline.Proofs.Evaluation.Executed
import FormulaPipeline.Proofs.Evaluation.Finite

/-!
# Infinite numbers

Arithmetic refuses a result that is not finite, but sums, means and roundings do not look at theirs.
They are the only steps from which an infinite number can come: where each of them that an
evaluation executes, at any depth, has given a finite number, every result, every output in the
trace and every stored value is finite.
-/

namespace FormulaPipeline

open Outcome (Finite)
open scoped FormulaPipeline.Power

/-! ## What is finite -/

namespace Step

mutual

/-- Whether every float that a step can put out as it is written is finite. -/
def allFinite : Step → Bool
  | .literal value _ => value.allFinite
  | .default value => value.allFinite
  | .arithmetic _ left right => allFiniteSteps left && allFiniteSteps right
  | .call _ args => allFiniteArgs args
  | _ => true

def allFiniteSteps : List Step → Bool
  | [] => true
  | step :: rest => allFinite step && allFiniteSteps rest

def allFiniteArgs : List (List Step) → Bool
  | [] => true
  | p :: rest => allFiniteSteps p && allFiniteArgs rest

end

/-- A step that does not look whether its result is finite. -/
def isUnchecked : Step → Bool
  | .synthesize mode _ _ => mode.isTotal
  | .call name _ => Builtin.isUnchecked name
  | _ => false

end Step

/-- A step that does not check its result has given a finite one all the same. -/
def Execution.Fits (x : Execution) : Prop := x.step.isUnchecked = true → x.result.Finite

instance (o : Outcome) : Decidable o.Finite := decidable_of_iff _ Outcome.finite_iff.symm

instance (x : Execution) : Decidable x.Fits := by
  unfold Execution.Fits
  infer_instance

/-- Pipelines and stored results without infinite numbers. -/
def Graph.AllFinite (g : Graph) : Prop :=
  ∀ id node, g.find? id = some node →
    Step.allFiniteSteps node.pipeline = true ∧ node.outcome.Finite

theorem Graph.allFinite_iff {g : Graph} :
    g.AllFinite ↔ ∀ entry ∈ g.nodes,
      Step.allFiniteSteps entry.2.pipeline = true ∧ entry.2.outcome.Finite := by
  constructor
  · exact fun hg entry hentry => hg entry.1 entry.2 (g.sorted.find?_of_mem hentry)
  · exact fun hg id node hnode => hg (id, node) (Keyed.mem_of_find? hnode)

instance (g : Graph) : Decidable g.AllFinite := decidable_of_iff _ Graph.allFinite_iff.symm

/-- Data without infinite numbers, and no functions of a host. -/
structure Environment.AllFinite (env : Environment) : Prop where
  hostless : ∀ name, env.config.functions.get? name = none
  value : env.context.value.allFinite = true
  record : ∀ r, env.context.record = some r → r.toValue.allFinite = true
  sets : ∀ source name set, env.config.source = some source → source.set? name = some set →
    set.toValue.allFinite = true
  links : ∀ source record name records, env.config.source = some source →
    env.context.record = some record → source.linked? record name = some records →
    ∀ r ∈ records, r.toValue.allFinite = true

structure Session.AllFinite (s : Session) : Prop where
  graph : s.graph.AllFinite
  known : ∀ id outcome, s.outcome? id = some outcome → outcome.Finite

structure Evaluation.AllFinite (e : Evaluation) : Prop where
  outcome : e.outcome.Finite
  inputs : ∀ t ∈ e.steps, t.input.allFinite = true
  outputs : ∀ t ∈ e.steps, t.output.allFinite = true

theorem Evaluation.allFinite_ofOutcome {outcome : Outcome} (h : outcome.Finite) :
    (Evaluation.ofOutcome outcome).AllFinite where
  outcome := h
  inputs t ht := by cases ht
  outputs t ht := by cases ht

namespace Session.AllFinite

variable {s : Session}

theorem start {m : Memory} (h : m.graph.AllFinite) : (Session.start m).AllFinite where
  graph := h
  known id outcome h := by cases h

theorem warn (hs : s.AllFinite) (text : String) : (s.warn text).AllFinite := ⟨hs.graph, hs.known⟩

theorem called (hs : s.AllFinite) (name : String) : (s.called name).AllFinite :=
  ⟨hs.graph, hs.known⟩

theorem enter (hs : s.AllFinite) (chain : List String) : (s.enter chain).AllFinite :=
  ⟨hs.graph, hs.known⟩

theorem finish (hs : s.AllFinite) (id : String) {outcome : Outcome} (h : outcome.Finite) :
    (s.finish id outcome).AllFinite where
  graph := by
    intro x node hnode
    rw [Session.graph_finish, Graph.store, Graph.find?_mapNodes, Option.map_eq_some_iff] at hnode
    obtain ⟨old, hold, rfl⟩ := hnode
    obtain ⟨hpipeline, houtcome⟩ := hs.graph x old hold
    split
    · exact ⟨hpipeline, h⟩
    · exact ⟨hpipeline, houtcome⟩
  known := by
    intro x o ho
    rw [Session.outcome?_finish] at ho
    split at ho
    · obtain rfl := Option.some.inj ho
      exact h
    · exact hs.known x o ho

end Session.AllFinite

namespace Environment

/-- A result with a property, in a session without infinite numbers. -/
def Yields {α : Type} (P : α → Prop) (x : Except EvalError α × Session) : Prop :=
  Gives P x.1 ∧ x.2.AllFinite

theorem Yields.andThen_any {α β : Type} {P : α → Prop} {Q : β → Prop}
    {x : Except EvalError α × Session} (h : Yields P x) {f : α → Action β}
    (hf : ∀ a s, P a → s.AllFinite → Yields Q (f a s)) : Yields Q (andThen x f) := by
  rcases x with ⟨e | a, s⟩
  · exact ⟨Gives.of_error e, h.2⟩
  · exact hf a s (h.1 a rfl) h.2

/-- Going on executes something itself. -/
theorem Yields.andThen {α β : Type} {P : α → Prop} {Q : β → Prop} {C : Execution → Prop}
    {x : Except EvalError α × Session} (h : Yields P x) {next : α → Session → List Execution}
    (hexecuted : ∀ y ∈ executedNext next x, C y) {f : α → Action β}
    (hf : ∀ a s, P a → s.AllFinite → (∀ y ∈ next a s, C y) → Yields Q (f a s)) :
    Yields Q (andThen x f) := by
  rcases x with ⟨e | a, s⟩
  · exact ⟨Gives.of_error e, h.2⟩
  · exact hf a s (h.1 a rfl) h.2 hexecuted

variable {env : Environment}

/-! ## Runs -/

theorem AllFinite.fromSource? (henv : env.AllFinite) {name : String} {v : Value}
    (hv : env.fromSource? name = some v) : v.allFinite = true := by
  unfold Environment.fromSource? at hv
  split at hv
  · cases hv
  · rename_i source hsource
    split at hv
    · rename_i set hset
      obtain rfl := Option.some.inj hv
      exact henv.sets source name set hsource hset
    · obtain ⟨records, hrecords, rfl⟩ := Option.map_eq_some_iff.1 hv
      obtain ⟨record, hrecord, hlinked⟩ := Option.bind_eq_some_iff.1 hrecords
      apply Value.allFinite_array.2
      intro w hw
      obtain ⟨r, hr, rfl⟩ := List.mem_map.1 hw
      exact henv.links source record name records hsource hrecord hlinked r hr

theorem AllFinite.connectData (henv : env.AllFinite) (name : String) {s : Session}
    (hs : s.AllFinite) : Yields (fun v => v.allFinite = true) (env.connectData name s) := by
  unfold Environment.connectData
  split
  · rename_i v hv
    exact ⟨Gives.of_ok (henv.fromSource? hv), hs⟩
  · split
    · exact ⟨Gives.of_error _, hs⟩
    · exact ⟨Gives.of_ok (Value.allFinite_array.2 (by simp)), hs.warn _⟩

theorem AllFinite.call (henv : env.AllFinite) {name : String} {args : List Value} {s : Session}
    (hargs : ∀ a ∈ args, a.allFinite = true) (hs : s.AllFinite)
    (hfits : Builtin.isUnchecked name = true → Finite (env.call name args s).1) :
    Yields (fun v => v.allFinite = true) (env.call name args s) := by
  refine ⟨?_, ?_⟩
  · cases hname : Builtin.isUnchecked name with
    | true => exact hfits hname
    | false =>
      unfold Environment.call
      rw [henv.hostless name]
      dsimp only
      cases hbuiltin : Builtin.ofName? name with
      | none => exact Gives.of_error _
      | some f => exact Builtin.ofName?_keepsFinite hbuiltin hname args _ hargs
  · rcases env.call_session name args s with h | h <;> rw [h]
    · exact hs
    · exact hs.called name

/-- Finite data, and visits that give finite data as long as what is executed in them fits. -/
structure Tame (env : Environment) (visit : Visit) (inside : String → Session → List Execution) :
    Prop where
  data : env.AllFinite
  visited : ∀ id s, s.AllFinite → (∀ x ∈ inside id s, x.Fits) →
    Yields (fun v => v.allFinite = true) (visit id s)

namespace Tame

variable {visit : Visit} {inside : String → Session → List Execution}

theorem connect (T : env.Tame visit inside) (source : String) {s : Session} (hs : s.AllFinite)
    (hexecuted : ∀ x ∈ executedConnect inside source s, x.Fits) :
    Yields (fun v => v.allFinite = true) (env.connect visit source s) := by
  unfold executedConnect at hexecuted
  unfold Environment.connect
  split
  · rename_i id hid
    simp only [hid] at hexecuted
    exact T.visited _ s hs hexecuted
  · rename_i hnot
    split at hexecuted
    · rename_i id hid
      exact (hnot id hid).elim
    · split
      · rename_i hcontains
        rw [if_pos hcontains] at hexecuted
        exact T.visited source s hs hexecuted
      · exact T.data.connectData source hs

mutual

/-- A step gives finite data for finite data if it fits, and if all that is executed in it does. -/
theorem apply (T : env.Tame visit inside) (step : Step) {input : Value} {s : Session}
    (hstep : step.allFinite = true) (hinput : input.allFinite = true) (hs : s.AllFinite)
    (hexecuted : ∀ x ∈ env.executedWithin visit inside step s, x.Fits)
    (hfits : Execution.Fits ⟨step, input, (env.apply visit step input s).1⟩) :
    Yields (fun v => v.allFinite = true) (env.apply visit step input s) := by
  cases step with
  | connect source => exact T.connect source hs hexecuted
  | segment condition => exact ⟨Gives.of_ok (condition.allFinite_filter hinput), hs⟩
  | designate property => exact ⟨Context.finite_designate T.data.record property hinput, hs⟩
  | synthesize mode property separator =>
    refine ⟨?_, hs⟩
    cases hmode : mode.isTotal with
    | true => exact hfits hmode
    | false => exact Gives.of_ok (Aggregation.allFinite_apply hmode _ _ hinput)
  | literal value type => exact ⟨Gives.of_ok hstep, hs⟩
  | arithmetic op left right =>
    rw [Step.allFinite, Bool.and_eq_true] at hstep
    rw [executedWithin, List.forall_mem_append] at hexecuted
    rw [apply_arithmetic]
    refine (T.run left hstep.1 T.data.value hs hexecuted.1).andThen hexecuted.2 ?_
    intro a t _ ht hright
    refine (T.run right hstep.2 T.data.value ht hright).andThen_any ?_
    intro b u _ hu
    exact ⟨op.finite_apply a b, hu⟩
  | call name args =>
    rw [Step.allFinite] at hstep
    rw [executedWithin] at hexecuted
    have hargs := T.runAll args hstep hs hexecuted
    simp only [Execution.Fits, apply_call] at hfits ⊢
    generalize env.runAll visit args s = r at hargs hfits ⊢
    rcases r with ⟨e | values, t⟩
    · exact ⟨Gives.of_error e, hargs.2⟩
    · exact T.data.call (hargs.1 values rfl) hargs.2 hfits
  | default value =>
    refine ⟨Gives.of_ok ?_, hs⟩
    split
    · exact hstep
    · exact hinput
  | malformed raw reason => exact ⟨Gives.of_error _, hs⟩

theorem run (T : env.Tame visit inside) (p : List Step) {input : Value} {s : Session}
    (hp : Step.allFiniteSteps p = true) (hinput : input.allFinite = true) (hs : s.AllFinite)
    (hexecuted : ∀ x ∈ env.executed visit inside p input s, x.Fits) :
    Yields (fun v => v.allFinite = true) (env.run visit p input s) := by
  cases p with
  | nil => exact ⟨Gives.of_ok hinput, hs⟩
  | cons step rest =>
    rw [Step.allFiniteSteps, Bool.and_eq_true] at hp
    obtain ⟨hwithin, hfits, hrest⟩ := forall_executed_cons.1 hexecuted
    rw [run_cons]
    refine (T.apply step hp.1 hinput hs hwithin hfits).andThen hrest ?_
    intro output t houtput ht hrest
    exact T.run rest hp.2 houtput ht hrest

theorem runAll (T : env.Tame visit inside) (args : List (List Step)) {s : Session}
    (hargs : Step.allFiniteArgs args = true) (hs : s.AllFinite)
    (hexecuted : ∀ x ∈ env.executedAll visit inside args s, x.Fits) :
    Yields (fun values => ∀ v ∈ values, v.allFinite = true) (env.runAll visit args s) := by
  cases args with
  | nil => exact ⟨Gives.of_ok (by simp), hs⟩
  | cons p rest =>
    rw [Step.allFiniteArgs, Bool.and_eq_true] at hargs
    rw [executedAll, List.forall_mem_append] at hexecuted
    rw [runAll_cons]
    refine (T.run p hargs.1 T.data.value hs hexecuted.1).andThen hexecuted.2 ?_
    intro v t hv ht hrest
    refine (T.runAll rest hargs.2 ht hrest).andThen_any ?_
    intro values u hvalues hu
    exact ⟨Gives.of_ok (List.forall_mem_cons.2 ⟨hv, hvalues⟩), hu⟩

end

theorem runTraced (T : env.Tame visit inside) (p : List Step) {input : Value} {s : Session}
    (hp : Step.allFiniteSteps p = true) (hinput : input.allFinite = true) (hs : s.AllFinite)
    (hexecuted : ∀ x ∈ env.executed visit inside p input s, x.Fits) :
    (env.runTraced visit p input s).1.Finite ∧
      (∀ t ∈ (env.runTraced visit p input s).2.1,
        t.input.allFinite = true ∧ t.output.allFinite = true) ∧
      (env.runTraced visit p input s).2.2.AllFinite := by
  induction p generalizing input s with
  | nil => exact ⟨Gives.of_ok hinput, by simp [Environment.runTraced], hs⟩
  | cons step rest ih =>
    rw [Step.allFiniteSteps, Bool.and_eq_true] at hp
    obtain ⟨hwithin, hfits, hrest⟩ := forall_executed_cons.1 hexecuted
    have hstep := T.apply step hp.1 hinput hs hwithin hfits
    simp only [Environment.runTraced]
    generalize env.apply visit step input s = r at hstep hrest ⊢
    rcases r with ⟨e | output, t⟩
    · exact ⟨Gives.of_error e, by simp [hinput, StepTrace.output, Outcome.value], hstep.2⟩
    · have houtput := hstep.1 output rfl
      obtain ⟨houtcome, hsteps, hlast⟩ := ih hp.2 houtput hstep.2 hrest
      refine ⟨houtcome, List.forall_mem_cons.2 ⟨⟨hinput, houtput⟩, hsteps⟩, hlast⟩

end Tame

/-! ## Nodes -/

section Nodes

variable {visit : String → Session → Evaluation × Session}
  {inside : String → Session → List Execution}

theorem refresh_finite (hvisit : ∀ id s, s.AllFinite → (∀ x ∈ inside id s, x.Fits) →
      (visit id s).1.AllFinite ∧ (visit id s).2.AllFinite) (names : List String) {s : Session}
    (hs : s.AllFinite) (hexecuted : ∀ x ∈ executedRefresh visit inside names s, x.Fits) :
    (refresh visit names s).AllFinite := by
  induction names generalizing s with
  | nil => exact hs
  | cons id rest ih =>
    rw [executedRefresh] at hexecuted
    rw [refresh]
    split
    · rename_i hstale
      rw [if_pos hstale, List.forall_mem_append] at hexecuted
      exact ih (hvisit id s hs hexecuted.1).2 hexecuted.2
    · rename_i hfresh
      rw [if_neg hfresh] at hexecuted
      exact ih hs hexecuted

theorem enter_finite (henv : env.AllFinite)
    (hvisit : ∀ id s, s.AllFinite → (∀ x ∈ inside id s, x.Fits) →
      (visit id s).1.AllFinite ∧ (visit id s).2.AllFinite) (id : String) {s : Session}
    (hs : s.AllFinite) (hexecuted : ∀ x ∈ env.executedEnter visit inside id s, x.Fits) :
    (env.enter visit id s).1.AllFinite ∧ (env.enter visit id s).2.AllFinite := by
  unfold executedEnter at hexecuted
  unfold enter
  cases hnode : s.graph.find? id with
  | none => exact ⟨Evaluation.allFinite_ofOutcome (Gives.of_error _), hs⟩
  | some node =>
    simp only [hnode, List.forall_mem_append] at hexecuted
    have hready := refresh_finite hvisit node.dependencies hs hexecuted.1
    have T : env.Tame (fun x t => ((visit x t).1.outcome, (visit x t).2)) inside :=
      { data := henv
        visited := fun x t ht hinside =>
          ⟨(hvisit x t ht hinside).1.outcome, (hvisit x t ht hinside).2⟩ }
    obtain ⟨houtcome, hsteps, hlast⟩ :=
      T.runTraced node.pipeline (hs.graph id node hnode).1 henv.value hready hexecuted.2
    exact ⟨⟨houtcome, fun t ht => (hsteps t ht).1, fun t ht => (hsteps t ht).2⟩,
      hlast.finish id houtcome⟩

theorem settled?_finite {active : List String} {id : String} {s : Session} (hs : s.AllFinite)
    {answer : Evaluation} (h : settled? active id s = some answer) : answer.AllFinite := by
  unfold settled? at h
  split at h
  · obtain rfl := Option.some.inj h
    exact Evaluation.allFinite_ofOutcome (Gives.of_error _)
  · rename_i node hnode
    split at h
    · rename_i v hfresh
      obtain rfl := Option.some.inj h
      have hcached : node.cached.allFinite = true :=
        Outcome.finite_iff.1 (hs.graph id node hnode).2
      have hv : node.cached = v := by
        unfold Node.fresh? at hfresh
        split at hfresh
        · cases hfresh
        · exact Option.some.inj hfresh
      refine ⟨Gives.of_ok (hv ▸ hcached), ?_, ?_⟩ <;> simp
    · split at h
      · rename_i outcome hknown
        obtain rfl := Option.some.inj h
        exact Evaluation.allFinite_ofOutcome (hs.known id outcome hknown)
      · split at h
        · obtain rfl := Option.some.inj h
          exact Evaluation.allFinite_ofOutcome (Gives.of_error _)
        · cases h

/-- An evaluation of finite data is finite if every step that it executes fits. -/
theorem node_finite (henv : env.AllFinite) (depth : Nat) (active : List String) (id : String)
    {s : Session} (hs : s.AllFinite)
    (hexecuted : ∀ x ∈ env.executedNode depth active id s, x.Fits) :
    (env.node depth active id s).1.AllFinite ∧ (env.node depth active id s).2.AllFinite := by
  induction depth generalizing active id s with
  | zero =>
    rw [node]
    cases hsettled : settled? active id s with
    | some answer => exact ⟨settled?_finite hs hsettled, hs⟩
    | none => exact ⟨Evaluation.allFinite_ofOutcome (Gives.of_error _), hs⟩
  | succ depth ih =>
    rw [executedNode] at hexecuted
    rw [node]
    cases hsettled : settled? active id s with
    | some answer => exact ⟨settled?_finite hs hsettled, hs⟩
    | none =>
      simp only [hsettled] at hexecuted
      exact enter_finite henv (fun x t ht hinside => ih _ x ht hinside) id (hs.enter _) hexecuted

end Nodes

end Environment

/-! ## Calculators -/

namespace Calculator

/-- Evaluations of finite data, without functions of a host, give and store finite data as long as
every sum, mean and rounding that is executed on the way has given a finite number. -/
theorem finite_of_totals_fit {c : Calculator} {context : Context}
    (henv : Environment.AllFinite ⟨c.config, context⟩) (hgraph : c.graph.AllFinite) :
    (∀ id, (∀ x ∈ executedByNode c.config context c.memory id, x.Fits) →
      (c.evaluate context id).1.AllFinite ∧ (c.evaluate context id).2.graph.AllFinite) ∧
    ∀ p, Step.allFiniteSteps p = true →
      (∀ x ∈ executedByPipeline c.config context c.memory p, x.Fits) →
      (c.runPipeline context p).1.AllFinite ∧ (c.runPipeline context p).2.graph.AllFinite := by
  let env : Environment := ⟨c.config, context⟩
  have hstart : (Session.start c.memory).AllFinite := .start hgraph
  constructor
  · intro id hexecuted
    obtain ⟨hevaluation, hlast⟩ := Environment.node_finite henv _ [] id hstart hexecuted
    exact ⟨hevaluation, hlast.graph⟩
  · intro p hp hexecuted
    have T : env.Tame env.visitTop (env.executedNode c.config.maxDepth []) :=
      { data := henv
        visited := by
          intro id s hs hinside
          obtain ⟨hevaluation, hlast⟩ := Environment.node_finite henv _ [] id hs hinside
          exact ⟨hevaluation.outcome, hlast⟩ }
    obtain ⟨houtcome, hsteps, hlast⟩ := T.runTraced p hp henv.value hstart hexecuted
    exact ⟨⟨houtcome, fun t ht => (hsteps t ht).1, fun t ht => (hsteps t ht).2⟩, hlast.graph⟩

/-- A context whose record holds `10 ^ exponent` under one name. -/
def powerRow (exponent : Nat) : Context :=
  { Context.atTime DateTime.epoch with
    record := some ⟨none, [("A", .float (Binary64.ofNat false (10 ^ exponent)))]⟩ }

theorem allFinite_powerRow {exponent : Nat}
    (h : (Binary64.ofNat false (10 ^ exponent)).isFinite = true) :
    Environment.AllFinite ⟨{}, powerRow exponent⟩ where
  hostless name := rfl
  value := rfl
  record r hr := by
    obtain rfl := Option.some.inj hr
    simpa [Record.toValue] using h
  sets source name set hsource := by cases hsource
  links source record name records hsource := by cases hsource

/-- A node that doubles a sum of two large numbers. -/
theorem finite_of_totals_fit_of_doubled_sum :
    let total : NodeDefinition := { pipeline := [.call "SUM" [[.designate "A"], [.designate "A"]]] }
    let double : NodeDefinition :=
      { pipeline := [.arithmetic .multiply [.connect "#total"] [.literal (.int 2) .number]]
        dependencies := ["total"] }
    let graph : Graph := (Graph.empty.put "total" total).put "double" double
    let c : Calculator := { memory := { graph := graph } }
    (c.evaluate (powerRow 300) "double").1.AllFinite ∧
      (c.evaluate (powerRow 300) "double").2.graph.AllFinite := by
  intro total double graph c
  have henv : Environment.AllFinite ⟨c.config, powerRow 300⟩ :=
    allFinite_powerRow (by decide +kernel)
  have hgraph : c.graph.AllFinite := by decide +kernel
  have hexecuted : ∀ x ∈ executedByNode c.config (powerRow 300) c.memory "double", x.Fits := by
    decide +kernel
  exact (finite_of_totals_fit henv hgraph).1 "double" hexecuted

/-- A sum past the largest number is an infinite number, where the operator reports an error. -/
theorem sum_infinite_of_large_numbers :
    Environment.AllFinite ⟨{}, powerRow 308⟩ ∧
      ¬(({} : Calculator).evaluateFormula (powerRow 308)
        "SUM(\x7bA\x7d, \x7bA\x7d)").1.outcome.Finite ∧
      (({} : Calculator).evaluateFormula (powerRow 308)
        "\x7bA\x7d + \x7bA\x7d").1.error?.isSome = true :=
  ⟨allFinite_powerRow (by decide +kernel), by decide +kernel, by decide +kernel⟩

end Calculator

end FormulaPipeline
