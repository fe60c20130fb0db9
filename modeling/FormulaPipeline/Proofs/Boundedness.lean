import FormulaPipeline.Calculator
import FormulaPipeline.Proofs.Evaluation.Log
import FormulaPipeline.Proofs.Evaluation.Stack

/-!
# Evaluations are bounded

Every evaluation ends, whatever the graph is like: dependencies may be missing from the lists of the
nodes, and nodes may read each other in a circle. The stack of nodes never repeats an id or grows
beyond the configured depth, it is as before when a nested evaluation ends, and no node is run twice
in one call.
-/

namespace FormulaPipeline

theorem Graph.size_pristine (g : Graph) : g.pristine.size = g.size :=
  g.size_mapNodes _

namespace Environment

/-- A call that does a task ends in a memory with an outcome. The nodes that it entered, each logged
as the stack at that moment, are bounded. -/
structure BoundedCall (env : Environment) (m : Memory) (task : Task Value) (outcome : Outcome)
    (m' : Memory) (last : Call) : Prop where
  ends : env.Ends task (Call.start m) (outcome, last)
  memory_eq : last.session.memory = m'
  stack_empty : last.stack = []
  nodup : ∀ stack ∈ last.session.entered, stack.Nodup
  length_le : ∀ stack ∈ last.session.entered, stack.length ≤ env.config.maxDepth
  once : (last.session.entered.map List.getLast?).Nodup
  count_le : last.session.entered.length ≤ m.graph.size

variable {env : Environment}

theorem boundedCall_of_logged {m : Memory} {task : Task Value}
    (hlog : env.Logged [] (task.eval env.visitTop (Session.start m)).2)
    (hpristine : (task.eval env.visitTop (Session.start m)).2.graph.pristine = m.graph.pristine) :
    env.BoundedCall m task (task.eval env.visitTop (Session.start m)).1
      (task.eval env.visitTop (Session.start m)).2.memory
      ⟨(task.eval env.visitTop (Session.start m)).2, []⟩ where
  ends := ends_eval task (Call.start m)
  memory_eq := rfl
  stack_empty := rfl
  nodup := hlog.nodup
  length_le := hlog.length_le
  once := hlog.once
  count_le := by
    rw [← Graph.size_pristine m.graph, ← hpristine, Graph.size_pristine]
    exact hlog.length_entered_le

theorem boundedCall_node (m : Memory) (id : String) :
    ∃ last, env.BoundedCall m (.node id) (evaluateNode env.config env.context m id).1.outcome
      (evaluateNode env.config env.context m id).2 last :=
  ⟨_, boundedCall_of_logged
    (.node env.config.maxDepth List.nodup_nil (Nat.zero_add _) id (.start m))
    ((kept_pristine m.graph.pristine).visitTop env id rfl)⟩

theorem boundedCall_pipeline (m : Memory) (p : Pipeline) :
    ∃ last, env.BoundedCall m (env.runTask p env.context.value)
      (evaluatePipeline env.config env.context m p).1.outcome
      (evaluatePipeline env.config env.context m p).2 last := by
  have hvisit : ∀ id s, env.Logged [] s → env.Logged [] (env.visitTop id s).2 := fun id s hs =>
    hs.node env.config.maxDepth List.nodup_nil (Nat.zero_add _) id
  have hrun := eval_runTask env env.visitTop p env.context.value (Session.start m)
  have hbounded : env.BoundedCall m (env.runTask p env.context.value) _ _ _ :=
    boundedCall_of_logged (hrun ▸ (Logged.start m).run env.visitTop hvisit p env.context.value)
      (hrun ▸ (kept_pristine m.graph.pristine).run env
        (fun id _ hs => (kept_pristine m.graph.pristine).visitTop env id hs) p _ rfl)
  rw [hrun, ← runTraced_eq_run] at hbounded
  exact ⟨_, hbounded⟩

/-- Every task ends in one way only, and with the stack that it began with. -/
theorem ends_unique {α : Type} (task : Task α) (c : Call) :
    ∃ r s, env.Ends task c (r, ⟨s, c.stack⟩) ∧
      ∀ last, env.Ends task c last → last = (r, ⟨s, c.stack⟩) := by
  refine ⟨_, _, ends_eval task c, fun last hlast => ?_⟩
  obtain ⟨heval, hstack⟩ := hlast.eval_eq
  obtain ⟨r, s, stack⟩ := last
  obtain rfl : stack = c.stack := hstack
  rw [heval]

end Environment

namespace Calculator

/-- Every evaluation of a node, of a pipeline and of a formula ends, and it is bounded. Within them,
in every state, every task ends in one way only and with the stack that it began with. -/
theorem evaluation_bounded (c : Calculator) (context : Context) :
    let env : Environment := ⟨c.config, context⟩
    (∀ id, ∃ last, env.BoundedCall c.memory (.node id) (c.evaluate context id).1.outcome
        (c.evaluate context id).2.memory last) ∧
      (∀ p, ∃ last, env.BoundedCall c.memory (env.runTask p context.value)
        (c.runPipeline context p).1.outcome (c.runPipeline context p).2.memory last) ∧
      (∀ text,
        (∃ e, c.evaluateFormula context text = (.ofOutcome (.error (.invalidFormula e)), c)) ∨
        ∃ p last, Pipeline.ofFormula text = .ok p ∧
          env.BoundedCall c.memory (env.runTask p context.value)
            (c.evaluateFormula context text).1.outcome
            (c.evaluateFormula context text).2.memory last) ∧
      ∀ (α : Type) (task : Task α) (call : Environment.Call), ∃ r s,
        env.Ends task call (r, ⟨s, call.stack⟩) ∧
        ∀ last, env.Ends task call last → last = (r, ⟨s, call.stack⟩) := by
  intro env
  refine ⟨fun id => env.boundedCall_node c.memory id, fun p => env.boundedCall_pipeline c.memory p,
    fun text => ?_, fun α task call => env.ends_unique task call⟩
  unfold evaluateFormula
  cases Pipeline.ofFormula text with
  | error e => exact .inl ⟨e, rfl⟩
  | ok p =>
    obtain ⟨last, hlast⟩ := env.boundedCall_pipeline c.memory p
    exact .inr ⟨p, last, rfl, hlast⟩

end Calculator

end FormulaPipeline
