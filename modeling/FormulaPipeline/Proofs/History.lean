import FormulaPipeline.Calculator
import FormulaPipeline.Proofs.Evaluation.Frame
import FormulaPipeline.Proofs.Graph.Cycle

/-!
# Histories

What can be asked of a calculator, in any order. An operation either keeps all definitions, accepts
one definition, or removes one node; whatever is refused leaves the calculator as it was.
-/

namespace FormulaPipeline

open Relation

inductive Operation where
  | configure (config : Config)
  | register (name : String) (f : HostFunction)
  /-- Define a node as it is given. -/
  | set (id : String) (d : NodeDefinition)
  /-- Define a node after completing its definition. -/
  | define (id : String) (d : NodeDefinition)
  | remove (id : String)
  | invalidate (id : String)
  | clear
  | evaluate (context : Context) (id : String)
  | runPipeline (context : Context) (p : Pipeline)
  | evaluateFormula (context : Context) (formula : String)
  | recompute (context : Context)

/-- An operation that leaves the configuration alone and evaluates in one context only. -/
def Operation.Within (context : Context) : Operation → Prop
  | .configure _ | .register _ _ => False
  | .evaluate c _ | .runPipeline c _ | .evaluateFormula c _ | .recompute c => c = context
  | _ => True

/-- The definition that an operation gives an id, as it would be stored. -/
def Operation.Defines (id : String) (d : NodeDefinition) : Operation → Prop
  | .set name given => name = id ∧ given = d
  | .define name given => name = id ∧ given.complete = .ok d
  | _ => False

namespace Calculator

@[simp] theorem graph_withGraph (c : Calculator) (g : Graph) : (c.withGraph g).graph = g := rfl

/-- Accept a definition unless it closes a cycle. -/
def set (c : Calculator) (id : String) (d : NodeDefinition) : Calculator :=
  match c.graph.define id d with
  | .ok g => c.withGraph g
  | .error _ => c

def perform (c : Calculator) : Operation → Calculator
  | .configure config => { c with config := config }
  | .register name f => c.register name f
  | .set id d => c.set id d
  | .define id d =>
    match c.define id d with
    | .ok c => c
    | .error _ => c
  | .remove id => c.remove id
  | .invalidate id => c.invalidate id
  | .clear => c.clear
  | .evaluate context id => (c.evaluate context id).2
  | .runPipeline context p => (c.runPipeline context p).2
  | .evaluateFormula context formula => (c.evaluateFormula context formula).2
  | .recompute context => (c.recompute context).2

/-- The calculator after a sequence of operations. -/
def after (c : Calculator) (ops : List Operation) : Calculator := ops.foldl perform c

/-- Some operations lead from an empty calculator to this one. -/
def Reachable (c : Calculator) : Prop := ∃ config ops, c = after { config := config } ops

theorem after_append (c : Calculator) (ops later : List Operation) :
    c.after (ops ++ later) = (c.after ops).after later :=
  List.foldl_append

theorem after_concat (c : Calculator) (ops : List Operation) (op : Operation) :
    c.after (ops ++ [op]) = (c.after ops).perform op :=
  c.after_append ops [op]

/-- What holds at first and is kept by every operation holds after all of them. -/
theorem after_induction {I : Calculator → Prop} {c : Calculator} (ops : List Operation) (hc : I c)
    (hstep : ∀ before op, before ++ [op] <+: ops → I (c.after before) →
      I ((c.after before).perform op)) : I (c.after ops) := by
  induction ops using List.reverseRecOn with
  | nil => exact hc
  | append_singleton ops op ih =>
    rw [after_concat]
    refine hstep ops op List.prefix_rfl (ih fun before op' hbefore => ?_)
    exact hstep before op' (hbefore.trans (List.prefix_append ops [op]))

/-! ## What an operation does -/

theorem set_cases (c : Calculator) (id : String) (d : NodeDefinition) :
    ((∃ cycle, c.graph.define id d = .error cycle) ∧ c.set id d = c) ∨
      ((¬∃ name ∈ d.dependencies, ReflTransGen c.graph.Lists name id) ∧
        c.set id d = c.withGraph ((c.graph.put id d).markDirty id)) := by
  unfold set
  cases h : c.graph.define id d with
  | error cycle => exact .inl ⟨⟨cycle, rfl⟩, rfl⟩
  | ok g =>
    obtain ⟨hfree, rfl⟩ := Graph.define_eq_ok_iff.1 h
    exact .inr ⟨hfree, rfl⟩

@[simp] theorem config_set (c : Calculator) (id : String) (d : NodeDefinition) :
    (c.set id d).config = c.config := by
  unfold set
  split <;> rfl

theorem perform_define (c : Calculator) (id : String) (d : NodeDefinition) :
    c.perform (.define id d) = c ∨
      ∃ d', d.complete = .ok d' ∧ c.perform (.define id d) = c.set id d' := by
  simp only [perform, define]
  cases d.complete with
  | error e => exact .inl rfl
  | ok d' =>
    refine .inr ⟨d', rfl, ?_⟩
    unfold set
    cases h : c.graph.define id d' <;> simp [h]

theorem remove_cases (c : Calculator) (id : String) :
    (c.graph.contains id = false ∧ c.remove id = c) ∨
      (c.graph.contains id = true ∧
        c.remove id = c.withGraph ((c.graph.drop id).markDirty id)) := by
  unfold remove
  rw [Graph.remove_eq]
  cases hid : c.graph.contains id with
  | false => exact .inl ⟨rfl, rfl⟩
  | true => exact .inr ⟨rfl, rfl⟩

theorem evaluateFormula_cases (c : Calculator) (context : Context) (formula : String) :
    (c.evaluateFormula context formula).2 = c ∨
      ∃ p, (c.evaluateFormula context formula).2 = (c.runPipeline context p).2 := by
  unfold evaluateFormula
  cases Pipeline.ofFormula formula with
  | error e => exact .inl rfl
  | ok p => exact .inr ⟨p, rfl⟩

/-- What single evaluations keep is kept when many nodes are evaluated. -/
theorem evaluateAll_induction {I : Calculator → Prop} {context : Context}
    (heval : ∀ c id, I c → I (c.evaluate context id).2) (ids : List String) {c : Calculator}
    (hc : I c) : I (c.evaluateAll context ids).2 := by
  induction ids generalizing c with
  | nil => exact hc
  | cons id rest ih => exact ih (heval c id hc)

/-! ## Definitions through operations -/

theorem pristine_evaluate (c : Calculator) (context : Context) (id : String) :
    (c.evaluate context id).2.graph.pristine = c.graph.pristine :=
  pristine_evaluateNode c.config context c.memory id

theorem pristine_runPipeline (c : Calculator) (context : Context) (p : Pipeline) :
    (c.runPipeline context p).2.graph.pristine = c.graph.pristine :=
  pristine_evaluatePipeline c.config context c.memory p

theorem pristine_evaluateFormula (c : Calculator) (context : Context) (formula : String) :
    (c.evaluateFormula context formula).2.graph.pristine = c.graph.pristine := by
  rcases c.evaluateFormula_cases context formula with h | ⟨p, h⟩
  · rw [h]
  · rw [h, pristine_runPipeline]

theorem pristine_recompute (c : Calculator) (context : Context) :
    (c.recompute context).2.graph.pristine = c.graph.pristine :=
  evaluateAll_induction (I := fun next => next.graph.pristine = c.graph.pristine)
    (fun next id h => (next.pristine_evaluate context id).trans h) _ rfl

theorem pristine_set_cases (c : Calculator) (id : String) (d : NodeDefinition) :
    (c.set id d).graph.pristine = c.graph.pristine ∨
      ((¬∃ name ∈ d.dependencies, ReflTransGen c.graph.Lists name id) ∧
        (c.set id d).graph.pristine = (c.graph.put id d).pristine) := by
  rcases c.set_cases id d with ⟨-, h⟩ | ⟨hfree, h⟩
  · exact .inl (by rw [h])
  · exact .inr ⟨hfree, by simp [h]⟩

/-- An operation keeps all definitions, or puts one that closes no cycle, or drops one. -/
theorem pristine_perform_cases (c : Calculator) (op : Operation) :
    (c.perform op).graph.pristine = c.graph.pristine ∨
      (∃ id d, op.Defines id d ∧ (¬∃ name ∈ d.dependencies, ReflTransGen c.graph.Lists name id) ∧
        (c.perform op).graph.pristine = (c.graph.put id d).pristine) ∨
      ∃ id, (c.perform op).graph.pristine = (c.graph.drop id).pristine := by
  cases op with
  | configure config => exact .inl rfl
  | register name f => exact .inl rfl
  | set id d => exact (c.pristine_set_cases id d).imp_right fun h => .inl ⟨id, d, ⟨rfl, rfl⟩, h⟩
  | define id d =>
    rcases c.perform_define id d with h | ⟨d', hd, h⟩
    · exact .inl (by rw [h])
    · rw [h]
      exact (c.pristine_set_cases id d').imp_right fun h => .inl ⟨id, d', ⟨rfl, hd⟩, h⟩
  | remove id =>
    rcases c.remove_cases id with ⟨-, h⟩ | ⟨-, h⟩
    · exact .inl (by rw [perform, h])
    · exact .inr (.inr ⟨id, by simp [perform, h]⟩)
  | invalidate id => exact .inl (by simp [perform, invalidate])
  | clear => exact .inl (by simp [perform, clear])
  | evaluate context id => exact .inl (c.pristine_evaluate context id)
  | runPipeline context p => exact .inl (c.pristine_runPipeline context p)
  | evaluateFormula context formula => exact .inl (c.pristine_evaluateFormula context formula)
  | recompute context => exact .inl (c.pristine_recompute context)

end Calculator

end FormulaPipeline
