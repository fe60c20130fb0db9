import FormulaPipeline.Proofs.Acyclicity
import FormulaPipeline.Proofs.Evaluation.Coherence

/-!
# Incremental evaluation

A calculator that has been used for long answers like one with the same definitions that has not
evaluated anything, as long as definitions list what they look up and there is room for the chains
of nodes.
-/

namespace FormulaPipeline.Calculator

/-- Definitions list what they look up, there is room for all chains of nodes, and what is cached is
what the nodes mean. -/
structure Ready (config : Config) (context : Context) (c : Calculator) : Prop where
  config_eq : c.config = config
  covered : c.graph.Covered
  chains : c.graph.ChainsWithin config.maxDepth
  coherent : c.graph.Coherent ⟨config, context⟩

section Evaluations

variable {config : Config} {context : Context} {c : Calculator}

theorem Ready.of_pristine_eq (h : Ready config context c) {next : Calculator}
    (hconfig : next.config = c.config) (hpristine : next.graph.pristine = c.graph.pristine)
    (hcoherent : next.graph.Coherent ⟨config, context⟩) : Ready config context next where
  config_eq := hconfig.trans h.config_eq
  covered := Graph.covered_of_pristine_eq hpristine.symm h.covered
  chains := Graph.chainsWithin_of_pristine_eq hpristine.symm h.chains
  coherent := hcoherent

variable (hpure : config.functions.Pure) (h : Ready config context c)
include hpure h

/-- An evaluation gives the meaning of its node and stores meanings only. -/
theorem Ready.evaluate (id : String) :
    (c.evaluate context id).1.outcome =
        Environment.meaning ⟨config, context⟩ c.graph config.maxDepth id ∧
      Ready config context (c.evaluate context id).2 := by
  obtain ⟨rfl, hcovered, hchains, hcoherent⟩ := h
  let env : Environment := ⟨c.config, context⟩
  have hfinds : env.Finds c.graph (env.node c.config.maxDepth []) id :=
    Environment.node_top_finds hpure hcovered hchains id
  obtain ⟨houtcome, hsound⟩ := hfinds (Session.start c.memory) (.start hcoherent rfl)
  exact ⟨houtcome, Ready.of_pristine_eq ⟨rfl, hcovered, hchains, hcoherent⟩ rfl
    (c.pristine_evaluate context id) (Graph.coherent_of_sound hpure hsound)⟩

theorem Ready.runPipeline (p : Pipeline) : Ready config context (c.runPipeline context p).2 := by
  obtain ⟨rfl, hcovered, hchains, hcoherent⟩ := h
  let env : Environment := ⟨c.config, context⟩
  have hsound : env.Sound c.graph
      (env.run env.visitTop p context.value (Session.start c.memory)).2 :=
    Environment.sound_run hpure hcovered hchains (.start hcoherent rfl) p context.value
  rw [← Environment.runTraced_eq_run] at hsound
  exact Ready.of_pristine_eq ⟨rfl, hcovered, hchains, hcoherent⟩ rfl
    (c.pristine_runPipeline context p) (Graph.coherent_of_sound hpure hsound)

theorem Ready.evaluateFormula (formula : String) :
    Ready config context (c.evaluateFormula context formula).2 := by
  rcases c.evaluateFormula_cases context formula with heq | ⟨p, heq⟩
  · rwa [heq]
  · rw [heq]
    exact h.runPipeline hpure p

theorem Ready.recompute : Ready config context (c.recompute context).2 :=
  evaluateAll_induction (fun _ id hnext => (hnext.evaluate hpure id).2) _ h

theorem Ready.set {id : String} {d : NodeDefinition} (hcovered : (c.set id d).graph.Covered)
    (hchains : (c.set id d).graph.ChainsWithin config.maxDepth) :
    Ready config context (c.set id d) := by
  rcases c.set_cases id d with ⟨-, heq⟩ | ⟨-, heq⟩
  · rwa [heq]
  · rw [heq] at hcovered hchains ⊢
    have hput := Graph.covered_of_pristine_eq (Graph.pristine_markDirty (c.graph.put id d) id)
      hcovered
    exact ⟨h.config_eq, hcovered, hchains, h.coherent.put hpure hput⟩

/-- Every operation within the context keeps a calculator ready, provided that the definitions
afterwards are as they have to be. -/
theorem Ready.perform {op : Operation} (hop : op.Within context)
    (hcovered : (c.perform op).graph.Covered)
    (hchains : (c.perform op).graph.ChainsWithin config.maxDepth) :
    Ready config context (c.perform op) := by
  cases op with
  | configure config => exact hop.elim
  | register name f => exact hop.elim
  | set id d => exact h.set hpure hcovered hchains
  | define id d =>
    rcases c.perform_define id d with heq | ⟨d', -, heq⟩
    · rwa [heq]
    · rw [heq] at hcovered hchains ⊢
      exact h.set hpure hcovered hchains
  | remove id =>
    rw [Calculator.perform] at hcovered hchains ⊢
    rcases c.remove_cases id with ⟨-, heq⟩ | ⟨hid, heq⟩
    · rwa [heq]
    · rw [heq] at hcovered hchains ⊢
      exact ⟨h.config_eq, hcovered, hchains, h.coherent.drop hpure hid h.covered⟩
  | invalidate id => exact ⟨h.config_eq, hcovered, hchains, h.coherent.markDirty hpure id⟩
  | clear => exact ⟨h.config_eq, hcovered, hchains, Graph.coherent_clear⟩
  | evaluate context' id =>
    obtain rfl := hop
    exact (h.evaluate hpure id).2
  | runPipeline context' p =>
    obtain rfl := hop
    exact h.runPipeline hpure p
  | evaluateFormula context' formula =>
    obtain rfl := hop
    exact h.evaluateFormula hpure formula
  | recompute context' =>
    obtain rfl := hop
    exact h.recompute hpure

theorem Ready.evaluate_pristine (id : String) :
    ((c.withGraph c.graph.pristine).evaluate context id).1.outcome =
      Environment.meaning ⟨config, context⟩ c.graph config.maxDepth id := by
  have hpristine : (c.withGraph c.graph.pristine).graph.pristine = c.graph.pristine :=
    Graph.pristine_pristine c.graph
  have hready : Ready config context (c.withGraph c.graph.pristine) :=
    h.of_pristine_eq rfl hpristine Graph.coherent_pristine
  rw [(hready.evaluate hpure id).1]
  exact Environment.meaning_of_pristine_eq hpure hpristine _ id

end Evaluations

theorem ready_after {config : Config} {context : Context} {ops : List Operation}
    (hpure : config.functions.Pure) (hops : ∀ op ∈ ops, op.Within context)
    (hcovered : ∀ before, before <+: ops → (after { config := config } before).graph.Covered)
    (hchains : ∀ before, before <+: ops →
      (after { config := config } before).graph.ChainsWithin config.maxDepth) :
    Ready config context (after { config := config } ops) := by
  refine after_induction ops ?_ fun before op hbefore hready => ?_
  · exact ⟨rfl, hcovered [] (List.nil_prefix), hchains [] (List.nil_prefix), Graph.coherent_empty⟩
  · have hnext := hcovered _ hbefore
    have hroom := hchains _ hbefore
    rw [after_concat] at hnext hroom
    exact hready.perform hpure (hops op (hbefore.subset (by simp))) hnext hroom

/-- After any operations that evaluate in one context, with pure functions, with definitions that
list the nodes they look up and with room for all chains of nodes, every evaluation gives what it
would give if nothing were cached, and so does every value that is cached. -/
theorem incremental_eq_from_scratch {config : Config} {context : Context} {ops : List Operation}
    (hpure : config.functions.Pure) (hops : ∀ op ∈ ops, op.Within context)
    (hcovered : ∀ before, before <+: ops → (after { config := config } before).graph.Covered)
    (hchains : ∀ before, before <+: ops →
      (after { config := config } before).graph.ChainsWithin config.maxDepth) :
    let c := after { config := config } ops
    let fresh := c.withGraph c.graph.pristine
    (∀ id, (c.evaluate context id).1.outcome = (fresh.evaluate context id).1.outcome) ∧
      ∀ id node, c.graph.find? id = some node → node.dirty = false → node.cached.isNull = false →
        (fresh.evaluate context id).1.outcome = .ok node.cached := by
  intro c fresh
  have hready : Ready config context c := ready_after hpure hops hcovered hchains
  refine ⟨fun id => ?_, fun id node hnode hclean hvalue => ?_⟩
  · rw [(hready.evaluate hpure id).1, hready.evaluate_pristine hpure id]
  · have hfresh : node.fresh? = some node.cached := by simp [Node.fresh?, hclean, hvalue]
    rw [hready.evaluate_pristine hpure id]
    exact hready.coherent id node _ hnode hfresh

/-- A node that was evaluated before another one that it reads is replaced. -/
theorem incremental_eq_from_scratch_of_redefinition :
    let context := Context.atTime DateTime.epoch
    let ops := [.set "a" { pipeline := [.literal (.bool false) .boolean] },
      .set "b" { pipeline := [.connect "#a"], dependencies := ["a"] },
      .evaluate context "b",
      .set "a" { pipeline := [.literal (.bool true) .boolean] }]
    ((after {} ops).evaluate context "b").1.outcome =
      (((after {} ops).withGraph (after {} ops).graph.pristine).evaluate
        context "b").1.outcome := by
  intro context ops
  have hpure : Registry.empty.Pure := fun name f hname => by
    simp [Registry.get?, Registry.empty] at hname
  have hops : ∀ op ∈ ops, op.Within context := by simp [ops, Operation.Within]
  have hcovered : ∀ before, before <+: ops → (after {} before).graph.Covered := by
    simp only [← List.mem_inits]
    decide +kernel
  have hchains : ∀ before, before <+: ops → (after {} before).graph.ChainsWithin 64 := by
    simp only [← List.mem_inits]
    decide +kernel
  exact (@incremental_eq_from_scratch {} context ops hpure hops hcovered hchains).1 "b"

end FormulaPipeline.Calculator
