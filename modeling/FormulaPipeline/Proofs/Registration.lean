import FormulaPipeline.Proofs.Evaluation.Callees
import FormulaPipeline.Proofs.Evaluation.Frozen
import FormulaPipeline.Proofs.Incremental

/-!
# Registration of host functions

A registration leaves the graph alone, so what is cached keeps its value, whichever function it was
made with. An evaluation afterwards gives what the new function gives wherever no cached value of a
caller is read, and elsewhere it takes these values for literals.
-/

namespace FormulaPipeline

open Relation

namespace Graph

variable {g : Graph} {name id : String}

/-- A node calls the function, or reads a node that does, over any number of nodes. -/
def CallsThrough (g : Graph) (name id : String) : Prop :=
  ∃ x node, ReflTransGen g.Lists id x ∧ g.find? x = some node ∧ node.pipeline.Calls name

theorem callsThrough_iff : g.CallsThrough name id ↔
    ∃ x ∈ g.requirements [id], ∃ node ∈ g.find? x, node.pipeline.Calls name := by
  simp only [CallsThrough, mem_requirements, List.mem_singleton, exists_eq_left, Option.mem_def]
  exact exists_congr fun x => ⟨fun ⟨node, hx, hnode, h⟩ => ⟨hx, node, hnode, h⟩,
    fun ⟨hx, node, hnode, h⟩ => ⟨node, hx, hnode, h⟩⟩

instance (g : Graph) (name id : String) : Decidable (g.CallsThrough name id) :=
  decidable_of_iff _ callsThrough_iff.symm

theorem CallsThrough.of_lists {x : String} (hlist : g.Lists id x) (h : g.CallsThrough name x) :
    g.CallsThrough name id := by
  obtain ⟨y, node, hreach, hnode⟩ := h
  exact ⟨y, node, .head hlist hreach, hnode⟩

theorem not_callsThrough_of_missing (h : g.contains id = false) : ¬g.CallsThrough name id := by
  rintro ⟨x, node, hreach, hnode, -⟩
  obtain rfl | ⟨y, hlist, -⟩ := hreach.cases_head
  · rw [find?_eq_none_iff.2 h] at hnode
    cases hnode
  · rw [hlist.contains] at h
    cases h

/-- A node has a value that is served from its cache, and it calls the function or reads a node that
does. -/
def Stale (g : Graph) (name id : String) : Prop :=
  (∃ node ∈ g.find? id, node.dirty = false ∧ node.cached.isNull = false) ∧ g.CallsThrough name id

instance (g : Graph) (name id : String) : Decidable (g.Stale name id) := by
  unfold Stale
  infer_instance

/-- A node reads no stale node, and it is none itself. -/
def Unspoiled (g : Graph) (name id : String) : Prop :=
  ∀ x, ReflTransGen g.Lists id x → ¬g.Stale name x

theorem unspoiled_iff :
    g.Unspoiled name id ↔ ∀ x ∈ g.requirements [id], ¬g.Stale name x := by
  simp only [Unspoiled, mem_requirements, List.mem_singleton, exists_eq_left]

instance (g : Graph) (name id : String) : Decidable (g.Unspoiled name id) :=
  decidable_of_iff _ unspoiled_iff.symm

theorem Unspoiled.of_lists {x : String} (h : g.Unspoiled name id) (hlist : g.Lists id x) :
    g.Unspoiled name x :=
  fun y hreach => h y (.head hlist hreach)

end Graph

theorem Node.fresh?_eq_some_iff {n : Node} {v : Value} :
    n.fresh? = some v ↔ n.dirty = false ∧ n.cached.isNull = false ∧ n.cached = v := by
  unfold fresh?
  cases n.dirty <;> cases n.cached.isNull <;> simp

namespace Environment

variable {env : Environment} {g : Graph} {name : String} {f : HostFunction}

/-- What neither calls the function nor reads a caller means the same after the registration. -/
theorem meaning_register_of_not_callsThrough (hcovered : g.Covered) (depth : Nat) {id : String}
    (h : ¬g.CallsThrough name id) :
    (env.register name f).meaning g depth id = env.meaning g depth id := by
  refine meaning_register (D := fun x => ¬g.CallsThrough name x) ?_ ?_ depth h
  · exact fun x node hx hnode hcalls => hx ⟨x, node, .refl, hnode, hcalls⟩
  · intro x node hx hnode y hy
    rcases hcovered.lists_or hnode hy with hlist | hnot
    · exact fun hcalls => hx (hcalls.of_lists hlist)
    · exact Graph.not_callsThrough_of_missing hnot

/-- In a graph of meanings that were found before the registration, those literals that are read are
meanings afterwards unless they are stale. -/
theorem meaning_freeze_of_unspoiled (hpure : env.config.functions.Pure) (hf : f.Pure)
    (hcovered : g.Covered) (hchains : g.ChainsWithin env.config.maxDepth) (hg : g.Coherent env)
    {id : String} (hid : g.Unspoiled name id) :
    (env.register name f).meaning g.freeze env.config.maxDepth id =
      (env.register name f).meaning g env.config.maxDepth id := by
  have hmeaning := @meaning_freeze (env.register name f) g (hpure.register hf name) hcovered hchains
    (g.Unspoiled name) fun x y hx hlist => hx.of_lists hlist
  refine hmeaning ?_ hid
  intro x node v hx hnode hfresh
  obtain ⟨hclean, hvalue, -⟩ := Node.fresh?_eq_some_iff.1 hfresh
  have hcalls : ¬g.CallsThrough name x :=
    fun hcalls => hx x .refl ⟨⟨node, hnode, hclean, hvalue⟩, hcalls⟩
  exact (meaning_register_of_not_callsThrough hcovered _ hcalls).trans (hg x node v hnode hfresh)

end Environment

namespace Calculator

section Evaluations

variable {c : Calculator} {context : Context} (hpure : c.config.functions.Pure)
  (hcovered : c.graph.Covered) (hchains : c.graph.ChainsWithin c.config.maxDepth)

/-- A node with a value that may be used again is served from its cache. -/
theorem evaluate_of_fresh {id : String} {node : Node} {v : Value}
    (hnode : c.graph.find? id = some node) (hfresh : node.fresh? = some v) :
    (c.evaluate context id).1 = { outcome := .ok v, fromCache := true } := by
  have hsettled : Environment.settled? [] id (Session.start c.memory) =
      some { outcome := .ok v, fromCache := true } := by
    have hnode : (Session.start c.memory).graph.find? id = some node := hnode
    simp only [Environment.settled?, hnode, hfresh]
  simp only [evaluate, evaluateNode]
  unfold Environment.node
  rw [hsettled]

theorem evaluate_freeze (id : String) :
    (c.evaluate context id).1.outcome =
      ((c.withGraph c.graph.freeze).evaluate context id).1.outcome :=
  ((Environment.Frozen.start c.memory).node ⟨c.config, context⟩ c.config.maxDepth [] id).1

include hpure hcovered hchains

theorem evaluate_of_coherent {g : Graph} (hpristine : g.pristine = c.graph.pristine)
    (hcoherent : g.Coherent ⟨c.config, context⟩) (id : String) :
    ((c.withGraph g).evaluate context id).1.outcome =
      Environment.meaning ⟨c.config, context⟩ c.graph c.config.maxDepth id := by
  have hready : Ready c.config context (c.withGraph g) :=
    ⟨rfl, Graph.covered_of_pristine_eq hpristine.symm hcovered,
      Graph.chainsWithin_of_pristine_eq hpristine.symm hchains, hcoherent⟩
  rw [(hready.evaluate hpure id).1]
  exact Environment.meaning_of_pristine_eq hpure hpristine _ id

/-- Whatever is cached, an evaluation gives the meaning of its node in the graph in which all values
that may be used again are literals. -/
theorem evaluate_eq_meaning_freeze (id : String) :
    (c.evaluate context id).1.outcome =
      Environment.meaning ⟨c.config, context⟩ c.graph.freeze c.config.maxDepth id := by
  rw [evaluate_freeze]
  exact evaluate_of_coherent (c := c.withGraph c.graph.freeze) hpure hcovered.freeze hchains.freeze
    rfl (Environment.coherent_freeze ⟨c.config, context⟩ hchains) id

end Evaluations

/-- A registration after operations that evaluate in one context, with pure functions, with
definitions that list the nodes they look up and with room for all chains of nodes. Every evaluation
gives what it would give with the new function if nothing were cached, unless it reads a cached
value of a node that calls the function or reads such a node. Cached values are served as they were
found with the functions before, and they count as literals wherever they are read. Once all
results are forgotten, every evaluation gives what it gives with the new function. -/
theorem register_eq_from_scratch {config : Config} {context : Context} {ops : List Operation}
    {name : String} {f : HostFunction} (hpure : config.functions.Pure) (hf : f.Pure)
    (hops : ∀ op ∈ ops, op.Within context)
    (hcovered : ∀ before, before <+: ops → (after { config := config } before).graph.Covered)
    (hchains : ∀ before, before <+: ops →
      (after { config := config } before).graph.ChainsWithin config.maxDepth) :
    let c := after { config := config } ops
    let next := c.register name f
    let fresh := next.withGraph next.graph.pristine
    (∀ id, c.graph.Unspoiled name id →
      (next.evaluate context id).1.outcome = (fresh.evaluate context id).1.outcome) ∧
    (∀ id node, c.graph.find? id = some node → node.dirty = false → node.cached.isNull = false →
      (next.evaluate context id).1 = { outcome := .ok node.cached, fromCache := true } ∧
      ((c.withGraph c.graph.pristine).evaluate context id).1.outcome = .ok node.cached) ∧
    (∀ id, (next.evaluate context id).1.outcome =
      ((next.withGraph next.graph.freeze.pristine).evaluate context id).1.outcome) ∧
    ∀ id, (next.clear.evaluate context id).1.outcome = (fresh.evaluate context id).1.outcome := by
  intro c next fresh
  have hready : Ready config context c := ready_after hpure hops hcovered hchains
  have hconfig : next.config =
      { config with functions := config.functions.register name f } := by
    simp only [next, register, hready.config_eq]
  have hnext : next.config.functions.Pure := by
    rw [hconfig]
    exact hpure.register hf name
  have hroom : next.graph.ChainsWithin next.config.maxDepth := by
    rw [hconfig]
    exact hready.chains
  have hfresh : ∀ id, (fresh.evaluate context id).1.outcome =
      Environment.meaning ⟨next.config, context⟩ next.graph next.config.maxDepth id :=
    evaluate_of_coherent hnext hready.covered hroom (Graph.pristine_pristine _)
      Graph.coherent_pristine
  refine ⟨fun id hid => ?_, fun id node hnode hclean hvalue => ⟨?_, ?_⟩, fun id => ?_, fun id => ?_⟩
  · let env : Environment := ⟨config, context⟩
    have hliterals : (env.register name f).meaning c.graph.freeze config.maxDepth id =
        (env.register name f).meaning c.graph config.maxDepth id :=
      Environment.meaning_freeze_of_unspoiled hpure hf hready.covered hready.chains
        hready.coherent hid
    rw [hfresh, evaluate_eq_meaning_freeze hnext hready.covered hroom, hconfig]
    exact hliterals
  · exact evaluate_of_fresh hnode (Node.fresh?_eq_some_iff.2 ⟨hclean, hvalue, rfl⟩)
  · rw [hready.evaluate_pristine hpure]
    exact hready.coherent id node _ hnode (Node.fresh?_eq_some_iff.2 ⟨hclean, hvalue, rfl⟩)
  · rw [evaluate_eq_meaning_freeze hnext hready.covered hroom]
    exact (evaluate_of_coherent (c := next.withGraph next.graph.freeze) hnext
      hready.covered.freeze hroom.freeze (Graph.pristine_pristine _) Graph.coherent_pristine
      id).symm
  · rw [hfresh]
    exact evaluate_of_coherent hnext hready.covered hroom (Graph.pristine_clear _)
      Graph.coherent_clear id

/-- A function that replaces `UPPER` while a node that calls it waits to be evaluated, and another
node that does not call it has been. -/
theorem register_eq_from_scratch_of_waiting :
    let context := Context.atTime DateTime.epoch
    let ops := [.set "a" { pipeline := [.call "Upper" [[.literal (.text "x") .text]]] },
      .set "b" { pipeline := [.literal (.text "y") .text] }, .evaluate context "b"]
    let c := after {} ops
    let next := c.register "upper" ⟨fun _ _ _ => .ok (.text "shadowed")⟩
    c.graph.Unspoiled "upper" "a" ∧
      (next.evaluate context "a").1.outcome =
        ((next.withGraph next.graph.pristine).evaluate context "a").1.outcome ∧
      (next.evaluate context "b").1 = { outcome := .ok (.text "y"), fromCache := true } := by
  intro context ops c next
  have hpure : Registry.empty.Pure := fun name f hname => by
    simp [Registry.get?, Registry.empty] at hname
  have hf : HostFunction.Pure ⟨fun _ _ _ => .ok (.text "shadowed")⟩ := fun _ _ _ _ => rfl
  have hops : ∀ op ∈ ops, op.Within context := by simp [ops, Operation.Within]
  have hcovered : ∀ before, before <+: ops → (after {} before).graph.Covered := by
    simp only [← List.mem_inits]
    decide +kernel
  have hchains : ∀ before, before <+: ops → (after {} before).graph.ChainsWithin 64 := by
    simp only [← List.mem_inits]
    decide +kernel
  have hwaits : c.graph.Unspoiled "upper" "a" := by decide +kernel
  obtain ⟨heval, hserved, -, -⟩ := @register_eq_from_scratch {} context ops "upper" _ hpure hf hops
    hcovered hchains
  obtain ⟨node, hnode, hclean, hvalue, htext⟩ : ∃ node, c.graph.find? "b" = some node ∧
      node.dirty = false ∧ node.cached.isNull = false ∧ node.cached = .text "y" :=
    ⟨_, rfl, rfl, rfl, rfl⟩
  refine ⟨hwaits, heval "a" hwaits, ?_⟩
  rw [← htext]
  exact (hserved "b" node hnode hclean hvalue).1

/-- A node that has been evaluated with the builtin function keeps its value. -/
theorem register_keeps_cached_value :
    let context := Context.atTime DateTime.epoch
    let c := after {} [.define "a" { formula := some "UPPER(\"x\")" }, .evaluate context "a"]
    let next := c.register "upper" ⟨fun _ _ _ => .ok (.text "shadowed")⟩
    (next.evaluate context "a").1.value == .text "X" ∧
      ((next.withGraph next.graph.pristine).evaluate context "a").1.value ==
        .text "shadowed" := by
  decide +kernel

end Calculator

end FormulaPipeline
