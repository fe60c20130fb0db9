import FormulaPipeline.Proofs.Acyclicity
import FormulaPipeline.Proofs.Evaluation.Log
import FormulaPipeline.Proofs.Evaluation.Room
import FormulaPipeline.Proofs.Graph.Order
import FormulaPipeline.Proofs.Incremental

/-!
# Recomputation

A recomputation evaluates every node after the nodes that it lists. A value other than null is then
served from the cache, so it costs no room for nested evaluations. A node that gives null or fails
is run again wherever it is looked up, so a chain of such nodes still has to fit.
-/

namespace FormulaPipeline

namespace Graph

/-- The pipeline of a node looks up another node. -/
def LooksUp (g : Graph) (a b : String) : Prop :=
  g.contains b = true ∧ ∃ node, g.find? a = some node ∧ b ∈ node.pipeline.targets

/-- No node has a value that may be used again. -/
def Cold (g : Graph) : Prop := ∀ id node, g.find? id = some node → node.fresh? = none

theorem cold_iff {g : Graph} :
    g.Cold ↔ ∀ entry ∈ g.nodes, entry.2.fresh?.isNone = true := by
  simp only [Option.isNone_iff_eq_none]
  constructor
  · exact fun hg entry hentry => hg entry.1 entry.2 (g.sorted.find?_of_mem hentry)
  · exact fun hg id node hnode => hg (id, node) (Keyed.mem_of_find? hnode)

instance (g : Graph) : Decidable g.Cold := decidable_of_iff _ cold_iff.symm

theorem Covered.lists_of_looksUp {g : Graph} (hg : g.Covered) {a b : String} (h : g.LooksUp a b) :
    g.Lists a b := by
  obtain ⟨hcontains, node, hnode, htarget⟩ := h
  exact lists_iff.2 ⟨node, hnode, hg a node hnode b htarget hcontains⟩

/-- A node at the end of a chain of lookups is not among the nodes before it. -/
theorem Acyclic.not_mem_of_isChain {g : Graph} (h : g.Acyclic) (hcovered : g.Covered)
    {active : List String} {id : String} (hchain : (active ++ [id]).IsChain g.LooksUp) :
    id ∉ active := by
  have hnodup := h.nodup_of_isChain (hchain.imp fun _ _ => hcovered.lists_of_looksUp)
  rw [List.nodup_append] at hnodup
  exact fun hmem => hnodup.2.2 id hmem id (List.mem_singleton_self id) rfl

end Graph

theorem Node.cached_eq_value (n : Node) : n.cached = Outcome.value n.outcome := by
  unfold cached Outcome.value
  cases n.outcome <;> rfl

namespace Environment

/-- A session over the definitions of a graph in which the given nodes have been brought up to
date. -/
structure UpToDate (env : Environment) (g : Graph) (done : List String) (s : Session) : Prop where
  sound : (env.withRoom g.size).Sound g s
  current : ∀ id ∈ done, ∀ node, s.graph.find? id = some node →
    node.dirty = false ∧ node.outcome = env.unlimited g id

namespace UpToDate

variable {env : Environment} {g : Graph} {done : List String} {s : Session}

theorem warn (hs : env.UpToDate g done s) (text : String) : env.UpToDate g done (s.warn text) :=
  ⟨hs.sound.warn text, hs.current⟩

theorem called (hs : env.UpToDate g done s) (name : String) :
    env.UpToDate g done (s.called name) :=
  ⟨hs.sound.called name, hs.current⟩

theorem enter (hs : env.UpToDate g done s) (chain : List String) :
    env.UpToDate g done (s.enter chain) :=
  ⟨hs.sound.enter chain, hs.current⟩

theorem forget {id : String} (hs : env.UpToDate g (id :: done) s) : env.UpToDate g done s :=
  ⟨hs.sound, fun x hx => hs.current x (List.mem_cons_of_mem _ hx)⟩

/-- The next call starts from what this one leaves. -/
theorem restart (hs : env.UpToDate g done s) : env.UpToDate g done (Session.start s.memory) :=
  ⟨⟨hs.sound.pristine, hs.sound.cached, fun id outcome h => by simp at h⟩, hs.current⟩

theorem finish (hs : env.UpToDate g done s) {id : String} {outcome : Outcome}
    (h : env.unlimited g id = outcome) : env.UpToDate g (id :: done) (s.finish id outcome) where
  sound := hs.sound.finish h
  current := by
    intro x hx node hnode
    rw [Session.graph_finish, Graph.store, Graph.find?_mapNodes, Option.map_eq_some_iff] at hnode
    obtain ⟨old, hold, rfl⟩ := hnode
    by_cases heq : x = id
    · simp [heq, h]
    · rw [if_neg heq]
      exact hs.current x ((List.mem_cons.1 hx).resolve_left heq) old hold

/-- What a node lists needs no refreshing once it is done. -/
theorem refresh_eq (hs : env.UpToDate g done s) {names : List String}
    (hnames : ∀ x ∈ names, g.contains x = true → x ∈ done)
    (visit : String → Session → Evaluation × Session) : refresh visit names s = s := by
  have hclean : ∀ x ∈ names, isStale s x = false := by
    intro x hx
    unfold isStale
    cases hnode : s.graph.find? x with
    | none => rfl
    | some node =>
      have hcontains : g.contains x = true :=
        hs.sound.contains_eq x ▸ Graph.contains_iff.2 ⟨node, hnode⟩
      simp [(hs.current x (hnames x hx hcontains) node hnode).1]
  clear hnames
  induction names with
  | nil => rfl
  | cons x rest ih =>
    obtain ⟨hx, hrest⟩ := List.forall_mem_cons.1 hclean
    rw [refresh, hx]
    exact ih hrest

/-- What is served from the cache is up to date. -/
theorem of_fresh (hs : env.UpToDate g done s) {id : String} {node : Node} {v : Value}
    (hnode : s.graph.find? id = some node) (hfresh : node.fresh? = some v) :
    env.UpToDate g (id :: done) s where
  sound := hs.sound
  current := by
    intro x hx other hother
    rcases List.mem_cons.1 hx with rfl | hx
    · obtain rfl : node = other := Option.some.inj (hnode.symm.trans hother)
      have hmeaning : env.unlimited g x = .ok v := hs.sound.cached x node v hnode hfresh
      rw [hmeaning]
      rw [Node.fresh?, Node.cached_eq_value] at hfresh
      cases houtcome : node.outcome <;>
        simp_all [Outcome.value, Value.isNull]
    · exact hs.current x hx other hother

/-- A node that is done and has to be run again gives null or fails. -/
theorem blank_of_settled? (hs : env.UpToDate g done s) {active : List String} {id : String}
    (hid : id ∈ done) (hnew : settled? active id s = none) :
    (Outcome.value (env.unlimited g id)).isNull = true := by
  obtain ⟨node, hnode, hfresh, -, -⟩ := settled?_eq_none_iff.1 hnew
  obtain ⟨hclean, houtcome⟩ := hs.current id hid node hnode
  rw [← houtcome, ← Node.cached_eq_value]
  by_contra hvalue
  simp [Node.fresh?, hclean, hvalue] at hfresh

theorem node_missing (hs : env.UpToDate g done s) {id : String} (hid : g.contains id = false)
    (depth : Nat) (active : List String) :
    env.node depth active id s = (.ofOutcome (env.unlimited g id), s) := by
  have hnone := hs.sound.find?_eq_none_iff.2 (Graph.find?_eq_none_iff.2 hid)
  unfold Environment.node
  simp only [settled?, hnone, unlimited_of_missing hid]

section Acyclic

variable (hpure : env.config.functions.Pure) (hcovered : g.Covered) (hacyclic : g.Acyclic)
include hpure hcovered hacyclic

/-- A node whose dependencies are done is up to date after it was run. -/
theorem enter_done (hs : env.UpToDate g done s) {id : String} (hid : g.contains id = true)
    (hready : ∀ x, g.Lists id x → g.contains x = true → x ∈ done)
    {visit : String → Session → Evaluation × Session}
    (hvisit : ∀ x, g.LooksUp id x → ∀ t, env.UpToDate g done t →
      (visit x t).1.outcome = env.unlimited g x ∧ env.UpToDate g done (visit x t).2)
    (hmissing : ∀ x, g.contains x = false → ∀ t, env.UpToDate g done t →
      visit x t = (.ofOutcome (env.unlimited g x), t)) :
    (env.enter visit id s).1.outcome = env.unlimited g id ∧
      env.UpToDate g (id :: done) (env.enter visit id s).2 := by
  rw [← hs.sound.contains_eq] at hid
  obtain ⟨node, hnode⟩ := Graph.contains_iff.1 hid
  obtain ⟨other, hother, hpipeline, hdependencies⟩ := hs.sound.find? hnode
  have hfresh : refresh visit node.dependencies s = s := by
    refine hs.refresh_eq (fun x hx => hready x ?_) visit
    exact Graph.lists_iff.2 ⟨other, hother, hdependencies ▸ hx⟩
  have htargets : ∀ x ∈ node.pipeline.targets, ∀ t, env.UpToDate g done t →
      (visit x t).1.outcome = env.unlimited g x ∧ env.UpToDate g done (visit x t).2 := by
    intro x hx t ht
    cases hcontains : g.contains x with
    | true => exact hvisit x ⟨hcontains, other, hother, hpipeline ▸ hx⟩ t ht
    | false =>
      rw [hmissing x hcontains t ht]
      exact ⟨rfl, ht⟩
  let value : Visit := fun x t => ((visit x t).1.outcome, (visit x t).2)
  have hrun : Agree (fun t _ => env.UpToDate g done t)
      (env.run value node.pipeline env.context.value s)
      (env.run (fun x t => (env.unlimited g x, t)) node.pipeline env.context.value
        (Session.start { graph := g })) :=
    run_eq_of_visits hpure (fun _ ht => ht.sound.pristine) (fun _ text ht => ht.warn text)
      (fun _ name ht => ht.called name) htargets hs
  obtain ⟨houtcome, hlast⟩ := hrun
  rw [← hpipeline, ← unlimited_eq_run hpure hcovered hacyclic hother, hpipeline] at houtcome
  obtain ⟨hresult, hsession⟩ := Prod.mk.inj (env.enter_eq_run visit hnode)
  rw [hfresh] at hresult hsession
  rw [hsession]
  exact ⟨hresult.trans houtcome, hlast.finish houtcome.symm⟩

/-- The chain of nodes that are being evaluated holds, after the first one, nodes that give null or
fail. It cannot outgrow the room, so the node is settled or entered. -/
theorem node_done
    (hroom : ∀ id chain, (id :: chain).IsChain g.LooksUp →
      (∀ x ∈ chain, (Outcome.value (env.unlimited g x)).isNull = true) →
        chain.length < env.config.maxDepth)
    (hclosed : ∀ id ∈ done, ∀ x, g.Lists id x → g.contains x = true → x ∈ done)
    (depth : Nat) {first id : String} {rest : List String}
    (hchain : (first :: (rest ++ [id])).IsChain g.LooksUp)
    (hblank : ∀ x ∈ rest, (Outcome.value (env.unlimited g x)).isNull = true)
    (hdepth : rest.length + 1 + depth = env.config.maxDepth) (hid : id ∈ done)
    (hs : env.UpToDate g done s) :
    (env.node depth (first :: rest) id s).1.outcome = env.unlimited g id ∧
      env.UpToDate g done (env.node depth (first :: rest) id s).2 := by
  induction depth generalizing rest id s with
  | zero =>
    have hfree : id ∉ first :: rest := hacyclic.not_mem_of_isChain hcovered hchain
    rw [Environment.node]
    cases hsettled : settled? (first :: rest) id s with
    | some answer => exact ⟨hs.sound.settled? hfree hsettled, hs⟩
    | none =>
      have hlength := hroom first (rest ++ [id]) hchain
        (List.forall_mem_append.2 ⟨hblank, by simpa using hs.blank_of_settled? hid hsettled⟩)
      rw [List.length_append, List.length_singleton] at hlength
      omega
  | succ depth ih =>
    have hfree : id ∉ first :: rest := hacyclic.not_mem_of_isChain hcovered hchain
    rw [Environment.node]
    cases hsettled : settled? (first :: rest) id s with
    | some answer => exact ⟨hs.sound.settled? hfree hsettled, hs⟩
    | none =>
      have hcontains : g.contains id = true := by
        obtain ⟨node, hnode, -⟩ := settled?_eq_none_iff.1 hsettled
        exact hs.sound.contains_eq id ▸ Graph.contains_iff.2 ⟨node, hnode⟩
      have hlooked : ∀ x, g.LooksUp id x → ∀ t, env.UpToDate g done t →
          (env.node depth (first :: (rest ++ [id])) x t).1.outcome = env.unlimited g x ∧
            env.UpToDate g done (env.node depth (first :: (rest ++ [id])) x t).2 := by
        intro x hx t ht
        refine ih ?_ ?_ ?_ ?_ ht
        · refine hchain.append (List.isChain_singleton x) fun y hy z hz => ?_
          rw [← List.cons_append, List.getLast?_concat, Option.mem_some_iff] at hy
          rw [List.head?_singleton, Option.mem_some_iff] at hz
          exact hy ▸ hz ▸ hx
        · exact List.forall_mem_append.2 ⟨hblank, by simpa using hs.blank_of_settled? hid hsettled⟩
        · rw [List.length_append, List.length_singleton]
          omega
        · exact hclosed id hid x (hcovered.lists_of_looksUp hx) hx.1
      obtain ⟨houtcome, hlast⟩ := (hs.enter (first :: rest ++ [id])).enter_done hpure hcovered
        hacyclic hcontains (hclosed id hid) hlooked fun x hx t ht => ht.node_missing hx depth _
      exact ⟨houtcome, hlast.forget⟩

/-- A call for a node outside of any other node, after everything that the node lists. -/
theorem node_top
    (hroom : ∀ id chain, (id :: chain).IsChain g.LooksUp →
      (∀ x ∈ chain, (Outcome.value (env.unlimited g x)).isNull = true) →
        chain.length < env.config.maxDepth)
    (hclosed : ∀ id ∈ done, ∀ x, g.Lists id x → g.contains x = true → x ∈ done) {id : String}
    (hid : g.contains id = true) (hready : ∀ x, g.Lists id x → g.contains x = true → x ∈ done)
    (hs : env.UpToDate g done s) (hknown : s.outcome? id = none) :
    (env.node env.config.maxDepth [] id s).1.outcome = env.unlimited g id ∧
      env.UpToDate g (id :: done) (env.node env.config.maxDepth [] id s).2 := by
  have hpos : 0 < env.config.maxDepth := hroom id [] (List.isChain_singleton id) (by simp)
  obtain ⟨depth, hdepth⟩ := Nat.exists_eq_add_one_of_ne_zero hpos.ne'
  obtain ⟨node, hnode⟩ := Graph.contains_iff.1 (hs.sound.contains_eq id ▸ hid)
  rw [hdepth, Environment.node]
  cases hfresh : node.fresh? with
  | some v =>
    have hsettled : settled? [] id s = some { outcome := .ok v, fromCache := true } := by
      simp [settled?, hnode, hfresh]
    rw [hsettled]
    exact ⟨(hs.sound.cached id node v hnode hfresh).symm, hs.of_fresh hnode hfresh⟩
  | none =>
    have hsettled : settled? [] id s = none :=
      settled?_eq_none_iff.2 ⟨node, hnode, hfresh, hknown, List.not_mem_nil⟩
    rw [hsettled]
    refine (hs.enter ([] ++ [id])).enter_done hpure hcovered hacyclic hid hready
      (fun x hx t ht => ?_) fun x hx t ht => ht.node_missing hx depth _
    have hchain : (id :: ([] ++ [x])).IsChain g.LooksUp := by simpa using hx
    have hlength : ([] : List String).length + 1 + depth = env.config.maxDepth := by
      rw [hdepth, List.length_nil]
      omega
    exact ht.node_done hpure hcovered hacyclic hroom hclosed depth hchain (by simp) hlength
      (hready x (hcovered.lists_of_looksUp hx) hx.1)

end Acyclic

end UpToDate

end Environment

namespace Calculator

/-- The calculator with another limit on nested evaluations. -/
def withRoom (c : Calculator) (limit : Nat) : Calculator :=
  { c with config := { c.config with maxDepth := limit } }

/-- The evaluation of a node when evaluations may be nested as deep as there are nodes. -/
def unlimited (c : Calculator) (context : Context) (id : String) : Evaluation :=
  ((c.withRoom c.graph.size).evaluate context id).1

/-- A chain of nodes, each of which the one before looks up, fits into the room for nested
evaluations when all of them but the first give null or fail. -/
def BlankChainsFit (c : Calculator) (context : Context) : Prop :=
  ∀ id chain, (id :: chain).IsChain c.graph.LooksUp →
    (∀ x ∈ chain, (c.unlimited context x).value.isNull = true) → chain.length < c.config.maxDepth

section Recompute

variable {c : Calculator} {context : Context} (hpure : c.config.functions.Pure)
  (hacyclic : c.graph.Acyclic) (hcovered : c.graph.Covered) (hcold : c.graph.Cold)
include hpure hacyclic hcovered hcold

/-- From the number of nodes on, the limit makes no difference. -/
theorem evaluate_withRoom {limit : Nat} (hlimit : c.graph.size ≤ limit) (id : String) :
    ((c.withRoom limit).evaluate context id).1.outcome =
      Environment.unlimited ⟨c.config, context⟩ c.graph id := by
  have hready : Ready (c.withRoom limit).config context (c.withRoom limit) :=
    { config_eq := rfl
      covered := hcovered
      chains := fun chain hnodes hchain =>
        (hacyclic.chainsWithin chain hnodes hchain).trans hlimit
      coherent := fun x node v hnode hfresh => by
        have hnone := hcold x node hnode
        simp [hfresh] at hnone }
  have hpure' : (c.withRoom limit).config.functions.Pure := hpure
  let env : Environment := ⟨c.config, context⟩
  have hmeaning : (env.withRoom limit).meaning c.graph limit id = env.unlimited c.graph id :=
    Environment.meaning_eq_unlimited hpure hcovered hacyclic hlimit id
  exact (hready.evaluate hpure' id).1.trans hmeaning

end Recompute

theorem map_fst_evaluateAll (c : Calculator) (context : Context) (ids : List String) :
    (c.evaluateAll context ids).1.map (·.1) = ids := by
  induction ids generalizing c with
  | nil => rfl
  | cons id rest ih => exact congrArg (id :: ·) (ih (c.evaluate context id).2)

/-- Nodes that are evaluated in order give what they give without a limit. -/
theorem evaluateAll_inOrder {config : Config} {context : Context} {g : Graph}
    (hpure : config.functions.Pure) (hcovered : g.Covered) (hacyclic : g.Acyclic)
    (hroom : ∀ id chain, (id :: chain).IsChain g.LooksUp →
      (∀ x ∈ chain, (Outcome.value (Environment.unlimited ⟨config, context⟩ g x)).isNull = true) →
        chain.length < config.maxDepth)
    (rest : List String) {done : List String} {c : Calculator} (hconfig : c.config = config)
    (hc : Environment.UpToDate ⟨config, context⟩ g done (Session.start c.memory))
    (hclosed : ∀ id ∈ done, ∀ x, g.Lists id x → g.contains x = true → x ∈ done)
    (horder : g.InOrder done rest) (hnodes : ∀ id ∈ rest, g.contains id = true) :
    ∀ entry ∈ (c.evaluateAll context rest).1,
      entry.2.outcome = Environment.unlimited ⟨config, context⟩ g entry.1 := by
  induction rest generalizing done c with
  | nil => simp [evaluateAll]
  | cons id rest ih =>
    obtain ⟨hready, horder⟩ := horder
    obtain ⟨hid, hnodes⟩ := List.forall_mem_cons.1 hnodes
    obtain ⟨houtcome, hnext⟩ := hc.node_top hpure hcovered hacyclic hroom hclosed hid hready rfl
    subst hconfig
    refine List.forall_mem_cons.2 ⟨houtcome, ih rfl hnext.restart ?_ horder hnodes⟩
    refine List.forall_mem_cons.2 ⟨fun x hx hcontains => ?_, fun a ha x hx hcontains => ?_⟩
    · exact List.mem_cons_of_mem _ (hready x hx hcontains)
    · exact List.mem_cons_of_mem _ (hclosed a ha x hx hcontains)

/-- A recomputation of a calculator in which nothing is cached has one entry for each node, in an
order in which every node comes after the nodes that it lists. If the functions are pure, if nodes
list what they look up, and if chains of nodes that give null or fail fit, then each entry is what
evaluating the node gives without a limit, so no entry tells that nodes are nested too deep unless a
host function says so itself. -/
theorem recompute_eq_unlimited {c : Calculator} {context : Context} (hc : c.Reachable)
    (hpure : c.config.functions.Pure) (hcovered : c.graph.Covered) (hcold : c.graph.Cold)
    (hfit : c.BlankChainsFit context) :
    let entries := (c.recompute context).1
    ((entries.map (·.1)).Nodup ∧ (entries.map (·.1)).Perm c.graph.ids) ∧
      c.graph.InOrder [] (entries.map (·.1)) ∧
      (∀ entry ∈ entries, ∀ limit, c.graph.size ≤ limit →
        entry.2.outcome = ((c.withRoom limit).evaluate context entry.1).1.outcome) ∧
      ((∀ name f, c.config.functions.get? name = some f →
          ∀ n args context limit, f.run n args context ≠ .error (.depthExceeded limit)) →
        ∀ entry ∈ entries, ∀ limit, entry.2.outcome ≠ .error (.depthExceeded limit)) := by
  intro entries
  have hacyclic : c.graph.Acyclic := hc.wellFormed.acyclic
  let env : Environment := ⟨c.config, context⟩
  have hlimit : ∀ {limit}, c.graph.size ≤ limit → ∀ id,
      ((c.withRoom limit).evaluate context id).1.outcome = env.unlimited c.graph id :=
    fun h id => evaluate_withRoom hpure hacyclic hcovered hcold h id
  have hids : entries.map (·.1) = c.graph.topologicalOrder := c.map_fst_evaluateAll context _
  have hperm : c.graph.topologicalOrder.Perm c.graph.ids := c.graph.perm_topologicalOrder
  have hroom : ∀ id chain, (id :: chain).IsChain c.graph.LooksUp →
      (∀ x ∈ chain, (Outcome.value (env.unlimited c.graph x)).isNull = true) →
        chain.length < c.config.maxDepth := by
    refine fun id chain hchain hblank => hfit id chain hchain fun x hx => ?_
    rw [unlimited, Evaluation.value, hlimit le_rfl]
    exact hblank x hx
  have hstart : env.UpToDate c.graph [] (Session.start c.memory) :=
    { sound :=
        { pristine := rfl
          cached := fun id node v hnode hfresh => by simp [hcold id node hnode] at hfresh
          known := fun id outcome h => by simp at h }
      current := by simp }
  have houtcome : ∀ entry ∈ entries, entry.2.outcome = env.unlimited c.graph entry.1 :=
    evaluateAll_inOrder hpure hcovered hacyclic hroom _ rfl hstart (by simp)
      hacyclic.inOrder_topologicalOrder
      fun id hid => Graph.contains_iff_mem_ids.2 (hperm.mem_iff.1 hid)
  refine ⟨?_, hids ▸ hacyclic.inOrder_topologicalOrder, fun entry hentry limit hle => ?_,
    fun hhost entry hentry limit hdeep => ?_⟩
  · rw [hids]
    exact ⟨hperm.nodup_iff.2 c.graph.nodup_ids, hperm⟩
  · rw [houtcome entry hentry, hlimit hle]
  · rw [houtcome entry hentry] at hdeep
    refine env.unlimited_fails (E := fun e => ∀ limit, e ≠ .depthExceeded limit) hcovered hacyclic
      ?_ (by simp) (fun name f hf n args context e he limit heq => ?_) entry.1 _ hdeep limit rfl
    · rintro e he limit rfl
      exact he
    · exact hhost name f hf n args context limit (heq ▸ he)

/-- Room for two is enough for a chain of four nodes of which only the first gives null. -/
theorem recompute_eq_unlimited_of_four :
    let context := Context.atTime DateTime.epoch
    let c := after { config := { maxDepth := 2 } } [.set "a" { pipeline := [.literal .null .null] },
      .set "b" { pipeline := [.connect "#a", .default (.bool false)], dependencies := ["a"] },
      .set "c" { pipeline := [.connect "#b"], dependencies := ["b"] },
      .set "d" { pipeline := [.connect "#c"], dependencies := ["c"] }]
    ∀ entry ∈ (c.recompute context).1,
      entry.2.outcome = ((c.withRoom 64).evaluate context entry.1).1.outcome ∧
        ∀ limit, entry.2.outcome ≠ .error (.depthExceeded limit) := by
  intro context c
  have hconfig : c.config = { maxDepth := 2 } := by simp [c, after, perform]
  have hnone : ∀ name f, c.config.functions.get? name = some f → False := fun name f hname => by
    simp [hconfig, Registry.get?, Registry.empty] at hname
  have hfit : c.BlankChainsFit context := by
    have hblank : ∀ x ∈ c.graph.ids, (c.unlimited context x).value.isNull = true → x = "a" := by
      decide +kernel
    have htargets : (c.graph.find? "a").map (·.pipeline.targets) = some [] := by decide +kernel
    rintro id (_ | ⟨x, _ | ⟨y, rest⟩⟩) hchain hnull
    · simp [hconfig]
    · simp [hconfig]
    · obtain ⟨hx, hrest⟩ := List.isChain_cons_cons.1 hchain
      obtain ⟨-, node, hnode, hy⟩ := (List.isChain_cons_cons.1 hrest).1
      obtain rfl := hblank x (Graph.contains_iff_mem_ids.1 hx.1) (hnull x List.mem_cons_self)
      simp_all
  obtain ⟨-, -, hsame, hdeep⟩ := @recompute_eq_unlimited c context ⟨_, _, rfl⟩
    (fun name f hname => (hnone name f hname).elim) (by decide +kernel) (by decide +kernel) hfit
  intro entry hentry
  refine ⟨hsame entry hentry 64 (by decide +kernel), hdeep (fun name f hname => ?_) entry hentry⟩
  exact (hnone name f hname).elim

/-- A node that gives null is run again wherever it is looked up, which takes room even after it was
brought up to date. -/
theorem recompute_exceeds_depth_of_null :
    let context := Context.atTime DateTime.epoch
    let c := after { config := { maxDepth := 1 } } [.set "a" { pipeline := [.literal .null .null] },
      .set "b" { pipeline := [.connect "#a"], dependencies := ["a"] }]
    c.config = { maxDepth := 1 } ∧ c.graph.Covered ∧ c.graph.Cold ∧
      (c.recompute context).1.map (fun entry => (entry.1, entry.2.error?)) =
        [("a", none), ("b", some (.depthExceeded 1))] ∧
      (c.unlimited context "b").error? = none := by
  intro context c
  have hconfig : c.config = { maxDepth := 1 } := by simp [c, after, perform]
  refine ⟨hconfig, ?_⟩
  decide +kernel

end Calculator

end FormulaPipeline
