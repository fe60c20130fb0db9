import FormulaPipeline.Proofs.Graph.Cycle
import FormulaPipeline.Proofs.Graph.Dirtiness
import FormulaPipeline.Proofs.History
import FormulaPipeline.Workbook

/-!
# The order of a workbook's nodes

Nodes are defined one after another, and each definition is checked against those before it. Still
the order makes no difference: a workbook is refused for its sets, for a formula or for a cycle of
its nodes, and a graph that is not refused holds every node as its definition makes it.
-/

namespace FormulaPipeline

open Relation

/-! ## Sets -/

theorem mapM_eq_none_iff {α β : Type} {f : α → Option β} {items : List α} :
    items.mapM f = none ↔ ∃ a ∈ items, f a = none := by
  induction items with
  | nil => simp
  | cons a rest ih =>
    rw [List.mapM_cons]
    cases ha : f a with
    | none => simp [ha]
    | some b => cases hrest : rest.mapM f <;> simp_all

theorem DataSource.ofJsonMembers?_eq_none_iff {members : List (String × Json)} :
    ofJsonMembers? members = none ↔
      ∃ name j, (name, j) ∈ members ∧ RecordSet.ofJson? name j = none := by
  have hsets : ofJsonMembers? members = (members.mapM fun m =>
      (RecordSet.ofJson? m.1 m.2).map (m.1, ·)).map fun sets => ofSets (Keyed.ofList sets) := by
    rw [Option.map_eq_bind]
    rfl
  rw [hsets, Option.map_eq_none_iff, mapM_eq_none_iff]
  simp

/-! ## Nodes -/

theorem NodeDefinition.complete_eq_error_iff {d : NodeDefinition} {e : SyntaxError} :
    d.complete = .error e ↔
      d.pipeline = [] ∧ ∃ text, d.formula = some text ∧ Pipeline.ofFormula text = .error e := by
  rw [complete.eq_def]
  split
  · rename_i text hpipeline hformula
    cases htext : Pipeline.ofFormula text <;> simp [hpipeline, hformula, htext]
  · -- with a pipeline the formula is not looked at
    rename_i hnot
    constructor
    · intro h
      split at h <;> cases h
    · rintro ⟨hpipeline, text, hformula, -⟩
      exact (hnot text hpipeline hformula).elim

namespace WorkbookNode

/-- The node that a definition becomes when nothing is wrong with its formula. -/
def toNode? (n : WorkbookNode) : Option Node :=
  n.definition.complete.toOption.map (Node.ofDefinition n.id)

theorem toNode?_of_complete {n : WorkbookNode} {d : NodeDefinition}
    (h : n.definition.complete = .ok d) : n.toNode? = some (Node.ofDefinition n.id d) := by
  rw [toNode?, h]
  rfl

theorem toNode?_eq_none_iff {n : WorkbookNode} :
    n.toNode? = none ↔ (n.pipeline = none ∨ n.pipeline = some []) ∧
      ∃ text e, n.formula = some text ∧ Pipeline.ofFormula text = .error e := by
  have herror : n.toNode? = none ↔ ∃ e, n.definition.complete = .error e := by
    rw [toNode?]
    cases n.definition.complete <;> simp [Except.toOption]
  have hempty : n.definition.pipeline = [] ↔ n.pipeline = none ∨ n.pipeline = some [] := by
    rw [definition]
    cases n.pipeline <;> simp
  simp only [herror, NodeDefinition.complete_eq_error_iff, hempty, exists_and_left]
  rw [exists_comm]
  simp only [definition, exists_and_left]

end WorkbookNode

namespace Workbook

/-- A node lists a name, which may be that of a node or not. -/
def Names (nodes : List WorkbookNode) (a b : String) : Prop :=
  ∃ n ∈ nodes, n.id = a ∧ ∃ node, n.toNode? = some node ∧ b ∈ node.dependencies

/-- A node lists the name of a node. -/
def DependsOn (nodes : List WorkbookNode) (a b : String) : Prop :=
  Names nodes a b ∧ ∃ n ∈ nodes, n.id = b

end Workbook

/-- A graph holds the nodes of a workbook and no others, and none has been evaluated. -/
structure Graph.Holds (g : Graph) (nodes : List WorkbookNode) : Prop where
  found : ∀ n ∈ nodes, ∃ node, n.toNode? = some node ∧ g.find? n.id = some node
  named : ∀ id node, g.find? id = some node → ∃ n ∈ nodes, n.id = id ∧ n.toNode? = some node
  unevaluated : ∀ id node, g.find? id = some node →
    node.dirty = true ∧ node.outcome = .ok .null ∧ node.evaluated = false
  removed : g.removed = []

namespace Graph.Holds

variable {g h : Graph} {nodes others : List WorkbookNode}

theorem empty : Graph.empty.Holds [] where
  found := by simp
  named := by simp
  unevaluated := by simp
  removed := rfl

theorem find?_eq_some (hg : g.Holds nodes) (hh : h.Holds others) (hmem : nodes ⊆ others)
    {id : String} {node : Node} (hnode : g.find? id = some node) : h.find? id = some node := by
  obtain ⟨n, hn, rfl, hsome⟩ := hg.named id node hnode
  obtain ⟨other, hother, hfind⟩ := hh.found n (hmem hn)
  obtain rfl := Option.some.inj (hsome.symm.trans hother)
  exact hfind

/-- What a graph holds determines it, in whatever order the nodes are listed. -/
theorem unique (hg : g.Holds nodes) (hh : h.Holds others) (hperm : nodes.Perm others) : g = h := by
  refine eq_of_find? (fun id => Option.ext fun node => ?_) (hg.removed.trans hh.removed.symm)
  exact ⟨hg.find?_eq_some hh hperm.subset, hh.find?_eq_some hg hperm.symm.subset⟩

theorem names_iff (hg : g.Holds nodes) {a b : String} : Workbook.Names nodes a b ↔ g.Lists a b := by
  rw [Graph.lists_iff, Workbook.Names]
  constructor
  · rintro ⟨n, hn, rfl, node, hsome, hb⟩
    obtain ⟨other, hother, hfind⟩ := hg.found n hn
    obtain rfl := Option.some.inj (hsome.symm.trans hother)
    exact ⟨node, hfind, hb⟩
  · rintro ⟨node, hnode, hb⟩
    obtain ⟨n, hn, hid, hsome⟩ := hg.named a node hnode
    exact ⟨n, hn, hid, node, hsome, hb⟩

theorem define (hg : g.Holds nodes) {n : WorkbookNode} {d : NodeDefinition}
    (hnew : ∀ m ∈ nodes, m.id ≠ n.id) (hd : n.definition.complete = .ok d) :
    ((g.put n.id d).markDirty n.id).Holds (nodes ++ [n]) := by
  have hsome : n.toNode? = some (Node.ofDefinition n.id d) := WorkbookNode.toNode?_of_complete hd
  have hput : ∀ id node, (g.put n.id d).find? id = some node →
      n.id = id ∧ node = Node.ofDefinition n.id d ∨ g.find? id = some node := by
    intro id node hnode
    rw [find?_put] at hnode
    split at hnode
    · rename_i hid
      exact .inl ⟨hid, (Option.some.inj hnode).symm⟩
    · exact .inr hnode
  have hunevaluated : ∀ id node, (g.put n.id d).find? id = some node →
      node.dirty = true ∧ node.outcome = .ok .null ∧ node.evaluated = false := by
    intro id node hnode
    rcases hput id node hnode with ⟨-, rfl⟩ | hold
    · exact ⟨rfl, rfl, rfl⟩
    · exact hg.unevaluated id node hold
  rw [markDirty_of_dirty fun id node hnode => (hunevaluated id node hnode).1]
  refine ⟨?_, ?_, hunevaluated, ?_⟩
  · intro m hm
    rcases List.mem_append.1 hm with hm | hm
    · obtain ⟨node, hnode, hfind⟩ := hg.found m hm
      exact ⟨node, hnode, by rw [find?_put, if_neg (hnew m hm).symm, hfind]⟩
    · obtain rfl := List.mem_singleton.1 hm
      exact ⟨_, hsome, by rw [find?_put, if_pos rfl]⟩
  · intro id node hnode
    rcases hput id node hnode with ⟨rfl, rfl⟩ | hold
    · exact ⟨n, by simp, rfl, hsome⟩
    · obtain ⟨m, hm, hid⟩ := hg.named id node hold
      exact ⟨m, List.mem_append_left _ hm, hid⟩
  · rw [put, hg.removed]
    rfl

end Graph.Holds

/-! ## Loading -/

namespace Workbook

/-- The nodes cannot all be defined: one has no node to become, or they form a cycle. -/
def Faulty (nodes : List WorkbookNode) : Prop :=
  (∃ n ∈ nodes, n.toNode? = none) ∨ ∃ id, TransGen (Names nodes) id id

variable {nodes others : List WorkbookNode}

theorem Names.mono (hsubset : nodes ⊆ others) {a b : String} (h : Names nodes a b) :
    Names others a b := by
  obtain ⟨n, hn, h⟩ := h
  exact ⟨n, hsubset hn, h⟩

theorem Faulty.mono (hsubset : nodes ⊆ others) (h : Faulty nodes) : Faulty others := by
  rcases h with ⟨n, hn, hnone⟩ | ⟨id, hcycle⟩
  · exact .inl ⟨n, hsubset hn, hnone⟩
  · exact .inr ⟨id, TransGen.mono (fun _ _ h => h.mono hsubset) id id hcycle⟩

/-- A name that is no node lists nothing, so that a cycle runs through nodes alone. -/
theorem exists_cycle_iff :
    (∃ id, TransGen (Names nodes) id id) ↔ ∃ id, TransGen (DependsOn nodes) id id := by
  constructor
  · rintro ⟨a, hcycle⟩
    have hnodes : ∀ b, TransGen (Names nodes) a b → (∃ n ∈ nodes, n.id = b) →
        TransGen (DependsOn nodes) a b := by
      intro b hpath
      induction hpath with
      | single h => exact fun hb => .single ⟨h, hb⟩
      | tail _ h ih =>
        obtain ⟨n, hn, hid, -⟩ := id h
        exact fun hb => .tail (ih ⟨n, hn, hid⟩) ⟨h, hb⟩
    obtain ⟨-, ⟨n, hn, hid, -⟩, -⟩ := TransGen.head'_iff.1 hcycle
    exact ⟨a, hnodes a hcycle ⟨n, hn, hid⟩⟩
  · rintro ⟨id, hcycle⟩
    exact ⟨id, TransGen.mono (fun _ _ h => h.1) id id hcycle⟩

theorem not_faulty {g : Graph} (hg : g.Holds nodes) (hacyclic : g.Acyclic) : ¬Faulty nodes := by
  rintro (⟨n, hn, hnone⟩ | ⟨id, hcycle⟩)
  · obtain ⟨node, hsome, -⟩ := hg.found n hn
    rw [hnone] at hsome
    cases hsome
  · exact hacyclic id (TransGen.mono (fun _ _ h => hg.names_iff.1 h) id id hcycle)

section Define

variable {c : Calculator} {before : List WorkbookNode}

/-- A definition with a new id is kept, or else the nodes up to it are faulty. -/
theorem define_cases {n : WorkbookNode} (hholds : c.graph.Holds before)
    (hacyclic : c.graph.Acyclic) (hnew : ∀ m ∈ before, m.id ≠ n.id) :
    (∃ g, c.define n.id n.definition = .ok (c.withGraph g) ∧ g.Holds (before ++ [n]) ∧ g.Acyclic) ∨
      (∃ e, c.define n.id n.definition = .error e) ∧ Faulty (before ++ [n]) := by
  have hn : n ∈ before ++ [n] := by simp
  rw [Calculator.define]
  cases hd : n.definition.complete with
  | error e => exact .inr ⟨⟨_, rfl⟩, .inl ⟨n, hn, by rw [WorkbookNode.toNode?, hd]; rfl⟩⟩
  | ok d =>
    dsimp only
    cases hdefine : c.graph.define n.id d with
    | error cycle =>
      -- the path back uses nodes defined before, and the new node closes it
      obtain ⟨name, hname, hpath⟩ := Graph.exists_define_eq_error_iff.1 ⟨cycle, hdefine⟩
      have hfirst : Names (before ++ [n]) n.id name :=
        ⟨n, hn, rfl, _, WorkbookNode.toNode?_of_complete hd, hname⟩
      have hback : ReflTransGen (Names (before ++ [n])) name n.id :=
        ReflTransGen.mono
          (fun _ _ h => (hholds.names_iff.2 h).mono (List.subset_append_left _ _)) _ _ hpath
      exact .inr ⟨⟨_, rfl⟩, .inr ⟨n.id, .head' hfirst hback⟩⟩
    | ok g =>
      obtain ⟨hfree, rfl⟩ := Graph.define_eq_ok_iff.1 hdefine
      refine .inl ⟨_, rfl, hholds.define hnew hd, ?_⟩
      exact Graph.acyclic_of_pristine_eq (Graph.pristine_markDirty _ _).symm (hacyclic.put hfree)

theorem defineAll_cases (hholds : c.graph.Holds before) (hacyclic : c.graph.Acyclic)
    (hids : ((before ++ nodes).map (·.id)).Nodup) :
    (∃ g, defineAll c nodes = .ok (c.withGraph g) ∧ g.Holds (before ++ nodes) ∧ g.Acyclic) ∨
      (∃ e, defineAll c nodes = .error e) ∧ Faulty (before ++ nodes) := by
  induction nodes generalizing c before with
  | nil =>
    rw [List.append_nil]
    exact .inl ⟨c.graph, rfl, hholds, hacyclic⟩
  | cons n rest ih =>
    have hnew : ∀ m ∈ before, m.id ≠ n.id := by
      rw [List.map_append, List.map_cons] at hids
      intro m hm heq
      exact (List.disjoint_of_nodup_append hids) (List.mem_map_of_mem hm) (by simp [heq])
    rw [List.append_cons] at hids ⊢
    rw [defineAll]
    rcases define_cases hholds hacyclic hnew with ⟨g, hg, hholds, hacyclic⟩ | ⟨⟨e, he⟩, hfaulty⟩
    · rw [hg]
      exact @ih (c.withGraph g) (before ++ [n]) hholds hacyclic hids
    · rw [he]
      exact .inr ⟨⟨_, rfl⟩, hfaulty.mono (List.subset_append_left _ _)⟩

end Define

/-- A workbook with distinct ids is loaded with all of its nodes, or else a set is refused or the
nodes are faulty. -/
theorem toCalculator_cases (w : Workbook) (hids : (w.nodes.map (·.id)).Nodup) :
    (∃ source g, DataSource.ofJsonMembers? w.sets = some source ∧
        w.toCalculator = .ok { config := { source := some source }, memory := { graph := g } } ∧
        g.Holds w.nodes ∧ ¬Faulty w.nodes) ∨
      (∃ e, w.toCalculator = .error e) ∧
        (DataSource.ofJsonMembers? w.sets = none ∨ Faulty w.nodes) := by
  rw [toCalculator]
  cases hsource : DataSource.ofJsonMembers? w.sets with
  | none => exact .inr ⟨⟨_, rfl⟩, .inl rfl⟩
  | some source =>
    rcases @defineAll_cases w.nodes { config := { source := some source } } [] .empty
      Graph.acyclic_empty hids with ⟨g, hg, hholds, hacyclic⟩ | ⟨herror, hfaulty⟩
    · exact .inl ⟨source, g, rfl, hg, hholds, not_faulty hholds hacyclic⟩
    · exact .inr ⟨herror, .inr hfaulty⟩

theorem toCalculator_eq_error_iff (w : Workbook) (hids : (w.nodes.map (·.id)).Nodup) :
    (∃ e, w.toCalculator = .error e) ↔
      DataSource.ofJsonMembers? w.sets = none ∨ Faulty w.nodes := by
  rcases w.toCalculator_cases hids with ⟨source, g, hsource, hg, -, hsound⟩ | ⟨herror, hreason⟩
  · rw [hg, hsource]
    simp [hsound]
  · exact iff_of_true herror hreason

/-- With distinct ids the order of the nodes does not matter. Either both orders give one
calculator, whose graph holds the nodes with nothing evaluated, or both are refused. What is refused
has a set that is refused, a formula without a pipeline that does not compile, or nodes that depend
on each other in a cycle. -/
theorem toCalculator_perm (w : Workbook) (hids : (w.nodes.map (·.id)).Nodup)
    {nodes : List WorkbookNode} (hperm : nodes.Perm w.nodes) :
    let v : Workbook := { w with nodes := nodes }
    ((∃ c, w.toCalculator = .ok c ∧ v.toCalculator = .ok c ∧ c.graph.Holds w.nodes) ∨
        (∃ e, w.toCalculator = .error e) ∧ ∃ e, v.toCalculator = .error e) ∧
      ((∃ e, w.toCalculator = .error e) ↔
        (∃ name j, (name, j) ∈ w.sets ∧ RecordSet.ofJson? name j = none) ∨
        (∃ n ∈ w.nodes, (n.pipeline = none ∨ n.pipeline = some []) ∧
          ∃ text e, n.formula = some text ∧ Pipeline.ofFormula text = .error e) ∨
        ∃ id, TransGen (DependsOn w.nodes) id id) := by
  intro v
  have hv : (v.nodes.map (·.id)).Nodup := (hperm.map _).nodup_iff.2 hids
  have hfaulty : Faulty v.nodes ↔ Faulty w.nodes :=
    ⟨fun h => h.mono hperm.subset, fun h => h.mono hperm.symm.subset⟩
  have hsame : (∃ e, w.toCalculator = .error e) ↔ ∃ e, v.toCalculator = .error e := by
    rw [w.toCalculator_eq_error_iff hids, v.toCalculator_eq_error_iff hv, hfaulty]
  constructor
  · -- two graphs that hold the same nodes are the same
    by_cases herror : ∃ e, w.toCalculator = .error e
    · exact .inr ⟨herror, hsame.1 herror⟩
    · obtain ⟨source, g, hsource, hg, hholds, -⟩ :=
        (w.toCalculator_cases hids).resolve_right fun h => herror h.1
      obtain ⟨source', g', hsource', hg', hholds', -⟩ :=
        (v.toCalculator_cases hv).resolve_right fun h => herror (hsame.2 h.1)
      obtain rfl := Option.some.inj (hsource.symm.trans hsource')
      obtain rfl := hholds.unique hholds' hperm.symm
      exact .inl ⟨_, hg, hg', hholds⟩
  · rw [w.toCalculator_eq_error_iff hids]
    simp only [DataSource.ofJsonMembers?_eq_none_iff, Faulty, WorkbookNode.toNode?_eq_none_iff,
      exists_cycle_iff]

/-- A node that refers to a later one. That one refers to a name that is no node, and it has a
pipeline beside a formula that does not compile. -/
theorem toCalculator_perm_of_forward :
    let total : WorkbookNode := ⟨"total", some "Total", some "#part.COUNT() + 1", none⟩
    let part : WorkbookNode := ⟨"part", none, some "1 +", some [.connect "absent"]⟩
    let w : Workbook := ⟨[("Orders", .array [])], [total, part]⟩
    total.toNode?.map Node.dependencies = some ["part"] ∧
      part.toNode?.map Node.dependencies = some ["absent"] ∧
      ∃ c, w.toCalculator = .ok c ∧
        ({ w with nodes := [part, total] } : Workbook).toCalculator = .ok c ∧
        c.graph.Holds [total, part] := by
  intro total part w
  have hids : (w.nodes.map (·.id)).Nodup := by decide
  have hok : w.toCalculator.toOption.isSome = true := by decide +kernel
  refine ⟨by decide +kernel, by decide +kernel, ?_⟩
  refine (w.toCalculator_perm hids (.swap total part [])).1.resolve_right fun h => ?_
  obtain ⟨e, he⟩ := h.1
  simp [he, Except.toOption] at hok

end Workbook

end FormulaPipeline
