import FormulaPipeline.Graph.Basic
import FormulaPipeline.Proofs.Keyed

/-!
# What a graph holds

What is found in a graph after each change, and the pristine form of a graph: the same definitions
and the same removed ids, with nothing cached. All that evaluations change lies outside of it.
-/

namespace FormulaPipeline

/-- The node as it was defined, without an outcome. -/
def Node.reset (n : Node) : Node :=
  { n with outcome := .ok .null, dirty := true, evaluated := false }

namespace Graph

theorem contains_iff {g : Graph} {id : String} :
    g.contains id = true ↔ ∃ node, g.find? id = some node :=
  Option.isSome_iff_exists

theorem isSome_find? (g : Graph) (id : String) : (g.find? id).isSome = g.contains id := rfl

theorem find?_eq_none_iff {g : Graph} {id : String} :
    g.find? id = none ↔ g.contains id = false := by
  rw [← isSome_find?, Option.isSome_eq_false_iff, Option.isNone_iff_eq_none]

theorem contains_iff_mem_ids {g : Graph} {id : String} : g.contains id = true ↔ id ∈ g.ids :=
  Keyed.contains_iff_mem_keys

theorem eq_of_find? {g h : Graph} (hfind : ∀ id, g.find? id = h.find? id)
    (hremoved : g.removed = h.removed) : g = h := by
  obtain ⟨nodes, removed, hnodes⟩ := g
  obtain ⟨others, _, hothers⟩ := h
  obtain rfl : nodes = others := hnodes.eq_of_find? hothers hfind
  obtain rfl := hremoved
  rfl

@[simp] theorem find?_empty (id : String) : empty.find? id = none := rfl

@[simp] theorem wasRemoved_empty (id : String) : empty.wasRemoved id = false := rfl

/-! ## Changes in place -/

@[simp] theorem find?_mapNodes (g : Graph) (f : String → Node → Node) (id : String) :
    (g.mapNodes f).find? id = (g.find? id).map (f id) :=
  Keyed.find?_mapValues id f g.nodes

@[simp] theorem contains_mapNodes (g : Graph) (f : String → Node → Node) (id : String) :
    (g.mapNodes f).contains id = g.contains id := by
  simp [← isSome_find?]

@[simp] theorem ids_mapNodes (g : Graph) (f : String → Node → Node) :
    (g.mapNodes f).ids = g.ids := by
  simp [mapNodes, ids, Keyed.keys]

@[simp] theorem size_mapNodes (g : Graph) (f : String → Node → Node) :
    (g.mapNodes f).size = g.size := by
  simp [mapNodes, size]

theorem mapNodes_mapNodes (g : Graph) (f h : String → Node → Node) :
    (g.mapNodes f).mapNodes h = g.mapNodes fun id node => h id (f id node) := by
  simp [mapNodes, Function.comp_def]

theorem mapNodes_congr {g : Graph} {f h : String → Node → Node}
    (heq : ∀ id node, f id node = h id node) : g.mapNodes f = g.mapNodes h := by
  have hfun : f = h := funext fun id => funext (heq id)
  rw [hfun]

/-! ## The pristine graph -/

/-- The graph with the same definitions and the same removed ids, in which nothing is cached and
every node is dirty. -/
def pristine (g : Graph) : Graph := g.mapNodes fun _ node => node.reset

@[simp] theorem find?_pristine (g : Graph) (id : String) :
    g.pristine.find? id = (g.find? id).map Node.reset :=
  find?_mapNodes g _ id

@[simp] theorem contains_pristine (g : Graph) (id : String) :
    g.pristine.contains id = g.contains id :=
  contains_mapNodes g _ id

@[simp] theorem wasRemoved_pristine (g : Graph) (id : String) :
    g.pristine.wasRemoved id = g.wasRemoved id := rfl

@[simp] theorem dependenciesOf_pristine (g : Graph) :
    g.pristine.dependenciesOf = g.dependenciesOf := by
  funext id
  simp only [dependenciesOf, find?_pristine]
  cases g.find? id <;> rfl

/-- A change in place that keeps definitions keeps the pristine graph. -/
theorem pristine_mapNodes {g : Graph} {f : String → Node → Node}
    (hf : ∀ id node, (f id node).reset = node.reset) : (g.mapNodes f).pristine = g.pristine := by
  rw [pristine, mapNodes_mapNodes]
  exact mapNodes_congr hf

@[simp] theorem pristine_pristine (g : Graph) : g.pristine.pristine = g.pristine :=
  pristine_mapNodes fun _ _ => rfl

@[simp] theorem pristine_markDirty (g : Graph) (id : String) :
    (g.markDirty id).pristine = g.pristine := by
  refine pristine_mapNodes fun id node => ?_
  split <;> rfl

@[simp] theorem pristine_clear (g : Graph) : g.clear.pristine = g.pristine :=
  pristine_mapNodes fun _ _ => rfl

@[simp] theorem pristine_store (g : Graph) (id : String) (outcome : Outcome) :
    (g.store id outcome).pristine = g.pristine := by
  refine pristine_mapNodes fun key node => ?_
  split <;> rfl

section SameDefinitions

variable {g h : Graph} (heq : g.pristine = h.pristine)
include heq

theorem contains_of_pristine_eq (id : String) : g.contains id = h.contains id := by
  rw [← contains_pristine g, heq, contains_pristine]

theorem ids_of_pristine_eq : g.ids = h.ids := by
  rw [← ids_mapNodes g fun _ node => node.reset, ← pristine, heq, pristine, ids_mapNodes]

theorem wasRemoved_of_pristine_eq (id : String) : g.wasRemoved id = h.wasRemoved id := by
  rw [← wasRemoved_pristine g, heq, wasRemoved_pristine]

theorem dependenciesOf_of_pristine_eq : g.dependenciesOf = h.dependenciesOf := by
  rw [← dependenciesOf_pristine g, heq, dependenciesOf_pristine]

/-- Graphs with the same pristine form have nodes under the same ids, made from the same
definitions. -/
theorem exists_of_pristine_eq {id : String} {node : Node} (hnode : g.find? id = some node) :
    ∃ other, h.find? id = some other ∧ other.reset = node.reset := by
  have hfind : (h.find? id).map Node.reset = some node.reset := by
    rw [← find?_pristine, ← heq, find?_pristine, hnode]
    rfl
  simpa [Option.map_eq_some_iff] using hfind

end SameDefinitions

/-! ## Definitions and removals -/

theorem find?_markDirty (g : Graph) (id x : String) :
    (g.markDirty id).find? x = (g.find? x).map fun node =>
      if (g.affected id).contains x then { node with dirty := true } else node :=
  find?_mapNodes g _ x

theorem sorted_insert (g : Graph) (id : String) (d : NodeDefinition) :
    Keyed.Sorted (Keyed.insert id (Node.ofDefinition id d) g.nodes) :=
  g.sorted.insert id _

theorem sorted_erase (g : Graph) (id : String) : Keyed.Sorted (Keyed.erase id g.nodes) :=
  g.sorted.erase id

/-- The graph with a definition in its place, before anything is made dirty. -/
def put (g : Graph) (id : String) (d : NodeDefinition) : Graph where
  nodes := Keyed.insert id (Node.ofDefinition id d) g.nodes
  removed := g.removed.filter (· != id)
  sorted := g.sorted_insert id d

/-- The graph without a node, before anything is made dirty. -/
def drop (g : Graph) (id : String) : Graph where
  nodes := Keyed.erase id g.nodes
  removed := id :: g.removed
  sorted := g.sorted_erase id

theorem find?_put (g : Graph) (id x : String) (d : NodeDefinition) :
    (g.put id d).find? x = if id = x then some (Node.ofDefinition id d) else g.find? x :=
  Keyed.find?_insert x id _ g.nodes

theorem find?_drop (g : Graph) (id x : String) :
    (g.drop id).find? x = if id = x then none else g.find? x :=
  Keyed.find?_erase x id g.nodes

theorem wasRemoved_put (g : Graph) (id x : String) (d : NodeDefinition) :
    (g.put id d).wasRemoved x = if id = x then false else g.wasRemoved x := by
  by_cases h : id = x
  · simp [wasRemoved, put, h]
  · simp [wasRemoved, put, h, show x ≠ id from fun e => h e.symm]

theorem wasRemoved_drop (g : Graph) (id x : String) :
    (g.drop id).wasRemoved x = if id = x then true else g.wasRemoved x := by
  by_cases h : id = x
  · simp [wasRemoved, drop, h]
  · simp [wasRemoved, drop, h, show x ≠ id from fun e => h e.symm]

theorem define_eq (g : Graph) (id : String) (d : NodeDefinition) :
    g.define id d = match g.cycle? id d.dependencies with
      | some cycle => .error cycle
      | none => .ok ((g.put id d).markDirty id) := rfl

theorem remove_eq (g : Graph) (id : String) :
    g.remove id = if g.contains id then (g.drop id).markDirty id else g := rfl

end Graph

end FormulaPipeline
