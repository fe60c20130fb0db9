import FormulaPipeline.Graph.Closure
import FormulaPipeline.Graph.Node
import FormulaPipeline.Graph.Schedule
import FormulaPipeline.Graph.Search

/-!
# Dependency graphs

Nodes by id, in id order. A definition that would make a node depend on itself is refused, and a
change of a node makes everything that depends on it dirty.
-/

namespace FormulaPipeline

structure Graph where
  nodes : List (String × Node) := []
  /-- Ids that were removed and have not been defined since. -/
  removed : List String := []
  sorted : Keyed.Sorted nodes := by exact Keyed.sorted_nil

/-- A chain of dependencies from an id to itself. -/
structure Cycle where
  path : List String
  deriving DecidableEq, Repr

def Cycle.message (c : Cycle) : String := (EvalError.cyclicDependency c.path).message

namespace Graph

def empty : Graph := {}

/-! ## Queries -/

def find? (g : Graph) (id : String) : Option Node := Keyed.find? id g.nodes

def contains (g : Graph) (id : String) : Bool := Keyed.contains id g.nodes

def wasRemoved (g : Graph) (id : String) : Bool := g.removed.contains id

def ids (g : Graph) : List String := Keyed.keys g.nodes

def size (g : Graph) : Nat := g.nodes.length

/-- The names that a node lists; an id that is no node lists none. -/
def dependenciesOf (g : Graph) (id : String) : List String :=
  match g.find? id with
  | some node => node.dependencies
  | none => []

/-- The ids of the nodes that list an id. -/
def dependents (g : Graph) (id : String) : List String :=
  (g.nodes.filter fun entry => entry.2.dependsOn id).map (·.1)

/-! ## Cycles -/

/-- Look for an id along the dependencies of the nodes, from the names that a definition of it
lists. What a node of that id lists so far is not looked at. -/
def search (g : Graph) (depth : Nat) (id : String) (names : List String) : Bool × Search :=
  Search.tryEach (Search.reaches g.dependenciesOf id depth) names { path := [id] }

/-- The cycle that a node with the given dependencies would close. A search goes on from every node
at most once, so there is room for it. -/
def cycle? (g : Graph) (id : String) (dependencies : List String) : Option Cycle :=
  match g.search g.size id dependencies with
  | (true, s) => some ⟨s.path⟩
  | (false, _) => none

/-! ## Changes -/

def mapNodes (g : Graph) (f : String → Node → Node) : Graph :=
  { g with
    nodes := g.nodes.map fun (id, node) => (id, f id node)
    sorted := g.sorted.mapValues f }

/-- Everything that depends on an id, itself included. -/
def affected (g : Graph) (id : String) : List String :=
  Closure.reach g.dependents (g.size + 1) [id]

/-- Make a node and everything that depends on it dirty. -/
def markDirty (g : Graph) (id : String) : Graph :=
  let stale := g.affected id
  g.mapNodes fun id node => if stale.contains id then { node with dirty := true } else node

/-- Define a node or replace it as a whole. A definition that would close a cycle is refused. -/
def define (g : Graph) (id : String) (d : NodeDefinition) : Except Cycle Graph :=
  match g.cycle? id d.dependencies with
  | some cycle => .error cycle
  | none =>
    .ok (markDirty
      { nodes := Keyed.insert id (Node.ofDefinition id d) g.nodes
        removed := g.removed.filter (· != id)
        sorted := g.sorted.insert id _ } id)

/-- Remove a node alone. Its dependents are dirty afterwards. -/
def remove (g : Graph) (id : String) : Graph :=
  if g.contains id then
    markDirty
      { nodes := Keyed.erase id g.nodes
        removed := id :: g.removed
        sorted := g.sorted.erase id } id
  else g

/-- Forget all outcomes. -/
def clear (g : Graph) : Graph :=
  g.mapNodes fun _ node => { node with dirty := true, outcome := .ok .null }

/-- Keep the outcome of an evaluation. -/
def store (g : Graph) (id : String) (outcome : Outcome) : Graph :=
  g.mapNodes fun key node =>
    if key = id then { node with outcome := outcome, dirty := false, evaluated := true } else node

/-! ## Order -/

/-- Every node waits for the nodes that it lists. Names that are no nodes are not waited for. -/
def schedule (g : Graph) : Schedule :=
  let pending := g.nodes.map fun (id, node) =>
    (id, Keyed.sortNames (node.dependencies.filter g.contains))
  { pending := pending
    ready := Keyed.keys (pending.filter fun (_, names) => names.isEmpty) }

/-- All ids, each after its dependencies and otherwise in id order. -/
def topologicalOrder (g : Graph) : List String := g.schedule.run g.size

end Graph

end FormulaPipeline
