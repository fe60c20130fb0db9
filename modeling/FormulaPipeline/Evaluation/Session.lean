import FormulaPipeline.Evaluation.Config
import FormulaPipeline.Graph.Basic

/-!
# The state of evaluations

An engine remembers its graph and how often each host function was called. One evaluation call adds
the outcomes of the nodes that it has evaluated, the warnings that it has raised and a log of the
nodes that it has entered.
-/

namespace FormulaPipeline

/-- What outlives an evaluation call. -/
structure Memory where
  graph : Graph := Graph.empty
  /-- The number of calls of each host function, by its registered name. -/
  calls : List (String × Nat) := []

namespace Memory

def empty : Memory := {}

def callCount (m : Memory) (name : String) : Nat :=
  (Keyed.find? (Text.asciiUpper name) m.calls).getD 0

/-- Count a call. -/
def called (m : Memory) (name : String) : Memory :=
  { m with calls := Keyed.insert (Text.asciiUpper name) (m.callCount name + 1) m.calls }

/-- Start to count anew, for a function that has just been registered. -/
def resetCalls (m : Memory) (name : String) : Memory :=
  { m with calls := Keyed.erase (Text.asciiUpper name) m.calls }

end Memory

/-- The state within one evaluation call. -/
structure Session where
  memory : Memory
  /-- The outcomes of the nodes that were evaluated in this call. -/
  outcomes : List (String × Outcome) := []
  /-- Warnings in the order in which they were raised. -/
  warnings : List String := []
  /-- The nodes that were entered in this call, the latest first, each as the chain of nodes that
  were being evaluated, from the outermost one to itself. Bounds on a call are bounds on this
  log. -/
  entered : List (List String) := []

namespace Session

def start (m : Memory) : Session := { memory := m }

def graph (s : Session) : Graph := s.memory.graph

def outcome? (s : Session) (id : String) : Option Outcome := Keyed.find? id s.outcomes

def warn (s : Session) (text : String) : Session := { s with warnings := s.warnings ++ [text] }

def enter (s : Session) (chain : List String) : Session := { s with entered := chain :: s.entered }

/-- The warnings that were raised after the first `count`. -/
def warningsFrom (s : Session) (count : Nat) : List String := s.warnings.drop count

/-- Keep the outcome of a node for the rest of the call and in the graph. -/
def finish (s : Session) (id : String) (outcome : Outcome) : Session :=
  { s with
    memory := { s.memory with graph := s.graph.store id outcome }
    outcomes := Keyed.insert id outcome s.outcomes }

def called (s : Session) (name : String) : Session := { s with memory := s.memory.called name }

end Session

end FormulaPipeline
