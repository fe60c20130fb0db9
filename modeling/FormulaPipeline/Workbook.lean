import FormulaPipeline.Calculator

/-!
# Workbooks

A workbook is one document with sets of records and definitions of nodes. Reading it is strict: a
known field must have its type and may be given only once.
-/

namespace FormulaPipeline

/-- A node of a workbook. -/
structure WorkbookNode where
  id : String
  label : Option String
  formula : Option String
  pipeline : Option Pipeline

structure Workbook where
  /-- The documents of the sets, in name order. -/
  sets : List (String × Json)
  nodes : List WorkbookNode

/-- Why a workbook is refused. -/
inductive WorkbookError where
  | unreadable
  | invalidNode (id : String) (error : DefineError)
  deriving DecidableEq

/-! ## Reading -/

namespace WorkbookNode

def pipeline? : Json → Option (Option Pipeline)
  | .null => some none
  | j => (Pipeline.ofJson? j.canonical).map some

/-- A node from the documents of its fields, of which only the id is required. -/
def ofFields? (id label formula pipeline : Option Json) : Option WorkbookNode := do
  let id ← id.bind Json.string?
  let label ← NodeDefinition.fieldD NodeDefinition.optionalText? none label
  let formula ← NodeDefinition.fieldD NodeDefinition.optionalText? none formula
  let pipeline ← NodeDefinition.fieldD pipeline? none pipeline
  return ⟨id, label, formula, pipeline⟩

def definition (n : WorkbookNode) : NodeDefinition :=
  { label := n.label, formula := n.formula, pipeline := n.pipeline.getD [] }

end WorkbookNode

namespace Workbook

/-- Whether none of the names is given twice. -/
def eachOnce (names : List String) (members : List (String × Json)) : Bool :=
  names.all fun name => (members.filter (·.1 == name)).length ≤ 1

def nodeOfJson? : Json → Option WorkbookNode
  | .object members =>
    if eachOnce ["id", "label", "formula", "pipeline"] members then
      WorkbookNode.ofFields? (Keyed.find? "id" members) (Keyed.find? "label" members)
        (Keyed.find? "formula" members) (Keyed.find? "pipeline" members)
    else none
  | .array items =>
    if 4 < items.length then none
    else WorkbookNode.ofFields? items[0]? items[1]? items[2]? items[3]?
  | _ => none

def setsOfJson? (j : Json) : Option (List (String × Json)) :=
  match j.canonical with
  | .object members => some members
  | _ => none

def nodesOfJson? : Json → Option (List WorkbookNode)
  | .array items => items.mapM nodeOfJson?
  | _ => none

def ofFields? (sets nodes : Option Json) : Option Workbook := do
  let sets ← NodeDefinition.fieldD setsOfJson? [] sets
  let nodes ← NodeDefinition.fieldD nodesOfJson? [] nodes
  return ⟨sets, nodes⟩

/-- A workbook is an object with some of its fields, or an array of the first of them. -/
def ofJson? : Json → Option Workbook
  | .object members =>
    if eachOnce ["sets", "nodes"] members then
      ofFields? (Keyed.find? "sets" members) (Keyed.find? "nodes" members)
    else none
  | .array items => if 2 < items.length then none else ofFields? items[0]? items[1]?
  | _ => none

def read? (text : String) : Option Workbook := (Json.readWritten? text).bind ofJson?

/-! ## Loading -/

/-- Define nodes one after another. -/
def defineAll (c : Calculator) : List WorkbookNode → Except WorkbookError Calculator
  | [] => .ok c
  | n :: rest =>
    match c.define n.id n.definition with
    | .ok c => defineAll c rest
    | .error e => .error (.invalidNode n.id e)

/-- A calculator over the sets with every node defined. -/
def toCalculator (w : Workbook) : Except WorkbookError Calculator :=
  match DataSource.ofJsonMembers? w.sets with
  | none => .error .unreadable
  | some source => defineAll { config := { source := some source } } w.nodes

/-- The calculator of a workbook text. -/
def load (text : String) : Except WorkbookError Calculator :=
  match read? text with
  | none => .error .unreadable
  | some w => w.toCalculator

end Workbook

end FormulaPipeline
