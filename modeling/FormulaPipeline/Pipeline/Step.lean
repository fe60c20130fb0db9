import FormulaPipeline.Formula.Condition

/-!
# Pipelines

A pipeline is a list of steps that thread one running value. Operands and arguments are pipelines of
their own. A stored step that could not be read is kept with its document and the reason.
-/

namespace FormulaPipeline

inductive Step where
  | connect (source : String)
  | segment (condition : Condition)
  | designate (property : String)
  | synthesize (mode : Aggregation) (property separator : Option String)
  | literal (value : Value) (type : LiteralType)
  | arithmetic (op : BinaryOp) (left right : List Step)
  | call (name : String) (args : List (List Step))
  | default (value : Value)
  | malformed (raw : Json) (reason : String)
  deriving Inhabited

abbrev Pipeline := List Step

namespace Step

mutual

protected def beq : Step → Step → Bool
  | .connect a, .connect b => a == b
  | .segment a, .segment b => a == b
  | .designate a, .designate b => a == b
  | .synthesize m p s, .synthesize n q t => decide (m = n) && p == q && s == t
  | .literal v t, .literal w u => v == w && decide (t = u)
  | .arithmetic o l r, .arithmetic p m s => decide (o = p) && beqSteps l m && beqSteps r s
  | .call n as, .call m bs => n == m && beqPipelines as bs
  | .default v, .default w => v == w
  | .malformed j r, .malformed k s => j == k && r == s
  | _, _ => false

def beqSteps : List Step → List Step → Bool
  | [], [] => true
  | a :: as, b :: bs => Step.beq a b && beqSteps as bs
  | _, _ => false

def beqPipelines : List (List Step) → List (List Step) → Bool
  | [], [] => true
  | a :: as, b :: bs => beqSteps a b && beqPipelines as bs
  | _, _ => false

end

instance : BEq Step := ⟨Step.beq⟩

/-- The name of the operator in traces; an unreadable step has the one that its document names. -/
def operator : Step → String
  | .connect _ => "CONNECT"
  | .segment _ => "SEGMENT"
  | .designate _ => "DESIGNATE"
  | .synthesize .. => "SYNTHESIZE"
  | .literal .. => "ALTER"
  | .arithmetic .. => "ALTER"
  | .call .. => "ALTER"
  | .default _ => "NULL"
  | .malformed raw _ => ((raw.member? "operator").bind Json.string?).getD "UNKNOWN"

/-! ## Descriptions -/

def describeProperty : Option String → String
  | some p => " of " ++ p
  | none => ""

def describeSeparator : Option String → String
  | some s => " separated by " ++ (Value.text s).compact
  | none => ""

mutual

/-- The step on one line. -/
def describe : Step → String
  | .connect source => "CONNECT " ++ source
  | .segment condition => "SEGMENT where " ++ condition.describe
  | .designate property => "DESIGNATE " ++ property
  | .synthesize mode property separator =>
    "SYNTHESIZE " ++ mode.word ++ describeProperty property ++ describeSeparator separator
  | .literal value _ => "ALTER literal " ++ value.compact
  | .arithmetic op left right =>
    "ALTER [" ++ Text.join " | " (describeSteps left) ++ "] " ++ op.symbol ++ " [" ++
      Text.join " | " (describeSteps right) ++ "]"
  | .call name args => "ALTER " ++ name ++ "(" ++ Text.join ", " (describeArgs args) ++ ")"
  | .default value => "NULL default " ++ value.compact
  | .malformed raw reason =>
    "MALFORMED " ++ (Step.malformed raw reason).operator ++ " (" ++ reason ++ ")"

def describeSteps : List Step → List String
  | [] => []
  | step :: rest => describe step :: describeSteps rest

def describeArgs : List (List Step) → List String
  | [] => []
  | p :: rest => ("[" ++ Text.join " | " (describeSteps p) ++ "]") :: describeArgs rest

end

end Step

namespace Pipeline

/-- The steps on one line, with bars between them. -/
def describe (p : Pipeline) : String := Text.join " | " (Step.describeSteps p)

/-- The steps, numbered, each on a line of its own. -/
def outline (p : Pipeline) : List String :=
  (Step.describeSteps p).zipIdx.map fun (line, i) => toString (i + 1) ++ ". " ++ line

end Pipeline

end FormulaPipeline
