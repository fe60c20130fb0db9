import FormulaPipeline.Manual
import FormulaPipeline.Report
import FormulaPipeline.Workbook

/-!
# The command line

A command is a function of its arguments, the standard input, the files it may read and the clock.
-/

namespace FormulaPipeline

namespace CommandLine

/-- What a command leaves behind. -/
structure Response where
  code : Nat
  stdout : String
  stderr : String
  deriving DecidableEq, Repr

/-- What a command may look at. -/
structure World where
  stdin : String
  file? : String → Option String
  now : DateTime

/-- Why a command fails. -/
inductive Failure where
  | usage
  | missingFile
  | workbook (error : WorkbookError)
  | unreadableRecord
  | unknownTopic (name : String)
  | evaluation (error : EvalError)
  deriving DecidableEq

def Failure.message : Failure → String
  | usage => "Usage: pipeform <COMMAND>"
  | missingFile => "IO error: No such file or directory (os error 2)"
  | workbook .unreadable => "Invalid JSON"
  | workbook (.invalidNode id error) => "Invalid node " ++ id ++ ": " ++ error.message
  | unreadableRecord => "Invalid JSON"
  | unknownTopic name =>
    "Unknown category: '" ++ name ++ "'\nRun 'pipeform docs' to see available categories."
  | evaluation error => "Evaluation error: " ++ error.message

def Failure.code : Failure → Nat
  | usage => 2
  | _ => 1

def success (text : String) : Response := ⟨0, text, ""⟩

def failure (f : Failure) : Response := ⟨f.code, "", f.message ++ "\n"⟩

/-! ## Arguments -/

/-- The arguments of a command after its name. -/
structure Arguments where
  positional : List String := []
  pretty : Bool := false
  trace : Bool := false
  record : Option String := none
  workbook : Option String := none

/-- A value that is attached to an option, without the equals sign between them. -/
def attached (value : List Char) : String :=
  String.ofList (if value.head? = some '=' then value.drop 1 else value)

/-- Set an option that takes a value. -/
def setValue (name : Char) (value : String) (a : Arguments) : Arguments :=
  if name = 'r' then { a with record := some value } else { a with workbook := some value }

/-- Short options in one argument. An option that takes a value takes the rest of the argument, and
if nothing is left it is named for the next argument. -/
def shortOptions : List Char → Arguments → Option (Arguments × Option Char)
  | [], a => some (a, none)
  | c :: rest, a =>
    if c = 'p' then shortOptions rest { a with pretty := true }
    else if c = 't' then shortOptions rest { a with trace := true }
    else if c = 'r' ∨ c = 'w' then
      if rest.isEmpty then some (a, some c) else some (setValue c (attached rest) a, none)
    else none

/-- A long option. One that takes a value has it after an equals sign, or is named for the next
argument. -/
def longOption (text : List Char) (a : Arguments) : Option (Arguments × Option Char) :=
  let name := String.ofList (text.takeWhile (· != '='))
  let value := text.dropWhile (· != '=')
  if name = "pretty" ∧ value.isEmpty then some ({ a with pretty := true }, none)
  else if name = "trace" ∧ value.isEmpty then some ({ a with trace := true }, none)
  else
    let short := if name = "record" then some 'r' else if name = "workbook" then some 'w' else none
    short.map fun c => if value.isEmpty then (a, some c) else (setValue c (attached value) a, none)

/-- Read arguments from left to right; `pending` is an option that waits for its value. -/
def readArguments : Option Char → List String → Arguments → Option Arguments
  | none, [], a => some a
  | some _, [], _ => none
  | some c, value :: rest, a => readArguments none rest (setValue c value a)
  | none, text :: rest, a =>
    match text.toList with
    | ['-', '-'] => some { a with positional := a.positional ++ rest }
    | '-' :: '-' :: name =>
      (longOption name a).bind fun (a, pending) => readArguments pending rest a
    | '-' :: c :: name =>
      (shortOptions (c :: name) a).bind fun (a, pending) => readArguments pending rest a
    | _ => readArguments none rest { a with positional := a.positional ++ [text] }

/-! ## Commands -/

def jsonLine (pretty : Bool) (j : Json) : String := Json.toText Json.document pretty j ++ "\n"

def loadWorkbook (world : World) (path : String) : Except Failure Calculator :=
  match world.file? path with
  | none => .error .missingFile
  | some text => (Workbook.load text).mapError .workbook

/-- The record of an evaluation, from its option or else from a standard input that is not blank. -/
def recordText (world : World) (a : Arguments) : Option String :=
  match a.record with
  | some text => some text
  | none => if (Text.trim world.stdin.toList).isEmpty then none else some world.stdin

def readRecord : Option String → Except Failure (Option Record)
  | none => .ok none
  | some text =>
    match Json.read? text with
    | some j => .ok (some (Record.ofJson j))
    | none => .error .unreadableRecord

/-- One evaluation against a record. The workbook is loaded before the record is read. -/
def evaluate (world : World) (formula : String) (record workbook : Option String) :
    Except Failure Evaluation := do
  let calculator ← match workbook with
    | some path => loadWorkbook world path
    | none => .ok {}
  let record ← readRecord record
  let context := (Context.atTime world.now).withRecord record
  return (calculator.evaluateFormula context formula).1

def evaluateCommand (world : World) (formula : String) (a : Arguments) : Response :=
  match evaluate world formula (recordText world a) a.workbook with
  | .error f => failure f
  | .ok e =>
    let steps := if a.trace then e.describeSteps else ""
    let report := jsonLine a.pretty (Report.evaluation e false)
    match e.outcome with
    | .ok _ => ⟨0, report, steps⟩
    | .error error => ⟨1, report, steps ++ (Failure.evaluation error).message ++ "\n"⟩

/-- Every node of a workbook, in dependency order. -/
def recompute (world : World) (path : String) : Except Failure (List (String × Evaluation)) := do
  let calculator ← loadWorkbook world path
  return (calculator.recompute (Context.atTime world.now)).1

def recomputeCommand (world : World) (path : String) (a : Arguments) : Response :=
  match recompute world path with
  | .error f => failure f
  | .ok results =>
    let reports := results.map fun (id, e) => (id, Report.evaluation e false)
    success (jsonLine a.pretty (Json.ofMembers reports))

def manualCommand (name : String) : Response :=
  match Topic.ofName? name with
  | some topic => success (Manual.page topic)
  | none => failure (.unknownTopic name)

/-- A command by its name. -/
def dispatch (world : World) (command : String) (a : Arguments) : Response :=
  match command, a.positional with
  | "parse", [formula] => success (jsonLine a.pretty (Report.compilation formula))
  | "eval", [formula] => evaluateCommand world formula a
  | "inspect", [formula] => success (Manual.ofLines (Report.inspection formula))
  | "run", [path] => recomputeCommand world path a
  | "docs", [] => success Manual.overview
  | "doc", [name] => manualCommand name
  | _, _ => failure .usage

/-- The file that a command reads. -/
def filePath? : List String → Option String
  | "run" :: rest => (readArguments none rest {}).bind (·.positional.head?)
  | "eval" :: rest => (readArguments none rest {}).bind (·.workbook)
  | _ => none

/-- Whether a command reads the standard input. -/
def readsInput : List String → Bool
  | "eval" :: rest => (readArguments none rest {}).any (·.record.isNone)
  | _ => false

def versionText : String := "pipeform 0.1.0\n"

/-- Run a command. -/
def respond (world : World) : List String → Response
  | [] => failure .usage
  | command :: rest =>
    if command = "--version" ∨ command = "-V" then success versionText
    else match readArguments none rest {} with
      | some a => dispatch world command a
      | none => failure .usage

end CommandLine

end FormulaPipeline
