import FormulaPipeline.Json.Reader
import FormulaPipeline.Json.Writer
import FormulaPipeline.Pipeline.Compile
import FormulaPipeline.Pipeline.Fields

/-!
# Stored pipelines

A pipeline is stored as an array of steps. A step is an object with its operator under `operator`,
or an array whose first item is the operator and whose other items are the fields in the order of
their declaration. An operator `ALTER` is followed by its kind in the same way. A step that cannot
be read becomes a malformed step, and the rest of the pipeline is kept.
-/

namespace FormulaPipeline

namespace Step

/-! ## Readers of steps -/

def operators : List String :=
  ["CONNECT", "SEGMENT", "DESIGNATE", "SYNTHESIZE", "ALTER", "NULL", "MALFORMED"]

def kinds : List String := ["literal", "arithmetic", "function"]

def readLiteral (fields : Fields) : Except StepFault Step :=
  let value := fields.read 0 "value" readValue
  let type := fields.read 1 "dataType" (readVariant LiteralType.all LiteralType.word)
  fields.finish "struct variant Alter::Literal"
    [Fields.reading "value" false value, Fields.reading "dataType" false type] do
    return .literal (← fieldOf value) (← fieldOf type)

def readArithmetic (fields : Fields) : Except StepFault Step :=
  let op := fields.read 0 "op" (readVariant BinaryOp.all BinaryOp.word)
  let left := fields.read 1 "left" readPipeline
  let right := fields.read 2 "right" readPipeline
  fields.finish "struct variant Alter::Arithmetic"
    [Fields.reading "op" false op, Fields.reading "left" false left,
      Fields.reading "right" false right] do
    return .arithmetic (← fieldOf op) (← fieldOf left) (← fieldOf right)

def readCall (fields : Fields) : Except StepFault Step :=
  let name := fields.read 0 "name" readText
  let args := fields.read 1 "args" fun part => part.pipelines ()
  fields.finish "struct variant Alter::Function"
    [Fields.reading "name" false name, Fields.reading "args" true args] do
    return .call (← fieldOf name) ((fieldOf args).getD [])

/-- The kind of an `ALTER` step, by its word or by its number. -/
def readKind (part : Part) : Except StepFault String :=
  match part.json with
  | .string s => readWord kinds id s
  | .int n =>
    if n < 0 then .error (.invalidType (.int n) "variant identifier")
    else match kinds[n.toNat]? with
      | some kind => .ok kind
      | none => .error (.invalidValue (.int n) "variant index 0 <= i < 3")
  | j => .error (.invalidType j "variant identifier")

def readAlter (fields : Fields) : Except StepFault Step :=
  match fields.tag? "kind" with
  | none => .error (.missingField "kind")
  | some (tag, fields) => do
    match ← readKind tag with
    | "literal" => readLiteral fields
    | "arithmetic" => readArithmetic fields
    | _ => readCall fields

def readConnect (fields : Fields) : Except StepFault Step :=
  let source := fields.read 0 "source" readText
  fields.finish "struct variant Step::Connect" [Fields.reading "source" false source] do
    return .connect (← fieldOf source)

def readSegment (fields : Fields) : Except StepFault Step :=
  let condition := fields.read 0 "condition" readCondition
  fields.finish "struct variant Step::Segment" [Fields.reading "condition" false condition] do
    return .segment (← fieldOf condition)

def readDesignate (fields : Fields) : Except StepFault Step :=
  let property := fields.read 0 "property" readText
  fields.finish "struct variant Step::Designate" [Fields.reading "property" false property] do
    return .designate (← fieldOf property)

def readSynthesize (fields : Fields) : Except StepFault Step :=
  let mode := fields.read 0 "mode" (readVariant Aggregation.all Aggregation.word)
  let property := fields.read 1 "property" readOptionalText
  let separator := fields.read 2 "separator" readOptionalText
  fields.finish "struct variant Step::Synthesize"
    [Fields.reading "mode" false mode, Fields.reading "property" true property,
      Fields.reading "separator" true separator] do
    return .synthesize (← fieldOf mode) (fieldOf property).join (fieldOf separator).join

def readDefault (fields : Fields) : Except StepFault Step :=
  let value := fields.read 0 "default" readValue
  fields.finish "struct variant Step::Null" [Fields.reading "default" true value]
    (some (.default ((fieldOf value).getD .null)))

def readMalformed (fields : Fields) : Except StepFault Step :=
  let raw := fields.read 0 "raw" fun part => .ok part.json
  let reason := fields.read 1 "reason" readText
  fields.finish "struct variant Step::Malformed"
    [Fields.reading "raw" false raw, Fields.reading "reason" false reason] do
    return .malformed (← fieldOf raw) (← fieldOf reason)

def readFields (fields : Fields) : Except StepFault Step :=
  match fields.tag? "operator" with
  | none => .error (.missingField "operator")
  | some (tag, fields) =>
    match tag.json with
    | .string "CONNECT" => readConnect fields
    | .string "SEGMENT" => readSegment fields
    | .string "DESIGNATE" => readDesignate fields
    | .string "SYNTHESIZE" => readSynthesize fields
    | .string "ALTER" => readAlter fields
    | .string "NULL" => readDefault fields
    | .string "MALFORMED" => readMalformed fields
    | .string s => .error (.unknownVariant s operators)
    | j => .error (.invalidType j "variant identifier")

/-- A step that was read, or the malformed step that stands for the document. -/
def orMalformed (raw : Json) : Except StepFault Step → Step
  | .ok step => step
  | .error fault => .malformed raw fault.message

mutual

/-- The step that a document stores. -/
def ofJson : Json → Step
  | .object members => orMalformed (.object members) (readFields (.named (namedParts members)))
  | .array items => orMalformed (.array items) (readFields (.listed (listedParts items)))
  | j => .malformed j (StepFault.invalidType j "internally tagged enum Step").message

def namedParts : List (String × Json) → List (String × Part)
  | [] => []
  | (k, j) :: rest => (k, ⟨j, fun _ => pipelineOf? j, fun _ => pipelinesOf j⟩) :: namedParts rest

def listedParts : List Json → List Part
  | [] => []
  | j :: rest => ⟨j, fun _ => pipelineOf? j, fun _ => pipelinesOf j⟩ :: listedParts rest

/-- The pipeline that an array stores. -/
def pipelineOf? : Json → Option (List Step)
  | .array items => some (ofJsonItems items)
  | _ => none

def ofJsonItems : List Json → List Step
  | [] => []
  | j :: rest => ofJson j :: ofJsonItems rest

/-- The list of pipelines that an array of arrays stores. -/
def pipelinesOf : Json → Except StepFault (List (List Step))
  | .array items => pipelinesOfItems items
  | j => .error (.invalidType j "a sequence")

def pipelinesOfItems : List Json → Except StepFault (List (List Step))
  | [] => .ok []
  | j :: rest =>
    match pipelineOf? j with
    | some p => (pipelinesOfItems rest).map (p :: ·)
    | none => .error (.invalidType j "a sequence")

end

/-! ## Writers -/

def textMember (name : String) : Option String → List (String × Json)
  | some s => [(name, .string s)]
  | none => []

def conditionJson (c : Condition) : Json :=
  .object [("field", .string c.field), ("op", .string c.test.word), ("value", c.value.toJson)]

mutual

/-- The document of a step, the operator first and then its fields in the order of their
declaration. -/
def toJson : Step → Json
  | .connect source => .object [("operator", .string "CONNECT"), ("source", .string source)]
  | .segment condition =>
    .object [("operator", .string "SEGMENT"), ("condition", conditionJson condition)]
  | .designate property =>
    .object [("operator", .string "DESIGNATE"), ("property", .string property)]
  | .synthesize mode property separator =>
    .object ([("operator", .string "SYNTHESIZE"), ("mode", .string mode.word)] ++
      textMember "property" property ++ textMember "separator" separator)
  | .literal value type =>
    .object [("operator", .string "ALTER"), ("kind", .string "literal"), ("value", value.toJson),
      ("dataType", .string type.word)]
  | .arithmetic op left right =>
    .object [("operator", .string "ALTER"), ("kind", .string "arithmetic"), ("op", .string op.word),
      ("left", .array (toJsonSteps left)), ("right", .array (toJsonSteps right))]
  | .call name args =>
    .object [("operator", .string "ALTER"), ("kind", .string "function"), ("name", .string name),
      ("args", .array (toJsonArgs args))]
  | .default value => .object [("operator", .string "NULL"), ("default", value.toJson)]
  | .malformed raw reason =>
    .object [("operator", .string "MALFORMED"), ("raw", raw), ("reason", .string reason)]

def toJsonSteps : List Step → List Json
  | [] => []
  | step :: rest => toJson step :: toJsonSteps rest

def toJsonArgs : List (List Step) → List Json
  | [] => []
  | p :: rest => .array (toJsonSteps p) :: toJsonArgs rest

end

end Step

namespace Pipeline

/-- The pipeline that a document stores; only an array stores one. -/
def ofJson? (j : Json) : Option Pipeline := Step.pipelineOf? j

/-- The document of a pipeline as it is written. -/
def written (p : Pipeline) : Json := .array (Step.toJsonSteps p)

/-- The document of a pipeline, the fields of its steps in key order. -/
def toJson (p : Pipeline) : Json := p.written.canonical

/-- The pipeline that a JSON text stores. -/
def read? (text : String) : Option Pipeline := (Json.read? text).bind ofJson?

/-- The stored text of a pipeline. -/
def write (p : Pipeline) : String := Json.toText Json.document false p.written

end Pipeline

end FormulaPipeline
