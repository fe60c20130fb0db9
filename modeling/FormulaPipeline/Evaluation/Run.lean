import FormulaPipeline.Evaluation.Arithmetic
import FormulaPipeline.Evaluation.Reduction
import FormulaPipeline.Evaluation.Session

/-!
# Running pipelines

A pipeline starts from the running value of the context and hands the result of each step to the
next. Operands and arguments run in the same way, without a trace. The first error ends the run.
-/

namespace FormulaPipeline

/-! ## Steps on values -/

/-- The entries that pass, or a single value if it passes. -/
def Condition.filter (c : Condition) : Value → Value
  | .null => .null
  | .array items => .array (items.filter c.accepts)
  | v => if c.accepts v then v else .null

/-- The value of a field of the current record: stored under the name, under the id of the declared
field with that name, or under the name of the declared field with that id. -/
def Context.readField? (c : Context) (record : Record) (name : String) : Option Value :=
  let byName := (c.set.bind (·.fieldNamed? name)).bind fun field => record.get? field.id
  let byId := (c.set.bind (·.fieldWithId? name)).bind fun field => record.get? field.name
  (record.get? name).or (byName.or byId)

def Context.readRecord (c : Context) (name : String) : Outcome :=
  match c.record with
  | none => .error (.unresolvedReference (name ++ " (no current record)"))
  | some record =>
    match c.readField? record name with
    | some v => .ok v
    | none => .error (.unresolvedReference name)

/-- A property of a record or of each entry of an array; for any other value, of the current
record. -/
def Context.designate (c : Context) (property : String) : Value → Outcome
  | .array items => .ok (.array (items.map (Value.fieldD property)))
  | v => if v.isRecordLike then .ok (v.fieldD property) else c.readRecord property

/-! ## Steps on the session -/

/-- An action of a session that gives a result or an error. -/
abbrev Action (α : Type) := Session → Except EvalError α × Session

/-- How the value of a node is found. -/
abbrev Visit := String → Action Value

namespace Environment

variable (env : Environment)

/-- What the data source knows under a name: a set, or records that the current record links to. -/
def fromSource? (name : String) : Option Value :=
  match env.config.source with
  | none => none
  | some source =>
    match source.set? name with
    | some set => some set.toValue
    | none =>
      (env.context.record.bind fun record => source.linked? record name).map
        fun records => .array (records.map Record.toValue)

/-- The value of a source that is no node. A name that nothing resolves stands for no records. -/
def connectData (name : String) : Action Value := fun s =>
  match env.fromSource? name with
  | some v => (.ok v, s)
  | none =>
    if s.graph.wasRemoved name then (.error (.nodeNotFound name), s)
    else (.ok (.array []), s.warn (EvalError.unresolvedReference name).message)

/-- The value of a source. A name after a mark is the id of a node. -/
def connect (visit : Visit) (source : String) : Action Value := fun s =>
  match source.toList with
  | '#' :: id => visit (String.ofList id) s
  | _ => if s.graph.contains source then visit source s else env.connectData source s

/-- Call a function of the host or of the language. -/
def call (name : String) (args : List Value) : Action Value := fun s =>
  let context : CallContext := ⟨env.context.record, env.context.now⟩
  match env.config.functions.get? name with
  | some f => (f.run (s.memory.callCount name) args context, s.called name)
  | none =>
    match Builtin.ofName? name with
    | some f => (f args context, s)
    | none => (.error (.unknownFunction name), s)

mutual

/-- The result of one step on the running value. -/
def apply (visit : Visit) : Step → Value → Action Value
  | .connect source, _, s => env.connect visit source s
  | .segment condition, input, s => (.ok (condition.filter input), s)
  | .designate property, input, s => (env.context.designate property input, s)
  | .synthesize mode property separator, input, s =>
    (.ok (mode.apply property (separator.getD env.config.separator) input), s)
  | .literal value _, _, s => (.ok value, s)
  | .arithmetic op left right, _, s =>
    match run visit left env.context.value s with
    | (.error e, s) => (.error e, s)
    | (.ok a, s) =>
      match run visit right env.context.value s with
      | (.error e, s) => (.error e, s)
      | (.ok b, s) => (op.apply a b, s)
  | .call name args, _, s =>
    match runAll visit args s with
    | (.error e, s) => (.error e, s)
    | (.ok values, s) => env.call name values s
  | .default value, input, s => (.ok (if input.isEmpty then value else input), s)
  | .malformed _ reason, _, s => (.error (.malformedStep reason), s)

/-- The result of steps, each on the result of the one before. -/
def run (visit : Visit) : List Step → Value → Action Value
  | [], input, s => (.ok input, s)
  | step :: rest, input, s =>
    match apply visit step input s with
    | (.error e, s) => (.error e, s)
    | (.ok output, s) => run visit rest output s

/-- The results of pipelines, each from the running value of the context. -/
def runAll (visit : Visit) : List (List Step) → Action (List Value)
  | [], s => (.ok [], s)
  | p :: rest, s =>
    match run visit p env.context.value s with
    | (.error e, s) => (.error e, s)
    | (.ok v, s) =>
      match runAll visit rest s with
      | (.error e, s) => (.error e, s)
      | (.ok values, s) => (.ok (v :: values), s)

end

end Environment

end FormulaPipeline
