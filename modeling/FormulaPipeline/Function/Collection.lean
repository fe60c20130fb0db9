import FormulaPipeline.Function.Argument

/-!
# Functions on collections and records
-/

namespace FormulaPipeline.Builtin

open Argument

/-- The values that equal neither an earlier one nor one that was seen before, in order. -/
def distinct (seen : List Value) : List Value → List Value
  | [] => []
  | v :: rest => if seen.contains v then distinct seen rest else v :: distinct (v :: seen) rest

/-- The first occurrence of each value among the arguments and their entries. -/
def unique (args : List Value) : Outcome := .ok (.array (distinct [] (flatten args)))

/-- The values that are not empty. -/
def compact (args : List Value) : Outcome :=
  .ok (.array ((flatten args).filter fun v => !v.isEmpty))

/-- The texts of the entries of the first argument, with a separator between each two. -/
def join (args : List Value) : Outcome :=
  let parts := (flatten (args.take 1)).filter fun v => !v.isNull
  .ok (.text (Text.join (text args 1 ", ") (parts.map Value.toText)))

def idValue : Option String → Value
  | some id => .text id
  | none => .null

/-- The id of a record or an object, and of the current record when neither is given. -/
def recordId (args : List Value) (context : CallContext) : Outcome :=
  match nth args 0 with
  | .record id _ => .ok (idValue id)
  | .object members => .ok (idValue ((Keyed.find? "id" members).map Value.toText))
  | _ => .ok (idValue (context.record.bind Record.id))

end FormulaPipeline.Builtin
