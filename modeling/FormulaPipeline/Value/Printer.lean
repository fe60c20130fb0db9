import FormulaPipeline.Text.Class
import FormulaPipeline.Value.Document

/-!
# Printing values

Messages and descriptions show a value as JSON, on one line or indented by two spaces. A whole float
has no point, control characters are written by their codes, keys stand in order, and a record shows
its id and its fields.
-/

namespace FormulaPipeline.Value

/-- Only five escapes have names. -/
def escape (c : Char) : List Char :=
  if c = '"' then ['\\', '"']
  else if c = '\\' then ['\\', '\\']
  else if c = '\n' then ['\\', 'n']
  else if c = '\r' then ['\\', 'r']
  else if c = '\t' then ['\\', 't']
  else if Text.isControl c then '\\' :: 'u' :: Json.hex4 c.toNat
  else [c]

def quote (s : String) : String := "\"" ++ String.ofList (s.toList.flatMap escape) ++ "\""

def indent (level : Nat) : String := String.ofList (List.replicate (2 * level) ' ')

/-- Printed parts in their brackets, on lines of their own when the layout is indented. -/
def enclose (pretty : Bool) (level : Nat) (opening closing : String) : List String → String
  | [] => opening ++ closing
  | parts =>
    if pretty then
      opening ++ "\n" ++ Text.join ",\n" (parts.map (indent (level + 1) ++ ·)) ++ "\n" ++
        indent level ++ closing
    else opening ++ Text.join "," parts ++ closing

/-- Printed entries in key order. -/
def printEntries (pretty : Bool) (level : Nat) (entries : List (String × String)) : String :=
  enclose pretty level "\x7b" "\x7d" ((Keyed.ofList entries).map fun (key, printed) =>
    quote key ++ (if pretty then ": " else ":") ++ printed)

mutual

/-- The text of a value that stands at an indentation level. -/
def print (pretty : Bool) (level : Nat) : Value → String
  | .null => "null"
  | .bool b => toString b
  | .int n => toString n.toInt
  | .float x => if x.isFinite then x.toText else "null"
  | .text s => quote s
  | .array items => enclose pretty level "[" "]" (printItems pretty (level + 1) items)
  | .object members => printEntries pretty level (printMembers pretty (level + 1) members)
  | .record id fields =>
    let values := printEntries pretty (level + 1) (printMembers pretty (level + 2) fields)
    match id with
    | some id => printEntries pretty level [("id", quote id), ("values", values)]
    | none => printEntries pretty level [("values", values)]

def printItems (pretty : Bool) (level : Nat) : List Value → List String
  | [] => []
  | v :: rest => print pretty level v :: printItems pretty level rest

def printMembers (pretty : Bool) (level : Nat) : List (String × Value) → List (String × String)
  | [] => []
  | (k, v) :: rest => (k, print pretty level v) :: printMembers pretty level rest

end

/-- The value as JSON on one line. -/
def compact (v : Value) : String := print false 0 v

/-- The value as indented JSON. -/
def pretty (v : Value) : String := print true 0 v

end FormulaPipeline.Value
