import FormulaPipeline.Json.Basic

/-!
# Writing JSON text

One layout, compact or indented by two spaces, under a convention for numbers and escapes.
-/

namespace FormulaPipeline.Json

/-- How floats and the characters of strings are written. -/
structure Convention where
  float : Binary64 → List Char
  escape : Char → List Char

def hex4 (n : Nat) : List Char :=
  let digits := Nat.toDigits 16 n
  List.replicate (4 - digits.length) '0' ++ digits

def writeString (k : Convention) (s : String) : List Char :=
  '"' :: s.toList.flatMap k.escape ++ ['"']

/-- Documents keep the point of a whole float and use the short escapes. -/
def document : Convention where
  float := Binary64.toDocumentChars
  escape c :=
    if c = '"' then ['\\', '"']
    else if c = '\\' then ['\\', '\\']
    else if c = '\n' then ['\\', 'n']
    else if c = '\r' then ['\\', 'r']
    else if c = '\t' then ['\\', 't']
    else if c.toNat = 8 then ['\\', 'b']
    else if c.toNat = 12 then ['\\', 'f']
    else if c.toNat < 32 then '\\' :: 'u' :: hex4 c.toNat
    else [c]

/-- Line breaks with the given indentation, or nothing in the compact layout. -/
def lineBreak (pretty : Bool) (level : Nat) : List Char :=
  if pretty then '\n' :: List.replicate (2 * level) ' ' else []

def colon (pretty : Bool) : List Char := if pretty then [':', ' '] else [':']

mutual

/-- The text of a value that stands at an indentation level. -/
def write (k : Convention) (pretty : Bool) (level : Nat) : Json → List Char
  | .null => "null".toList
  | .bool b => if b then "true".toList else "false".toList
  | .int n => (toString n).toList
  | .float x => k.float x
  | .string s => writeString k s
  | .array [] => ['[', ']']
  | .array (j :: rest) =>
    '[' :: lineBreak pretty (level + 1) ++ write k pretty (level + 1) j ++
      writeItems k pretty (level + 1) rest ++ lineBreak pretty level ++ [']']
  | .object [] => ['\x7b', '\x7d']
  | .object ((name, j) :: rest) =>
    '\x7b' :: lineBreak pretty (level + 1) ++ writeString k name ++ colon pretty ++
      write k pretty (level + 1) j ++ writeMembers k pretty (level + 1) rest ++
      lineBreak pretty level ++ ['\x7d']

/-- The items after the first, each after a comma. -/
def writeItems (k : Convention) (pretty : Bool) (level : Nat) : List Json → List Char
  | [] => []
  | j :: rest =>
    ',' :: lineBreak pretty level ++ write k pretty level j ++ writeItems k pretty level rest

/-- The members after the first, each after a comma. -/
def writeMembers (k : Convention) (pretty : Bool) (level : Nat) : List (String × Json) → List Char
  | [] => []
  | (name, j) :: rest =>
    ',' :: lineBreak pretty level ++ writeString k name ++ colon pretty ++
      write k pretty level j ++ writeMembers k pretty level rest

end

def toText (k : Convention) (pretty : Bool) (j : Json) : String :=
  String.ofList (write k pretty 0 j)

end FormulaPipeline.Json
