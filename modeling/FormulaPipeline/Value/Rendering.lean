import FormulaPipeline.Value.Printer

/-!
# Values as text

Concatenation and comparison of texts use `toText`, in which a scalar has a text of its own.
-/

namespace FormulaPipeline.Value

/-- A scalar by its own text, and other values as JSON. -/
def asString : Value → String
  | .text s => s
  | .float x => x.toText
  | .int n => toString n.toInt
  | .bool b => toString b
  | .null => "null"
  | v => v.compact

mutual

/-- Null is the empty text, and the entries of an array stand between commas. -/
def toText : Value → String
  | .null => ""
  | .array items => Text.join ", " (toTexts items)
  | v => v.asString

def toTexts : List Value → List String
  | [] => []
  | v :: rest => toText v :: toTexts rest

end

end FormulaPipeline.Value
