import FormulaPipeline.Json.Basic
import FormulaPipeline.Text.Quoted

/-!
# Faults of stored steps

Why a document is not a step, in the words that a malformed step keeps as its reason.
-/

namespace FormulaPipeline

/-- Why a document is not a step. -/
inductive StepFault where
  | missingField (name : String)
  | unknownVariant (found : String) (known : List String)
  | invalidType (found : Json) (wanted : String)
  | invalidValue (found : Json) (wanted : String)
  | invalidLength (length : Nat) (wanted : String)

namespace StepFault

def ticked (s : String) : String := "`" ++ s ++ "`"

def describeFound : Json → String
  | .null => "null"
  | .bool b => "boolean " ++ ticked (toString b)
  | .int n => "integer " ++ ticked (toString n)
  | .float x => "floating point " ++ ticked (String.ofList x.toDocumentChars)
  | .string s => "string " ++ Text.quoted s
  | .array _ => "sequence"
  | .object _ => "map"

def message : StepFault → String
  | missingField name => "missing field " ++ ticked name
  | unknownVariant found known =>
    "unknown variant " ++ ticked found ++ ", expected one of " ++ Text.join ", " (known.map ticked)
  | invalidType found wanted => "invalid type: " ++ describeFound found ++ ", expected " ++ wanted
  | invalidValue found wanted => "invalid value: " ++ describeFound found ++ ", expected " ++ wanted
  | invalidLength length wanted =>
    "invalid length " ++ toString length ++ ", expected " ++ wanted

end StepFault

end FormulaPipeline
