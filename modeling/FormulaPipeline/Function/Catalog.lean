import FormulaPipeline.Function.Choice
import FormulaPipeline.Function.Collection
import FormulaPipeline.Function.Date
import FormulaPipeline.Function.Number
import FormulaPipeline.Function.Text

/-!
# The functions of the language

The catalog of builtin functions, and the registry of functions that a host adds. Names are found in
any case of their ASCII letters, and a function of the host hides a builtin one of the same name.
-/

namespace FormulaPipeline

namespace Builtin

/-- A function that sees nothing but its arguments. -/
def plain (f : List Value → Outcome) : Builtin := fun args _ => f args

def catalog : List (String × Builtin) :=
  [("CONCATENATE", plain concatenate),
    ("CONCAT", plain concatenate),
    ("LEFT", plain left),
    ("RIGHT", plain right),
    ("MID", plain middle),
    ("LEN", plain length),
    ("LOWER", plain lower),
    ("UPPER", plain upper),
    ("TRIM", plain trim),
    ("SUM", plain sum),
    ("AVERAGE", plain average),
    ("AVG", plain average),
    ("MAX", plain greatest),
    ("MIN", plain least),
    ("COUNT", plain numberCount),
    ("ABS", plain magnitude),
    ("ROUND", plain round),
    ("FLOOR", plain floor),
    ("CEIL", plain ceiling),
    ("CEILING", plain ceiling),
    ("SQRT", plain squareRoot),
    ("POWER", plain power),
    ("IF", plain choose),
    ("AND", plain conjunction),
    ("OR", plain disjunction),
    ("NOT", plain negation),
    ("SWITCH", plain switch),
    ("NOW", now),
    ("TODAY", today),
    ("YEAR", plain year),
    ("MONTH", plain month),
    ("DAY", plain day),
    ("DATETIME_FORMAT", plain formatDate),
    ("DATETIME_PARSE", plain parseDate),
    ("ARRAYUNIQUE", plain unique),
    ("ARRAYCOMPACT", plain compact),
    ("ARRAYJOIN", plain join),
    ("COALESCE", plain coalesce),
    ("BLANK", plain blank),
    ("ERROR", plain fail),
    ("RECORD_ID", recordId)]

/-- The builtin function with a name. -/
def ofName? (name : String) : Option Builtin :=
  (catalog.find? fun entry => entry.1 == Text.asciiUpper name).map (·.2)

theorem mem_catalog_of_ofName? {name : String} {f : Builtin} (h : ofName? name = some f) :
    (Text.asciiUpper name, f) ∈ catalog := by
  obtain ⟨entry, hentry, rfl⟩ := Option.map_eq_some_iff.1 h
  have hname : entry.1 = Text.asciiUpper name := by simpa using List.find?_some hentry
  rw [← hname]
  exact List.mem_of_find?_eq_some hentry

/-- All names, in the order of the catalog. -/
def names : List String := catalog.map (·.1)

end Builtin

/-- A function of the host. It may keep a count of its calls, so it is given the number of calls
before this one. -/
structure HostFunction where
  run : Nat → List Value → CallContext → Outcome

/-- The functions of a host under their names in upper case. -/
structure Registry where
  functions : List (String × HostFunction) := []

namespace Registry

def empty : Registry := ⟨[]⟩

/-- Add a function, in place of an earlier one with the same name. -/
def register (r : Registry) (name : String) (f : HostFunction) : Registry :=
  ⟨Keyed.insert (Text.asciiUpper name) f r.functions⟩

def get? (r : Registry) (name : String) : Option HostFunction :=
  Keyed.find? (Text.asciiUpper name) r.functions

def contains (r : Registry) (name : String) : Bool := (r.get? name).isSome

def size (r : Registry) : Nat := r.functions.length

def isEmpty (r : Registry) : Bool := r.functions.isEmpty

/-- The registered names, in order. -/
def names (r : Registry) : List String := Keyed.keys r.functions

end Registry

end FormulaPipeline
