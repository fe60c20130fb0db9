import FormulaPipeline.Function.Catalog
import FormulaPipeline.Source.DataSource

/-!
# What an evaluation is given

The configuration belongs to an engine and the context to a single call.
-/

namespace FormulaPipeline

/-- Host functions, data, and the limits of evaluations. -/
structure Config where
  functions : Registry := Registry.empty
  source : Option DataSource := none
  /-- What stands between texts when a step names no separator. -/
  separator : String := ", "
  /-- The number of nodes that may be evaluated inside each other. -/
  maxDepth : Nat := 64

/-- The running value that every pipeline starts from, the record and the set that field references
read, and the reading of the clock. -/
structure Context where
  value : Value
  record : Option Record
  set : Option RecordSet
  now : DateTime

namespace Context

/-- The context without data. -/
def atTime (now : DateTime) : Context := ⟨.null, none, none, now⟩

def withRecord (c : Context) (record : Option Record) : Context :=
  { c with record := record.or c.record }

end Context

/-- What stays the same during one evaluation. -/
structure Environment where
  config : Config
  context : Context

end FormulaPipeline
