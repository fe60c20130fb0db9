import FormulaPipeline.Number.Binary64
import FormulaPipeline.Number.Integer
import FormulaPipeline.Number.Numeral
import FormulaPipeline.Number.Decimal
import FormulaPipeline.Text.Casing
import FormulaPipeline.Text.Quoted
import FormulaPipeline.Json.Reader
import FormulaPipeline.Json.Writer
import FormulaPipeline.Value.Coercion
import FormulaPipeline.Formula.Parser
import FormulaPipeline.Pipeline.Document
import FormulaPipeline.Evaluation.Arithmetic
import FormulaPipeline.Evaluation.Reduction
import FormulaPipeline.Calendar.DateTime
import FormulaPipeline.Calendar.Reader
import FormulaPipeline.Calendar.Template
import FormulaPipeline.Function.Catalog
import FormulaPipeline.Source.DataSource
import FormulaPipeline.Graph.Basic
import FormulaPipeline.Evaluation.Evaluate
import FormulaPipeline.Workbook
import FormulaPipeline.Report
import FormulaPipeline.CommandLine
import FormulaPipeline.Main
import FormulaPipeline.Proofs.Graph.Closure
import FormulaPipeline.Proofs.Graph.Lookup
import FormulaPipeline.Proofs.Graph.Dependence
import FormulaPipeline.Proofs.Graph.Cycle
import FormulaPipeline.Proofs.Evaluation.Lockstep
import FormulaPipeline.Proofs.Evaluation.Frame
import FormulaPipeline.Proofs.Acyclicity
import FormulaPipeline.Proofs.Evaluation.Meaning
import FormulaPipeline.Proofs.Evaluation.Coherence
import FormulaPipeline.Proofs.Incremental
import FormulaPipeline.Proofs.Evaluation.Asked
import FormulaPipeline.Proofs.Extraction
import FormulaPipeline.Proofs.Formula.Grammar
import FormulaPipeline.Proofs.Formula.Lexemes
import FormulaPipeline.Proofs.Formula.Reading
import FormulaPipeline.Proofs.Formula.Arguments
import FormulaPipeline.Proofs.Formula.Parsing
import FormulaPipeline.Proofs.Evaluation.Interpret
import FormulaPipeline.Proofs.Boundedness
import FormulaPipeline.Proofs.Persistence
import FormulaPipeline.Proofs.Recomputation
import FormulaPipeline.Proofs.Graph.Dirtiness
import FormulaPipeline.Proofs.Dirtiness
import FormulaPipeline.Proofs.Number.Magnitude
import FormulaPipeline.Proofs.Value.Stability
import FormulaPipeline.Proofs.Pipeline.Stability
import FormulaPipeline.Proofs.Value.Finite
import FormulaPipeline.Proofs.Evaluation.Finite
import FormulaPipeline.Proofs.Evaluation.Executed
import FormulaPipeline.Proofs.Finiteness
import FormulaPipeline.Proofs.Evaluation.Access
import FormulaPipeline.Proofs.Noninterference
import FormulaPipeline.Proofs.Ordering
import FormulaPipeline.Proofs.Json.Shown
import FormulaPipeline.Proofs.Printing
import FormulaPipeline.Proofs.Normalization
import FormulaPipeline.Proofs.Loading
import FormulaPipeline.Proofs.Invalidation
import FormulaPipeline.Proofs.Footprint
import FormulaPipeline.Proofs.Formula.Scanning
import FormulaPipeline.Proofs.Lexing
import FormulaPipeline.Proofs.Tracing
import FormulaPipeline.Proofs.References
import FormulaPipeline.Proofs.Number.Whole
import FormulaPipeline.Proofs.Exactness
import FormulaPipeline.Proofs.Spelling
import FormulaPipeline.Proofs.Formula.Ending
import FormulaPipeline.Proofs.Formula.Diagnosis
import FormulaPipeline.Proofs.Formula.Resuming
import FormulaPipeline.Proofs.Diagnosis
import FormulaPipeline.Proofs.Comparison
import FormulaPipeline.Proofs.Totals
import FormulaPipeline.Proofs.Underflow
import FormulaPipeline.Proofs.Number.Rounded
import FormulaPipeline.Proofs.Rounding
import FormulaPipeline.Proofs.Value.Numerals
import FormulaPipeline.Proofs.Equality
import FormulaPipeline.Proofs.Evaluation.Callees
import FormulaPipeline.Proofs.Evaluation.Frozen
import FormulaPipeline.Proofs.Registration
import FormulaPipeline.Proofs.Dates
import FormulaPipeline.Proofs.Distinctness
import FormulaPipeline.Proofs.Formula.Folding
import FormulaPipeline.Proofs.Formula.Recasing
import FormulaPipeline.Proofs.Pipeline.Folding
import FormulaPipeline.Proofs.Evaluation.Folding
import FormulaPipeline.Proofs.CaseInsensitivity
