import FormulaPipeline.Formula.Operator
import FormulaPipeline.Formula.Token
import FormulaPipeline.Text.Quoted

/-!
# Errors of evaluations

Every failure of an evaluation, by its cause, with its message and the coarse kind that is reported.
-/

namespace FormulaPipeline

/-- Why operands have the wrong types. -/
inductive TypeFault where
  | operand (op : BinaryOp) (type : String)
  deriving DecidableEq

def TypeFault.message : TypeFault → String
  | operand op type => "Cannot apply '" ++ op.symbol ++ "' to " ++ type

/-- Why an argument or a pair of operands is refused. -/
inductive ArgumentFault where
  | notNumber (function type : String)
  | notInteger (function type : String)
  | negativeCount (function : String)
  | negativeRoot
  | tooFew (count : Nat)
  | outOfRange (x : Binary64) (op : BinaryOp) (y : Binary64)
  | infinitePower (base exponent : Binary64)
  deriving DecidableEq

def ArgumentFault.message : ArgumentFault → String
  | notNumber function type => function ++ "() expects a number, got " ++ type
  | notInteger function type => function ++ "() expects an integer, got " ++ type
  | negativeCount function => function ++ "() count must not be negative"
  | negativeRoot => "SQRT() of a negative number"
  | tooFew count => "IF() expects at least 2 arguments, got " ++ toString count
  | outOfRange x op y => x.toText ++ " " ++ op.symbol ++ " " ++ y.toText ++ " is out of range"
  | infinitePower base exponent =>
    base.toText ++ " ^ " ++ exponent.toText ++ " is not a finite number"

inductive EvalError where
  | invalidFormula (error : SyntaxError)
  | unresolvedReference (name : String)
  | divisionByZero
  | typeMismatch (fault : TypeFault)
  | unknownFunction (name : String)
  | invalidArgument (fault : ArgumentFault)
  | invalidDate (text : String)
  | raised (message : String)
  | malformedStep (reason : String)
  | nodeNotFound (id : String)
  | cyclicDependency (path : List String)
  | depthExceeded (limit : Nat)
  deriving DecidableEq

/-- Ids along a path. -/
def arrowed (path : List String) : String := Text.join " -> " path

namespace EvalError

def message : EvalError → String
  | invalidFormula e => "Syntax error: " ++ e.describe
  | unresolvedReference name => "Unresolved reference: " ++ name
  | divisionByZero => "Division by zero"
  | typeMismatch fault => "Type error: " ++ fault.message
  | unknownFunction name => "Unknown function: " ++ name
  | invalidArgument fault => "Invalid argument: " ++ fault.message
  | invalidDate text => "Invalid date: " ++ Text.quoted text
  | raised message => message
  | malformedStep reason => "Malformed step: " ++ reason
  | nodeNotFound id => "Node not found: " ++ id
  | cyclicDependency path => "Cyclic dependency: " ++ arrowed path
  | depthExceeded limit => "Node nesting exceeds the maximum depth of " ++ toString limit

/-- The category that reports give. -/
def kind : EvalError → String
  | invalidFormula _ => "SyntaxError"
  | unresolvedReference _ => "UnresolvedReference"
  | nodeNotFound _ => "NodeNotFound"
  | cyclicDependency _ => "CyclicDependency"
  | _ => "DomainError"

end EvalError

/-- A value or the error that stands in its place. -/
abbrev Outcome := Except EvalError Value

end FormulaPipeline
