import FormulaPipeline.Formula.Condition

/-!
# Expressions

The tree of a formula. A method call is a function call with the receiver as first argument.
-/

namespace FormulaPipeline

inductive Expr where
  | literal (value : Value) (type : LiteralType)
  | field (name : String) (filter : Option Condition)
  | node (name : String) (filter : Option Condition)
  | property (source : Expr) (name : String)
  | aggregation (source : Expr) (mode : Aggregation) (property separator : Option String)
  | call (name : String) (args : List Expr)
  | binary (op : BinaryOp) (left right : Expr)
  | negate (operand : Expr)
  deriving Inhabited

end FormulaPipeline
