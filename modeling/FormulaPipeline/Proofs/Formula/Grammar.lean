import FormulaPipeline.Formula.Expr
import FormulaPipeline.Formula.Token

/-!
# The grammar of formulas

Which sequences of tokens are phrases of which kind, and the tree that each phrase stands for. The
rules of one level take the phrases of the next level, which stand in groups, arguments, exponents
and behind minus signs, as a parameter, so that nesting can be counted.
-/

namespace FormulaPipeline

/-- The phrases of one kind, each with what it stands for. -/
abbrev Rule (α : Type) := List Token → α → Prop

namespace Grammar

/-! ## Single tokens -/

inductive Literal : Token → Value → LiteralType → Prop
  | float (x : Binary64) : Literal (.float x) (.float x) .number
  | int (n : Int64) : Literal (.int n) (.int n) .number
  | text (s : String) : Literal (.text s) (.text s) .text
  | bool (b : Bool) : Literal (.bool b) (.bool b) .boolean
  | null : Literal .null .null .null

inductive Name : Token → String → Prop
  | word (name : String) : Name (.word name) name
  | field (name : String) : Name (.field name) name

inductive Multiplicative : Token → BinaryOp → Prop
  | star : Multiplicative .star .multiply
  | slash : Multiplicative .slash .divide
  | percent : Multiplicative .percent .modulo

inductive Additive : Token → BinaryOp → Prop
  | plus : Additive .plus .add
  | minus : Additive .minus .subtract

inductive Comparative : Token → BinaryOp → Prop
  | equal : Comparative .equal .equal
  | notEqual : Comparative .notEqual .notEqual
  | less : Comparative .less .less
  | greater : Comparative .greater .greater
  | lessEqual : Comparative .lessEqual .lessEqual
  | greaterEqual : Comparative .greaterEqual .greaterEqual

/-! ## Filters -/

inductive FilterField : Token → String → Prop
  | name {t : Token} {field : String} (h : Name t field) : FilterField t field
  | text (s : String) : FilterField (.text s) s

/-- Tests that have a word are written in any case of its ASCII letters. -/
inductive FilterTest : Token → Test → Prop
  | equal : FilterTest .equal .eq
  | notEqual : FilterTest .notEqual .ne
  | less : FilterTest .less .lt
  | lessEqual : FilterTest .lessEqual .le
  | greater : FilterTest .greater .gt
  | greaterEqual : FilterTest .greaterEqual .ge
  | word {name : String} {test : Test} (htest : test ∈ Test.named)
      (hname : Text.asciiLower name = Text.asciiLower test.word) : FilterTest (.word name) test

inductive FilterValue : Rule Value
  | int (n : Int64) : FilterValue [.int n] (.int n)
  | negatedInt (n : Int64) : FilterValue [.minus, .int n] (.int (-n))
  | float (x : Binary64) : FilterValue [.float x] (.float x)
  | negatedFloat (x : Binary64) : FilterValue [.minus, .float x] (.float x.neg)
  | text (s : String) : FilterValue [.text s] (.text s)
  | bool (b : Bool) : FilterValue [.bool b] (.bool b)
  | null : FilterValue [.null] .null
  | word (name : String) : FilterValue [.word name] (.text name)

inductive Filter : Rule Condition
  | unary {t u : Token} {field : String} {test : Test} (hfield : FilterField t field)
      (htest : FilterTest u test) (hunary : test.takesValue = false) :
      Filter [.openBracket, t, u, .closeBracket] ⟨field, test, .null⟩
  | binary {t u : Token} {vs : List Token} {field : String} {test : Test} {value : Value}
      (hfield : FilterField t field) (htest : FilterTest u test)
      (hbinary : test.takesValue = true) (hvalue : FilterValue vs value) :
      Filter (.openBracket :: t :: u :: (vs ++ [.closeBracket])) ⟨field, test, value⟩

inductive OptionalFilter : Rule (Option Condition)
  | none : OptionalFilter [] none
  | some {ts : List Token} {condition : Condition} (h : Filter ts condition) :
      OptionalFilter ts (some condition)

/-! ## Arguments -/

/-- Expressions with commas between them. -/
inductive Expressions (expression : Rule Expr) : Rule (List Expr)
  | single {ts : List Token} {e : Expr} (h : expression ts e) : Expressions expression ts [e]
  | cons {ts us : List Token} {e : Expr} {es : List Expr} (h : expression ts e)
      (hrest : Expressions expression us es) :
      Expressions expression (ts ++ .comma :: us) (e :: es)

inductive Arguments (expression : Rule Expr) : Rule (List Expr)
  | none : Arguments expression [.openParen, .closeParen] []
  | some {ts : List Token} {es : List Expr} (h : Expressions expression ts es) :
      Arguments expression (.openParen :: (ts ++ [.closeParen])) es

inductive Trailing : List Token → Prop
  | none : Trailing []
  | comma : Trailing [.comma]

/-- A property to project and a separator, in either order; each may be left out. -/
inductive AggregationItems : Rule (Option String × Option String)
  | none : AggregationItems [] (none, none)
  | property {t : Token} {us : List Token} {name : String} (hname : Name t name)
      (hend : Trailing us) : AggregationItems (t :: us) (some name, none)
  | separator {us : List Token} (s : String) (hend : Trailing us) :
      AggregationItems (.text s :: us) (none, some s)
  | propertyFirst {t : Token} {us : List Token} {name : String} (s : String) (hname : Name t name)
      (hend : Trailing us) : AggregationItems (t :: .comma :: .text s :: us) (some name, some s)
  | separatorFirst {t : Token} {us : List Token} {name : String} (s : String)
      (hname : Name t name) (hend : Trailing us) :
      AggregationItems (.text s :: .comma :: t :: us) (some name, some s)

inductive AggregationArguments : Rule (Option String × Option String)
  | items {ts : List Token} {items : Option String × Option String}
      (h : AggregationItems ts items) :
      AggregationArguments (.openParen :: (ts ++ [.closeParen])) items

/-! ## Expressions -/

inductive Primary (expression : Rule Expr) : Rule Expr
  | literal {t : Token} {value : Value} {type : LiteralType} (h : Literal t value type) :
      Primary expression [t] (.literal value type)
  | field {ts : List Token} {filter : Option Condition} (name : String)
      (hfilter : OptionalFilter ts filter) :
      Primary expression (.field name :: ts) (.field name filter)
  | node {ts : List Token} {filter : Option Condition} (name : String)
      (hfilter : OptionalFilter ts filter) :
      Primary expression (.node name :: ts) (.node name filter)
  | call {ts : List Token} {args : List Expr} (name : String)
      (hargs : Arguments expression ts args) :
      Primary expression (.word name :: ts) (.call name args)
  | word {ts : List Token} {filter : Option Condition} (name : String)
      (hfilter : OptionalFilter ts filter) :
      Primary expression (.word name :: ts) (.field name filter)
  | group {ts : List Token} {e : Expr} (h : expression ts e) :
      Primary expression (.openParen :: (ts ++ [.closeParen])) e

/-- The name is the word of the aggregation, in any case of its ASCII letters. -/
def NamesAggregation (name : String) (mode : Aggregation) : Prop :=
  Text.asciiUpper name = mode.word

inductive Postfix (expression : Rule Expr) : Rule Expr
  | primary {ts : List Token} {e : Expr} (h : Primary expression ts e) : Postfix expression ts e
  | property {ts : List Token} {t : Token} {e : Expr} {name : String} (h : Postfix expression ts e)
      (hname : Name t name) : Postfix expression (ts ++ [.dot, t]) (.property e name)
  | aggregation {ts us : List Token} {t : Token} {e : Expr} {name : String} {mode : Aggregation}
      {property separator : Option String} (h : Postfix expression ts e) (hname : Name t name)
      (hmode : NamesAggregation name mode) (hargs : AggregationArguments us (property, separator)) :
      Postfix expression (ts ++ .dot :: t :: us) (.aggregation e mode property separator)
  | method {ts us : List Token} {t : Token} {e : Expr} {name : String} {args : List Expr}
      (h : Postfix expression ts e) (hname : Name t name)
      (hmode : ∀ mode, ¬NamesAggregation name mode) (hargs : Arguments expression us args) :
      Postfix expression (ts ++ .dot :: t :: us) (.call name (e :: args))

inductive Power (expression operand : Rule Expr) : Rule Expr
  | base {ts : List Token} {e : Expr} (h : Postfix expression ts e) : Power expression operand ts e
  | power {ts us : List Token} {base exponent : Expr} (hbase : Postfix expression ts base)
      (hexponent : operand us exponent) :
      Power expression operand (ts ++ .caret :: us) (.binary .power base exponent)

/-- Operators of one precedence, which associate to the left. -/
inductive LeftAssociative (op : Token → BinaryOp → Prop) (operand : Rule Expr) : Rule Expr
  | single {ts : List Token} {e : Expr} (h : operand ts e) : LeftAssociative op operand ts e
  | snoc {ts us : List Token} {t : Token} {o : BinaryOp} {left right : Expr}
      (hleft : LeftAssociative op operand ts left) (hop : op t o) (hright : operand us right) :
      LeftAssociative op operand (ts ++ t :: us) (.binary o left right)

/-- At most one comparison of two sums of products. -/
inductive Comparison (operand : Rule Expr) : Rule Expr
  | sum {ts : List Token} {e : Expr}
      (h : LeftAssociative Additive (LeftAssociative Multiplicative operand) ts e) :
      Comparison operand ts e
  | comparison {ts us : List Token} {t : Token} {o : BinaryOp} {left right : Expr}
      (hleft : LeftAssociative Additive (LeftAssociative Multiplicative operand) ts left)
      (hop : Comparative t o)
      (hright : LeftAssociative Additive (LeftAssociative Multiplicative operand) us right) :
      Comparison operand (ts ++ t :: us) (.binary o left right)

inductive Unary (operand : Rule Expr) : Rule Expr
  | negate {ts : List Token} {e : Expr} (h : operand ts e) :
      Unary operand (.minus :: ts) (.negate e)
  | power {ts : List Token} {e : Expr} (h : Power (Comparison operand) operand ts e) :
      Unary operand ts e

/-- Operands without a bound on their nesting. -/
inductive AnyOperand : Rule Expr
  | unary {ts : List Token} {e : Expr} (h : Unary AnyOperand ts e) : AnyOperand ts e

def AnyFormula : Rule Expr := Comparison AnyOperand

/-- Operands in which at most `nesting` operands stand inside each other, themselves included. -/
def Operand : Nat → Rule Expr
  | 0 => fun _ _ => False
  | nesting + 1 => Unary (Operand nesting)

def Formula (nesting : Nat) : Rule Expr := Comparison (Operand nesting)

/-! ## More operands give more phrases -/

end Grammar

end FormulaPipeline
