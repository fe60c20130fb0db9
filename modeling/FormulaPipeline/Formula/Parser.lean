import FormulaPipeline.Formula.Expr
import FormulaPipeline.Formula.Lexer

/-!
# From tokens to expressions

One level of nesting is parsed in terms of the next: groups, arguments, exponents and negated
operands are read by the parser for one level less, down to none. Within a level, a loop takes at
least one token in every round.
-/

namespace FormulaPipeline

/-- A parser takes tokens from the front and leaves the rest. -/
abbrev Parser (α : Type) := Lexemes → Except SyntaxError (α × Lexemes)

namespace Parser

/-- How deep groups, calls and unary operators may be nested. -/
def maxNesting : Nat := 64

def fail {α : Type} (fault : SyntaxFault) (s : Lexemes) : Except SyntaxError α :=
  .error ⟨fault, s.position⟩

/-- The first token has no place here. -/
def unexpected {α : Type} (place : Place) (s : Lexemes) : Except SyntaxError α :=
  fail (.unexpected s.token place) s

/-- Take a token that must stand here. -/
def expect (wanted : Token) (s : Lexemes) : Except SyntaxError Lexemes :=
  if s.token = wanted then s.advance else fail (.expected wanted s.token) s

/-! ## Filters -/

def comparisonTest? : Token → Option Test
  | .equal => some .eq
  | .notEqual => some .ne
  | .less => some .lt
  | .lessEqual => some .le
  | .greater => some .gt
  | .greaterEqual => some .ge
  | .word name => Test.ofName? name
  | _ => none

/-- A filter value; a minus sign goes with numbers only. -/
def filterValue : Parser Value := fun s => do
  if s.token = .minus then
    let s ← s.advance
    match s.token with
    | .int n => return (.int (-n), ← s.advance)
    | .float x => return (.float x.neg, ← s.advance)
    | _ => unexpected .filterValue s
  else
    match s.token with
    | .int n => return (.int n, ← s.advance)
    | .float x => return (.float x, ← s.advance)
    | .text t => return (.text t, ← s.advance)
    | .bool b => return (.bool b, ← s.advance)
    | .null => return (.null, ← s.advance)
    | .word name => return (.text name, ← s.advance)
    | _ => unexpected .filterValue s

def filterField : Parser String := fun s => do
  match s.token with
  | .word name | .text name | .field name => return (name, ← s.advance)
  | _ => unexpected .filterField s

def filterTest : Parser Test := fun s => do
  match comparisonTest? s.token with
  | some test => return (test, ← s.advance)
  | none => unexpected .filterOperator s

/-- A field, a test and perhaps a value between brackets. -/
def filter : Parser Condition := fun s => do
  let s ← expect .openBracket s
  let (field, s) ← filterField s
  let (test, s) ← filterTest s
  let (value, s) ← if test.takesValue then filterValue s else pure (.null, s)
  return (⟨field, test, value⟩, ← expect .closeBracket s)

def optionalFilter : Parser (Option Condition) := fun s => do
  if s.token = .openBracket then
    let (condition, s) ← filter s
    return (some condition, s)
  else return (none, s)

/-! ## Arguments -/

/-- Expressions with commas between them. -/
def arguments (expression : Parser Expr) : Nat → Parser (List Expr)
  | 0, s => fail .tooDeep s
  | fuel + 1, s => do
    let (first, s) ← expression s
    if s.token = .comma then
      let s ← s.advance
      let (others, s) ← arguments expression fuel s
      return (first :: others, s)
    else return ([first], s)

/-- The arguments of a call between parentheses. -/
def callArguments (expression : Parser Expr) : Parser (List Expr) := fun s => do
  let s ← expect .openParen s
  if s.token = .closeParen then return ([], ← s.advance)
  else
    let (args, s) ← arguments expression (s.length + 1) s
    return (args, ← expect .closeParen s)

/-- The arguments of an aggregation up to the closing parenthesis: at most one property and at most
one separator, in either order. -/
def aggregationLoop : Nat → Option String → Option String → Parser (Option String × Option String)
  | 0, _, _, s => fail .tooDeep s
  | fuel + 1, property, separator, s => do
    if s.token = .closeParen then return ((property, separator), ← s.advance)
    else
      let (property, separator) ← match s.token, property, separator with
        | .word name, none, separator => pure (some name, separator)
        | .field name, none, separator => pure (some name, separator)
        | .text t, property, none => pure (property, some t)
        | _, _, _ => unexpected .aggregation s
      let s ← s.advance
      if s.token = .comma then aggregationLoop fuel property separator (← s.advance)
      else if s.token = .closeParen then aggregationLoop fuel property separator s
      else unexpected .aggregation s

def aggregationArguments : Parser (Option String × Option String) := fun s => do
  let s ← expect .openParen s
  aggregationLoop (s.length + 1) none none s

/-! ## Expressions -/

def literal (value : Value) (type : LiteralType) : Parser Expr := fun s => do
  return (.literal value type, ← s.advance)

/-- Literals, references, calls and groups. -/
def primary (expression : Parser Expr) : Parser Expr := fun s => do
  match s.token with
  | .float x => literal (.float x) .number s
  | .int n => literal (.int n) .number s
  | .text t => literal (.text t) .text s
  | .bool b => literal (.bool b) .boolean s
  | .null => literal .null .null s
  | .field name =>
    let (filter, s) ← optionalFilter (← s.advance)
    return (.field name filter, s)
  | .node name =>
    let (filter, s) ← optionalFilter (← s.advance)
    return (.node name filter, s)
  | .word name =>
    let s ← s.advance
    if s.token = .openParen then
      let (args, s) ← callArguments expression s
      return (.call name args, s)
    else
      let (filter, s) ← optionalFilter s
      return (.field name filter, s)
  | .openParen =>
    let (e, s) ← expression (← s.advance)
    return (e, ← expect .closeParen s)
  | _ => unexpected .expression s

def memberName : Parser String := fun s => do
  match s.token with
  | .word name | .field name => return (name, ← s.advance)
  | _ => unexpected .afterDot s

/-- What follows a dot and a name: an aggregation, a method call or nothing. -/
def member (expression : Parser Expr) (receiver : Expr) (name : String) : Parser Expr := fun s => do
  if s.token = .openParen then
    match Aggregation.ofName? name with
    | some mode =>
      let ((property, separator), s) ← aggregationArguments s
      return (.aggregation receiver mode property separator, s)
    | none =>
      let (args, s) ← callArguments expression s
      return (.call name (receiver :: args), s)
  else return (.property receiver name, s)

/-- The chain of dots after an expression. -/
def members (expression : Parser Expr) : Nat → Expr → Parser Expr
  | 0, e, s => .ok (e, s)
  | fuel + 1, e, s => do
    if s.token = .dot then
      let (name, s) ← memberName (← s.advance)
      let (e, s) ← member expression e name s
      members expression fuel e s
    else return (e, s)

def postfixed (expression : Parser Expr) : Parser Expr := fun s => do
  let (e, s) ← primary expression s
  members expression (s.length + 1) e s

/-- A base with an optional exponent, which is an operand of the next level. -/
def power (expression operand : Parser Expr) : Parser Expr := fun s => do
  let (base, s) ← postfixed expression s
  if s.token = .caret then
    let (exponent, s) ← operand (← s.advance)
    return (.binary .power base exponent, s)
  else return (base, s)

def multiplicativeOp? : Token → Option BinaryOp
  | .star => some .multiply
  | .slash => some .divide
  | .percent => some .modulo
  | _ => none

def additiveOp? : Token → Option BinaryOp
  | .plus => some .add
  | .minus => some .subtract
  | _ => none

def comparisonOp? : Token → Option BinaryOp
  | .equal => some .equal
  | .notEqual => some .notEqual
  | .less => some .less
  | .greater => some .greater
  | .lessEqual => some .lessEqual
  | .greaterEqual => some .greaterEqual
  | _ => none

/-- Operators of one precedence, which associate to the left. -/
def chain (op? : Token → Option BinaryOp) (operand : Parser Expr) : Nat → Expr → Parser Expr
  | 0, left, s => .ok (left, s)
  | fuel + 1, left, s => do
    match op? s.token with
    | some op =>
      let (right, s) ← operand (← s.advance)
      chain op? operand fuel (.binary op left right) s
    | none => return (left, s)

def leftAssociative (op? : Token → Option BinaryOp) (operand : Parser Expr) : Parser Expr :=
  fun s => do
    let (left, s) ← operand s
    chain op? operand (s.length + 1) left s

/-- At most one comparison of two sums. -/
def comparison (operand : Parser Expr) : Parser Expr := fun s => do
  let sum := leftAssociative additiveOp? (leftAssociative multiplicativeOp? operand)
  let (left, s) ← sum s
  match comparisonOp? s.token with
  | some op =>
    let (right, s) ← sum (← s.advance)
    return (.binary op left right, s)
  | none => return (left, s)

/-- An operand below `nesting` further levels. -/
def operand : Nat → Parser Expr
  | 0, s => fail .tooDeep s
  | nesting + 1, s => do
    if s.token = .minus then
      let (e, s) ← operand nesting (← s.advance)
      return (.negate e, s)
    else power (comparison (operand nesting)) (operand nesting) s

/-- A whole formula. -/
def formula : Parser Expr := fun s => do
  let (e, s) ← comparison (operand maxNesting) (← s.check)
  if s.token = .endOfInput then return (e, s) else unexpected .afterExpression s

end Parser

/-- The expression that a text writes. -/
def Expr.parse (text : String) : Except SyntaxError Expr :=
  (Parser.formula (Lexemes.ofText text)).map (·.1)

end FormulaPipeline
