import FormulaPipeline.Number.Numeral

/-!
# Tokens of formulas

The words of the formula language and the faults that reading a formula can end in.
-/

namespace FormulaPipeline

inductive Token where
  | float (x : Binary64)
  | int (n : Int64)
  | text (s : String)
  | bool (b : Bool)
  | null
  | field (name : String)
  | node (name : String)
  | word (name : String)
  | equal
  | notEqual
  | less
  | greater
  | lessEqual
  | greaterEqual
  | plus
  | minus
  | star
  | slash
  | percent
  | caret
  | openBracket
  | closeBracket
  | openParen
  | closeParen
  | dot
  | comma
  | endOfInput
  deriving DecidableEq

namespace Token

/-- The token as messages show it. -/
def describe : Token → String
  | float x => x.toText
  | int n => toString n.toInt
  | text s => "\"" ++ s ++ "\""
  | bool b => toString b
  | null => "null"
  | field name => "\x7b" ++ name ++ "\x7d"
  | node name => "#" ++ name
  | word name => name
  | equal => "'='"
  | notEqual => "'!='"
  | less => "'<'"
  | greater => "'>'"
  | lessEqual => "'<='"
  | greaterEqual => "'>='"
  | plus => "'+'"
  | minus => "'-'"
  | star => "'*'"
  | slash => "'/'"
  | percent => "'%'"
  | caret => "'^'"
  | openBracket => "'['"
  | closeBracket => "']'"
  | openParen => "'('"
  | closeParen => "')'"
  | dot => "'.'"
  | comma => "','"
  | endOfInput => "end of input"

end Token

/-- Where a token was out of place. -/
inductive Place where
  | expression
  | afterExpression
  | afterDot
  | aggregation
  | filterField
  | filterOperator
  | filterValue
  deriving DecidableEq, Repr

def Place.describe : Place → String
  | expression => "in expression"
  | afterExpression => "after end of expression"
  | afterDot => "after '.'"
  | aggregation => "in aggregation arguments"
  | filterField => "where a filter field was expected"
  | filterOperator => "where a filter operator was expected"
  | filterValue => "where a filter value was expected"

/-- Why a text is not a formula. -/
inductive SyntaxFault where
  | unterminatedText
  | unterminatedReference
  | emptyReference
  | missingName
  | loneExclamation
  | unexpectedCharacter (c : Char)
  | unexpected (token : Token) (place : Place)
  | expected (wanted found : Token)
  | tooDeep
  deriving DecidableEq

def SyntaxFault.message : SyntaxFault → String
  | unterminatedText => "Unterminated string literal"
  | unterminatedReference => "Unterminated field reference"
  | emptyReference => "Empty field reference"
  | missingName => "Expected a name after '#'"
  | loneExclamation => "Unexpected '!' (did you mean '!='?)"
  | unexpectedCharacter c => "Unexpected character '" ++ c.toString ++ "'"
  | unexpected token place => "Unexpected " ++ token.describe ++ " " ++ place.describe
  | expected wanted found => "Expected " ++ wanted.describe ++ ", got " ++ found.describe
  | tooDeep => "Expression nested too deeply"

/-- A fault and the offset, in characters, at which it was found. -/
structure SyntaxError where
  fault : SyntaxFault
  position : Nat
  deriving DecidableEq

namespace SyntaxError

def message (e : SyntaxError) : String := e.fault.message

/-- The message with its position. -/
def describe (e : SyntaxError) : String := e.message ++ " at position " ++ toString e.position

end SyntaxError

end FormulaPipeline
