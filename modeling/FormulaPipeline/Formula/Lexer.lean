import FormulaPipeline.Formula.Token
import FormulaPipeline.Text.Class

/-!
# From text to tokens

Tokens are separated by blanks. Reading stops at the first fault, which is kept at the place where
it was found, so that a reader of the tokens meets it only when it gets there.
-/

namespace FormulaPipeline

/-- The tokens of a text, each with the offset of its first character, up to the end of the text or
to a fault. -/
inductive Lexemes where
  | nil (position : Nat)
  | fault (error : SyntaxError)
  | cons (start : Nat) (token : Token) (rest : Lexemes)
  deriving DecidableEq

namespace Lexer

/-- The result of reading one token: it and the characters that follow, or a fault. -/
abbrev Scan (α : Type) := Except SyntaxError (α × List Char)

def isNameStart (c : Char) : Bool := Text.isAlphabetic c || c = '_'

def isNameChar (c : Char) : Bool := Text.isAlphanumeric c || c = '_'

def unescape : Char → Char
  | 'n' => '\n'
  | 't' => '\t'
  | 'r' => '\r'
  | c => c

/-- The content of a quoted text, whose opening quote has been taken, and the characters after its
closing quote. -/
def quoted (quote : Char) : List Char → Option (List Char × List Char)
  | [] => none
  | '\\' :: c :: rest => (quoted quote rest).map fun (s, rest) => (unescape c :: s, rest)
  | c :: rest =>
    if c = quote then some ([], rest)
    else if c = '\\' then none
    else (quoted quote rest).map fun (s, rest) => (c :: s, rest)

def scanQuoted (position : Nat) (quote : Char) (cs : List Char) : Scan Token :=
  match quoted quote cs with
  | some (s, rest) => .ok (.text (String.ofList s), rest)
  | none => .error ⟨.unterminatedText, position⟩

/-- A name between braces, whose opening brace has been taken, without the blanks around it. -/
def braced (position : Nat) (cs : List Char) : Scan String :=
  match cs.dropWhile (· != '\x7d') with
  | [] => .error ⟨.unterminatedReference, position⟩
  | _ :: rest =>
    let name := Text.trim (cs.takeWhile (· != '\x7d'))
    if name.isEmpty then .error ⟨.emptyReference, position⟩ else .ok (String.ofList name, rest)

/-- A whole numeral of 64 bits, or a float. -/
def scanNumber (cs : List Char) : Token × List Char :=
  let whole := cs.takeWhile Char.isDigit
  let rest := cs.dropWhile Char.isDigit
  let places := match rest with
    | '.' :: rest => rest.takeWhile Char.isDigit
    | _ => []
  if places.isEmpty then
    match Integer.ofInt? (Nat.ofDigitChars 10 whole 0) with
    | some n => (.int n, rest)
    | none => (.float (Binary64.ofDecimal false (Nat.ofDigitChars 10 whole 0) 0), rest)
  else
    let coefficient := Nat.ofDigitChars 10 (whole ++ places) 0
    (.float (Binary64.ofDecimal false coefficient (-places.length)), rest.drop (1 + places.length))

/-- A name, unless it is the word of a literal. -/
def wordToken (name : String) : Token :=
  match Text.asciiLower name with
  | "true" => .bool true
  | "false" => .bool false
  | "null" => .null
  | _ => .word name

def scanNode (position : Nat) : List Char → Scan Token
  | '\x7b' :: rest => (braced (position + 1) rest).map fun (name, rest) => (.node name, rest)
  | cs =>
    if (cs.takeWhile isNameChar).isEmpty then .error ⟨.missingName, position⟩
    else .ok (.node (String.ofList (cs.takeWhile isNameChar)), cs.dropWhile isNameChar)

/-- The token that starts with the first of some characters. -/
def scan (position : Nat) : List Char → Scan Token
  | [] => .ok (.endOfInput, [])
  | '\x7b' :: rest => (braced position rest).map fun (name, rest) => (.field name, rest)
  | '#' :: rest => scanNode position rest
  | '.' :: rest => .ok (.dot, rest)
  | ',' :: rest => .ok (.comma, rest)
  | '+' :: rest => .ok (.plus, rest)
  | '-' :: rest => .ok (.minus, rest)
  | '*' :: rest => .ok (.star, rest)
  | '/' :: rest => .ok (.slash, rest)
  | '%' :: rest => .ok (.percent, rest)
  | '^' :: rest => .ok (.caret, rest)
  | '=' :: '=' :: rest => .ok (.equal, rest)
  | '=' :: rest => .ok (.equal, rest)
  | '!' :: '=' :: rest => .ok (.notEqual, rest)
  | '!' :: _ => .error ⟨.loneExclamation, position⟩
  | '>' :: '=' :: rest => .ok (.greaterEqual, rest)
  | '>' :: rest => .ok (.greater, rest)
  | '<' :: '=' :: rest => .ok (.lessEqual, rest)
  | '<' :: '>' :: rest => .ok (.notEqual, rest)
  | '<' :: rest => .ok (.less, rest)
  | '"' :: rest => scanQuoted position '"' rest
  | '\'' :: rest => scanQuoted position '\'' rest
  | '(' :: rest => .ok (.openParen, rest)
  | ')' :: rest => .ok (.closeParen, rest)
  | '[' :: rest => .ok (.openBracket, rest)
  | ']' :: rest => .ok (.closeBracket, rest)
  | c :: rest =>
    if isNameStart c then
      .ok (wordToken (String.ofList ((c :: rest).takeWhile isNameChar)),
        (c :: rest).dropWhile isNameChar)
    else if c.isDigit then .ok (scanNumber (c :: rest))
    else .error ⟨.unexpectedCharacter c, position⟩

/-- The tokens from an offset on. Each takes at least one character. -/
def lexemes : Nat → Nat → List Char → Lexemes
  | 0, position, _ => .nil position
  | fuel + 1, position, cs =>
    let start := position + (cs.takeWhile Text.isBlank).length
    match cs.dropWhile Text.isBlank with
    | [] => .nil start
    | c :: cs =>
      match scan start (c :: cs) with
      | .error e => .fault e
      | .ok (token, rest) =>
        .cons start token (lexemes fuel (start + ((c :: cs).length - rest.length)) rest)

end Lexer

namespace Lexemes

def ofText (text : String) : Lexemes := Lexer.lexemes (text.toList.length + 1) 0 text.toList

/-- The first token; after the last one stands the end of input. -/
def token : Lexemes → Token
  | cons _ t _ => t
  | _ => .endOfInput

/-- The offset of the first token. -/
def position : Lexemes → Nat
  | nil position => position
  | fault e => e.position
  | cons start _ _ => start

def length : Lexemes → Nat
  | cons _ _ rest => rest.length + 1
  | _ => 0

/-- The tokens without the fault or the end that they stop at. -/
def tokens : Lexemes → List Token
  | cons _ t rest => t :: rest.tokens
  | _ => []

/-- The tokens, unless a fault comes first. -/
def check : Lexemes → Except SyntaxError Lexemes
  | fault e => .error e
  | s => .ok s

/-- The tokens after the first, unless a fault comes next. -/
def advance : Lexemes → Except SyntaxError Lexemes
  | cons _ _ rest => rest.check
  | s => s.check

end Lexemes

end FormulaPipeline
