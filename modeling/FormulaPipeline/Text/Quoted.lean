import FormulaPipeline.Text.Class
import FormulaPipeline.Text.QuotedTable

/-!
# Quoted text in messages

A text between double quotes in which every character that does not print by itself is written with
an escape.
-/

namespace FormulaPipeline.Text

def hexDigits (n : Nat) : List Char := Nat.toDigits 16 n

/-- Whether a character is written by its code point. -/
def isUnprintable (c : Char) : Bool :=
  if c.toNat < 128 then isControl c else inRanges unprintableRanges c.toNat

def quoteChar (c : Char) : List Char :=
  if c = '"' then ['\\', '"']
  else if c = '\\' then ['\\', '\\']
  else if c = '\n' then ['\\', 'n']
  else if c = '\r' then ['\\', 'r']
  else if c = '\t' then ['\\', 't']
  else if c.toNat = 0 then ['\\', '0']
  else if isUnprintable c then ['\\', 'u', '\x7b'] ++ hexDigits c.toNat ++ ['\x7d']
  else [c]

/-- The text between quotes, with its escapes. -/
def quoted (s : String) : String :=
  String.ofList ('"' :: s.toList.flatMap quoteChar ++ ['"'])

end FormulaPipeline.Text
