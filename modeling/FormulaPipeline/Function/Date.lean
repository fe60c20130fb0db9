import FormulaPipeline.Calendar.Reader
import FormulaPipeline.Calendar.Template
import FormulaPipeline.Function.Argument

/-!
# Functions on dates

A date is a text in one of the accepted forms or a whole number of milliseconds after the epoch.
-/

namespace FormulaPipeline.Builtin

open Argument

/-- The moment that a value names. -/
def dateOf? : Value → Option DateTime
  | .int n => DateTime.ofEpochMillis? n.toInt
  | .text s => DateTime.ofChars? (Text.trim s.toList)
  | _ => none

def date (v : Value) : Except EvalError DateTime :=
  match dateOf? v with
  | some t => .ok t
  | none => .error (.invalidDate v.toText)

/-- A value read off a date; null stays null. -/
def ofDate (f : DateTime → Value) (args : List Value) : Outcome :=
  match nth args 0 with
  | .null => .ok .null
  | v => (date v).map f

def year : List Value → Outcome := ofDate fun t => .int (Int64.ofInt t.year)

def month : List Value → Outcome := ofDate fun t => .int (Int64.ofInt t.month)

def day : List Value → Outcome := ofDate fun t => .int (Int64.ofInt t.day)

/-- The date in a template. -/
def formatDate (args : List Value) : Outcome :=
  ofDate (fun t => .text (t.format (text args 1 DateTime.defaultTemplate))) args

/-- The argument itself. -/
def parseDate (args : List Value) : Outcome := .ok (nth args 0)

def now (_ : List Value) (context : CallContext) : Outcome := .ok (.text context.now.toInterchange)

def today (_ : List Value) (context : CallContext) : Outcome := .ok (.text context.now.toDate)

end FormulaPipeline.Builtin
