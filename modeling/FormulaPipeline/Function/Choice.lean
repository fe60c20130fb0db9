import FormulaPipeline.Function.Argument

/-!
# Conditions and choices

All arguments have been evaluated before the choice is made.
-/

namespace FormulaPipeline.Builtin

open Argument

/-- The second argument if the first is true, else the third. -/
def choose (args : List Value) : Outcome :=
  if args.length < 2 then .error (.invalidArgument (.tooFew args.length))
  else .ok (if (nth args 0).isTruthy then nth args 1 else nth args 2)

/-- Whether all values are true. -/
def conjunction (args : List Value) : Outcome := .ok (.bool ((flatten args).all Value.isTruthy))

/-- Whether some value is true. -/
def disjunction (args : List Value) : Outcome := .ok (.bool ((flatten args).any Value.isTruthy))

def negation (args : List Value) : Outcome := .ok (.bool !(nth args 0).isTruthy)

/-- The result after the first candidate that equals the subject. A last value without a result is
the default. -/
def select (subject : Value) : List Value → Value
  | [] => .null
  | [default] => default
  | candidate :: result :: rest =>
    if subject.looseEq candidate then result else select subject rest

def switch : List Value → Outcome
  | [] => .ok .null
  | subject :: rest => .ok (select subject rest)

/-- The first argument that is not empty. -/
def coalesce (args : List Value) : Outcome :=
  .ok ((args.find? fun v => !v.isEmpty).getD .null)

def blank (_ : List Value) : Outcome := .ok .null

/-- Fail with the text of the argument. -/
def fail (args : List Value) : Outcome := .error (.raised (text args 0 "ERROR() called"))

end FormulaPipeline.Builtin
