import FormulaPipeline.Formula.Operator
import FormulaPipeline.Value.Coercion

/-!
# Filter conditions

A condition tests one field of a record, or a scalar itself. Order tests hold between numbers only.
-/

namespace FormulaPipeline

structure Condition where
  field : String
  test : Test
  value : Value

namespace Condition

instance : BEq Condition :=
  ⟨fun a b => a.field == b.field && decide (a.test = b.test) && a.value == b.value⟩

/-- The condition as it is written in a filter. -/
def describe (c : Condition) : String :=
  if c.test.takesValue then c.field ++ " " ++ c.test.symbol ++ " " ++ c.value.compact
  else c.field ++ " " ++ c.test.symbol

/-- Whether a numeric test holds of two values that are numbers. -/
def numeric (p : Binary64 → Binary64 → Bool) (subject expected : Value) : Bool :=
  match subject.toNumber?, expected.toNumber? with
  | some x, some y => p x y
  | _, _ => false

/-- Whether the condition holds of the tested value. -/
def holds (c : Condition) (subject : Value) : Bool :=
  match c.test with
  | .eq => subject.looseEq c.value
  | .ne => !subject.looseEq c.value
  | .gt => numeric (fun x y => y.lt x) subject c.value
  | .ge => numeric (fun x y => y.le x) subject c.value
  | .lt => numeric Binary64.lt subject c.value
  | .le => numeric Binary64.le subject c.value
  | .contains =>
    match subject with
    | .array items => items.any fun item => item.looseEq c.value
    | v => Text.contains c.value.toText.toList v.toText.toList
  | .startsWith => c.value.toText.toList.isPrefixOf subject.toText.toList
  | .endsWith => c.value.toText.toList.isSuffixOf subject.toText.toList
  | .isEmpty => subject.isEmpty
  | .isNotEmpty => !subject.isEmpty

/-- What the condition tests in an entry. -/
def subject (c : Condition) (entry : Value) : Value :=
  if entry.isRecordLike then entry.fieldD c.field else entry

def accepts (c : Condition) (entry : Value) : Bool := c.holds (c.subject entry)

end Condition

end FormulaPipeline
