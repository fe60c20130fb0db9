import FormulaPipeline.Pipeline.Compile
import FormulaPipeline.Proofs.Formula.Parsing

/-!
# Values of compiled pipelines

A formula writes scalars only, as literals and in filters, and it compiles to steps that can be
read.
-/

namespace FormulaPipeline

/-- Values without parts. -/
def Value.IsScalar : Value → Prop
  | .array _ | .object _ | .record .. => False
  | _ => True

namespace Step

mutual

/-- Whether every value of a step has a property, those of operands and arguments included, and no
step is malformed. -/
def EveryValue (P : Value → Prop) : Step → Prop
  | .connect _ => True
  | .segment condition => P condition.value
  | .designate _ => True
  | .synthesize .. => True
  | .literal value _ => P value
  | .arithmetic _ left right => EveryValueSteps P left ∧ EveryValueSteps P right
  | .call _ args => EveryValueArgs P args
  | .default value => P value
  | .malformed .. => False

def EveryValueSteps (P : Value → Prop) : List Step → Prop
  | [] => True
  | step :: rest => EveryValue P step ∧ EveryValueSteps P rest

def EveryValueArgs (P : Value → Prop) : List (List Step) → Prop
  | [] => True
  | p :: rest => EveryValueSteps P p ∧ EveryValueArgs P rest

end

section Decidable

variable (P : Value → Prop) [DecidablePred P]

mutual

def decidableEveryValue : (step : Step) → Decidable (EveryValue P step)
  | .connect _ => .isTrue trivial
  | .segment condition => inferInstanceAs (Decidable (P condition.value))
  | .designate _ => .isTrue trivial
  | .synthesize .. => .isTrue trivial
  | .literal value _ => inferInstanceAs (Decidable (P value))
  | .arithmetic _ left right =>
    @instDecidableAnd _ _ (decidableEveryValueSteps left) (decidableEveryValueSteps right)
  | .call _ args => decidableEveryValueArgs args
  | .default value => inferInstanceAs (Decidable (P value))
  | .malformed .. => .isFalse id

def decidableEveryValueSteps : (steps : List Step) → Decidable (EveryValueSteps P steps)
  | [] => .isTrue trivial
  | step :: rest =>
    @instDecidableAnd _ _ (decidableEveryValue step) (decidableEveryValueSteps rest)

def decidableEveryValueArgs : (args : List (List Step)) → Decidable (EveryValueArgs P args)
  | [] => .isTrue trivial
  | p :: rest =>
    @instDecidableAnd _ _ (decidableEveryValueSteps p) (decidableEveryValueArgs rest)

end

instance : DecidablePred (EveryValueSteps P) := decidableEveryValueSteps P

end Decidable

theorem everyValueSteps_append {P : Value → Prop} {p q : List Step} (hp : EveryValueSteps P p)
    (hq : EveryValueSteps P q) : EveryValueSteps P (p ++ q) := by
  induction p with
  | nil => exact hq
  | cons step rest ih =>
    rw [EveryValueSteps] at hp
    rw [List.cons_append, EveryValueSteps]
    exact ⟨hp.1, ih hp.2⟩

end Step

namespace Grammar

/-- Every phrase of a rule compiles to a pipeline of scalars. -/
def Scalar (R : Rule Expr) : Prop :=
  ∀ ⦃ts e⦄, R ts e → Step.EveryValueSteps Value.IsScalar e.compile

section Rules

variable {R O : Rule Expr} {ts : List Token}

theorem isScalar_literal {t : Token} {value : Value} {type : LiteralType}
    (h : Literal t value type) : value.IsScalar := by
  cases h <;> trivial

theorem isScalar_filter {condition : Condition} (h : Filter ts condition) :
    condition.value.IsScalar := by
  cases h with
  | unary => trivial
  | binary _ _ _ hvalue => cases hvalue <;> trivial

theorem everyValue_filterSteps {filter : Option Condition} (h : OptionalFilter ts filter) :
    Step.EveryValueSteps Value.IsScalar (Expr.filterSteps filter) := by
  cases h with
  | none => trivial
  | some h => exact ⟨isScalar_filter h, trivial⟩

theorem Scalar.expressions (h : Scalar R) {es : List Expr} (hes : Expressions R ts es) :
    Step.EveryValueArgs Value.IsScalar (Expr.compileAll es) := by
  induction hes with
  | single he => exact ⟨h he, trivial⟩
  | cons he _ ih => exact ⟨h he, ih⟩

theorem Scalar.arguments (h : Scalar R) {es : List Expr} (hes : Arguments R ts es) :
    Step.EveryValueArgs Value.IsScalar (Expr.compileAll es) := by
  cases hes with
  | none => trivial
  | some hes => exact h.expressions hes

theorem Scalar.primary (h : Scalar R) : Scalar (Primary R) := by
  intro ts e he
  cases he with
  | literal ht => exact ⟨isScalar_literal ht, trivial⟩
  | field name hfilter =>
    exact Step.everyValueSteps_append (everyValue_filterSteps hfilter) ⟨trivial, trivial⟩
  | node name hfilter => exact ⟨trivial, everyValue_filterSteps hfilter⟩
  | call name hargs => exact ⟨h.arguments hargs, trivial⟩
  | word name hfilter =>
    exact Step.everyValueSteps_append (everyValue_filterSteps hfilter) ⟨trivial, trivial⟩
  | group he => exact h he

theorem Scalar.postfixed (h : Scalar R) : Scalar (Postfix R) := by
  intro ts e he
  induction he with
  | primary he => exact h.primary he
  | property _ _ ih => exact Step.everyValueSteps_append ih ⟨trivial, trivial⟩
  | aggregation _ _ _ _ ih => exact Step.everyValueSteps_append ih ⟨trivial, trivial⟩
  | method _ _ _ hargs ih => exact ⟨⟨ih, h.arguments hargs⟩, trivial⟩

theorem Scalar.power (h : Scalar R) (ho : Scalar O) : Scalar (Power R O) := by
  intro ts e he
  cases he with
  | base he => exact h.postfixed he
  | power hbase hexponent => exact ⟨⟨h.postfixed hbase, ho hexponent⟩, trivial⟩

theorem Scalar.leftAssociative {op : Token → BinaryOp → Prop} (h : Scalar R) :
    Scalar (LeftAssociative op R) := by
  intro ts e he
  induction he with
  | single he => exact h he
  | snoc _ _ hright ih => exact ⟨⟨ih, h hright⟩, trivial⟩

theorem Scalar.comparison (h : Scalar R) : Scalar (Comparison R) := by
  intro ts e he
  cases he with
  | sum he => exact h.leftAssociative.leftAssociative he
  | comparison hleft _ hright =>
    exact ⟨⟨h.leftAssociative.leftAssociative hleft, h.leftAssociative.leftAssociative hright⟩,
      trivial⟩

theorem Scalar.unary (h : Scalar R) : Scalar (Unary R) := by
  intro ts e he
  cases he with
  | negate he => exact ⟨⟨h he, trivial, trivial⟩, trivial⟩
  | power he => exact h.comparison.power h he

end Rules

theorem scalar_operand (nesting : Nat) : Scalar (Operand nesting) := by
  induction nesting with
  | zero => exact fun _ _ h => h.elim
  | succ nesting ih => exact ih.unary

end Grammar

namespace Pipeline

open Grammar

/-- A text compiles exactly when its tokens are a formula. -/
theorem ofFormula_eq_ok_iff {text : String} {p : Pipeline} :
    Pipeline.ofFormula text = .ok p ↔ ∃ e, ((Lexemes.ofText text).Complete ∧
      Formula Parser.maxNesting (Lexemes.ofText text).tokens e) ∧ e.compile = p := by
  have htokens : Token.endOfInput ∉ (Lexemes.ofText text).tokens :=
    Lexer.endOfInput_notMem_lexemes _ _ _
  simp only [← Parser.formula_eq_ok_iff htokens]
  unfold Pipeline.ofFormula Expr.parse
  cases Parser.formula (Lexemes.ofText text) with
  | error fault => simp [Except.map]
  | ok result =>
    obtain ⟨e, rest⟩ := result
    simp [Except.map]

/-- The values of a compiled pipeline are scalars, and none of its steps is malformed. -/
theorem everyValue_ofFormula {text : String} {p : Pipeline} (h : Pipeline.ofFormula text = .ok p) :
    Step.EveryValueSteps Value.IsScalar p := by
  obtain ⟨e, ⟨-, hphrase⟩, rfl⟩ := ofFormula_eq_ok_iff.1 h
  exact (scalar_operand Parser.maxNesting).comparison hphrase

end Pipeline

end FormulaPipeline
