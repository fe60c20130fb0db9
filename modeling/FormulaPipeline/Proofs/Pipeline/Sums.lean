import FormulaPipeline.Pipeline.Document
import FormulaPipeline.Proofs.Json.RoundTrip
import FormulaPipeline.Proofs.Pipeline.Values

/-!
# Long sums

Chains of operators are not nested in the text, but each operator nests the pipeline one level
deeper. The sums of ones show how deep the document of a formula gets.
-/

namespace FormulaPipeline

open Grammar

/-- Additions of one. -/
def plusOnes : Nat → List Char
  | 0 => []
  | n + 1 => '+' :: '1' :: plusOnes n

def plusOneTokens : Nat → List Token
  | 0 => []
  | n + 1 => .plus :: .int 1 :: plusOneTokens n

/-- A sum of ones, to which the operands are added one after the other. -/
def onesSum : Nat → Expr
  | 0 => .literal (.int 1) .number
  | n + 1 => .binary .add (onesSum n) (.literal (.int 1) .number)

/-- A one and a number of additions of one. -/
def onesText (n : Nat) : String := String.ofList ('1' :: plusOnes n)

/-! ## Tokens -/

theorem scanNumber_one {n : Nat} : Lexer.scanNumber ('1' :: plusOnes n) = (.int 1, plusOnes n) := by
  cases n <;> rfl

theorem scan_one {n position : Nat} :
    Lexer.scan position ('1' :: plusOnes n) = .ok (.int 1, plusOnes n) := by
  have hname : Lexer.isNameStart '1' = false := by decide +kernel
  have hdigit : '1'.isDigit = true := rfl
  rw [Lexer.scan, hname, hdigit, scanNumber_one]
  · rfl
  all_goals simp

theorem lexemes_one {fuel position n : Nat} :
    ∃ next, Lexer.lexemes (fuel + 1) position ('1' :: plusOnes n) =
      .cons position (.int 1) (Lexer.lexemes fuel next (plusOnes n)) :=
  ⟨_, Lexer.lexemes_cons (by decide +kernel) scan_one⟩

theorem lexemes_plusOnes (n : Nat) {fuel position : Nat} (hfuel : 2 * n < fuel) :
    (Lexer.lexemes fuel position (plusOnes n)).Complete ∧
      (Lexer.lexemes fuel position (plusOnes n)).tokens = plusOneTokens n := by
  induction n generalizing fuel position with
  | zero =>
    obtain ⟨fuel, rfl⟩ : ∃ k, fuel = k + 1 := ⟨fuel - 1, by omega⟩
    exact ⟨trivial, rfl⟩
  | succ n ih =>
    obtain ⟨fuel, rfl⟩ : ∃ k, fuel = k + 2 := ⟨fuel - 2, by omega⟩
    have hplus := @Lexer.lexemes_cons (fuel + 1) position '+' ('1' :: plusOnes n) _ _
      (by decide +kernel) rfl
    obtain ⟨next, hone⟩ := @lexemes_one fuel
      (position + (('+' :: '1' :: plusOnes n).length - ('1' :: plusOnes n).length)) n
    obtain ⟨hcomplete, htokens⟩ := @ih fuel next (by omega)
    rw [plusOnes, hplus, hone]
    exact ⟨hcomplete, by rw [Lexemes.tokens, Lexemes.tokens, htokens, plusOneTokens]⟩

/-! ## Expressions -/

theorem plusOneTokens_succ (n : Nat) :
    plusOneTokens (n + 1) = plusOneTokens n ++ [.plus, .int 1] := by
  induction n with
  | zero => rfl
  | succ n ih => exact congrArg (fun ts => .plus :: .int 1 :: ts) ih

theorem one_phrase {R : Rule Expr} : Unary R [.int 1] (.literal (.int 1) .number) :=
  .power (.base (.primary (.literal (.int 1))))

theorem onesSum_phrase {R : Rule Expr} (n : Nat) :
    LeftAssociative Additive (LeftAssociative Multiplicative (Unary R)) (.int 1 :: plusOneTokens n)
      (onesSum n) := by
  induction n with
  | zero => exact .single (.single one_phrase)
  | succ n ih =>
    rw [plusOneTokens_succ, ← List.cons_append]
    exact .snoc ih .plus (.single one_phrase)

theorem ofFormula_onesText (n : Nat) :
    Pipeline.ofFormula (onesText n) = .ok (onesSum n).compile := by
  have hlength : (plusOnes n).length = 2 * n := by
    induction n with
    | zero => rfl
    | succ n ih =>
      rw [plusOnes, List.length_cons, List.length_cons, ih]
      ring
  obtain ⟨next, hone⟩ := @lexemes_one ('1' :: plusOnes n).length 0 n
  obtain ⟨hcomplete, htokens⟩ := @lexemes_plusOnes n ('1' :: plusOnes n).length next
    (by rw [List.length_cons, hlength]; omega)
  rw [Pipeline.ofFormula_eq_ok_iff, onesText, Lexemes.ofText, String.toList_ofList, hone]
  refine ⟨onesSum n, ⟨hcomplete, .sum ?_⟩, rfl⟩
  rw [Lexemes.tokens, htokens]
  exact onesSum_phrase n

/-! ## Documents -/

/-- Each addition takes two containers, the step and the operand. -/
theorem depth_onesSum (n : Nat) : (Pipeline.written (onesSum n).compile).depth = 2 * n + 2 := by
  induction n with
  | zero => rfl
  | succ n ih =>
    simp only [Pipeline.written, onesSum, Expr.compile, Step.toJsonSteps, Step.toJson, Json.depth,
      Json.depthItems, Json.depthMembers, Value.toJson] at ih ⊢
    omega

end FormulaPipeline
