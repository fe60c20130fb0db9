/-!
# Rounding a quotient to a whole number

Both number systems of the library round an exact quotient once. `halfEven` sends a tie to the even
neighbour and `halfUp` to the larger one.
-/

namespace FormulaPipeline.Rounding

/-- The whole number nearest to `num / den`; of two equally near ones the even one. -/
def halfEven (num den : Nat) : Nat :=
  let below := num / den
  let twice := 2 * (num % den)
  if twice < den ∨ (twice = den ∧ below % 2 = 0) then below else below + 1

/-- The whole number nearest to `num / den`; of two equally near ones the larger one. -/
def halfUp (num den : Nat) : Nat :=
  let below := num / den
  if 2 * (num % den) < den then below else below + 1

end FormulaPipeline.Rounding
