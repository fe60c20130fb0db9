/-!
# Powers

The powers of the number modules are those of the core library, whatever else is imported.
-/

namespace FormulaPipeline.Power

scoped instance (priority := 2000) natPow : Pow Nat Nat := instPowNat

scoped instance (priority := 2000) intPow : Pow Int Nat := instPowNat

end FormulaPipeline.Power
