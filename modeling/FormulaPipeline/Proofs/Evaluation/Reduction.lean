import FormulaPipeline.Function.Number

/-!
# Reductions of whole numbers

Arguments may hold whole numbers in arrays at any depth. A function that reduces them sees the list
of all these numbers, as a reduction of a collection does.
-/

namespace FormulaPipeline

/-- Values in which nothing but whole numbers stands, in arrays or not, and the list of all of them
in the order in which they stand. -/
inductive Spreads : List Value → List Int64 → Prop
  | nil : Spreads [] []
  | int {args : List Value} {n : Int64} {ns : List Int64} (rest : Spreads args ns) :
      Spreads (.int n :: args) (n :: ns)
  | array {items args : List Value} {ms ns : List Int64} (front : Spreads items ms)
      (rest : Spreads args ns) : Spreads (.array items :: args) (ms ++ ns)

theorem spreads_map_int : ∀ ns : List Int64, Spreads (ns.map .int) ns
  | [] => .nil
  | _ :: ns => .int (spreads_map_int ns)

theorem Spreads.flatten_eq {args : List Value} {ns : List Int64} (h : Spreads args ns) :
    Argument.flatten args = ns.map .int := by
  induction h with
  | nil => rfl
  | int rest ih => simp [Argument.flatten, Argument.flattenOne, ih]
  | array front rest ihfront ihrest =>
    simp [Argument.flatten, Argument.flattenOne, ihfront, ihrest]

theorem Reduction.numbers_map_int (ns : List Int64) :
    Reduction.numbers (ns.map .int) = ns.map .int := by
  rw [Reduction.numbers, List.filterMap_map]
  exact congrFun List.filterMap_eq_map ns

theorem Spreads.numbers_eq {args : List Value} {ns : List Int64} (h : Spreads args ns) :
    Builtin.numbers args = ns.map .int := by
  rw [Builtin.numbers, h.flatten_eq, Reduction.numbers_map_int]

end FormulaPipeline
