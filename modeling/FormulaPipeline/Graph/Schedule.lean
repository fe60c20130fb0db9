import FormulaPipeline.Keyed

/-!
# Schedules

Ids are put in order one after another. Each id waits for some others, and the least id that waits
for nothing is always the next one.
-/

namespace FormulaPipeline

/-- What is left of the ids while they are put in order. -/
structure Schedule where
  /-- The ids without a place, in order, each with those that it still waits for. -/
  pending : List (String × List String)
  /-- The pending ids that wait for nothing, in order. -/
  ready : List String

namespace Schedule

/-- The schedule after the next id has its place. Nobody waits for it any more, and those that
waited for nothing else join the other ready ids. -/
def release (s : Schedule) (next : String) (others : List String) : Schedule :=
  let pending := Keyed.erase next s.pending
  let freed := pending.filter fun (_, names) => names.contains next && (names.erase next).isEmpty
  { pending := pending.map fun (id, names) => (id, names.erase next)
    ready := Keyed.sortNames (others ++ Keyed.keys freed) }

/-- All ids in their places. Ids that wait for each other come last. -/
def run : Nat → Schedule → List String
  | 0, s => Keyed.keys s.pending
  | steps + 1, s =>
    match s.ready with
    | [] => Keyed.keys s.pending
    | next :: others => next :: run steps (s.release next others)

end Schedule

end FormulaPipeline
