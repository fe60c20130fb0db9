/-!
# Closures of a relation

All ids that chains of successors reach, round by round. A round that finds nothing new ends the
search.
-/

namespace FormulaPipeline.Closure

/-- The successors of the frontier that have not been seen, each once. -/
def fresh (next : String → List String) (seen frontier : List String) : List String :=
  ((frontier.flatMap next).filter fun id => !seen.contains id).eraseDups

/-- What is reached in at most `rounds` rounds, with what was seen before. -/
def grow (next : String → List String) : Nat → List String → List String → List String
  | 0, seen, _ => seen
  | rounds + 1, seen, frontier =>
    match fresh next seen frontier with
    | [] => seen
    | id :: rest => grow next rounds (seen ++ id :: rest) (id :: rest)

/-- Everything that chains from the starting ids reach, themselves included. Every round but the
last reaches a new id, so the number of rounds may be bounded by a number of ids. -/
def reach (next : String → List String) (rounds : Nat) (start : List String) : List String :=
  grow next rounds start.eraseDups start.eraseDups

end FormulaPipeline.Closure
