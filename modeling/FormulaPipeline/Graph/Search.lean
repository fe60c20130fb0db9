/-!
# Searches for an id

A search goes from id to id, depth first, until it finds its target. The path to the id where it
stands and the ids where it has been are those of the whole search: a branch that fails takes its
ids off the path again, and no other branch goes on from an id where one has been before.
-/

namespace FormulaPipeline

/-- Where a search stands. -/
structure Search where
  /-- The ids from the start of the search to where it stands. -/
  path : List String
  /-- The ids where the search has been. -/
  visited : List String := []
  deriving DecidableEq, Repr

namespace Search

def push (s : Search) (id : String) : Search := { s with path := s.path ++ [id] }

def pop (s : Search) : Search := { s with path := s.path.dropLast }

def visit (s : Search) (id : String) : Search := { s with visited := id :: s.visited }

/-- Try ids in turn, until one leads to the target. -/
def tryEach (attempt : String → Search → Bool × Search) : List String → Search → Bool × Search
  | [], s => (false, s)
  | id :: rest, s =>
    match attempt id s with
    | (true, s) => (true, s)
    | (false, s) => tryEach attempt rest s

/-- A branch that has failed takes its id off the path. -/
def stepBack : Bool × Search → Bool × Search
  | (true, s) => (true, s)
  | (false, s) => (false, s.pop)

/-- Go to an id and, the first time, on to its successors, until the target is found. The path then
ends with the target; after a failure it is what it was before. A branch goes on from at most
`depth` ids. -/
def reaches (next : String → List String) (target : String) : Nat → String → Search → Bool × Search
  | depth, id, s =>
    let s := s.push id
    if id = target then (true, s)
    else if s.visited.contains id then stepBack (false, s)
    else
      match depth with
      | 0 => stepBack (false, s.visit id)
      | depth + 1 => stepBack (tryEach (reaches next target depth) (next id) (s.visit id))

end Search

end FormulaPipeline
