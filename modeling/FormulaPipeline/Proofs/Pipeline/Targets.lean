import FormulaPipeline.Pipeline.Compile

/-!
# What a pipeline looks up

The ids that the sources of a pipeline look up in the graph, at every depth of operands and
arguments. A definition covers its lookups when it lists all of them.
-/

namespace FormulaPipeline

namespace Step

/-- The id that a source looks up: what follows its mark, or the whole of a source without one. -/
def target (source : String) : String :=
  match source.toList with
  | '#' :: id => String.ofList id
  | _ => source

mutual

/-- The ids that a step looks up. -/
def targets : Step → List String
  | .connect source => [target source]
  | .arithmetic _ left right => targetsIn left ++ targetsIn right
  | .call _ args => targetsInAll args
  | _ => []

def targetsIn : List Step → List String
  | [] => []
  | step :: rest => targets step ++ targetsIn rest

def targetsInAll : List (List Step) → List String
  | [] => []
  | p :: rest => targetsIn p ++ targetsInAll rest

end

theorem target_of_marked {source : String} {id : List Char} (h : source.toList = '#' :: id) :
    target source = String.ofList id := by
  simp [target, h]

theorem target_of_not_marked {source : String} (h : ∀ id, source.toList ≠ '#' :: id) :
    target source = source := by
  unfold target
  split
  · rename_i id hid
    exact (h id hid).elim
  · rfl

end Step

def Pipeline.targets (p : Pipeline) : List String := Step.targetsIn p

end FormulaPipeline
