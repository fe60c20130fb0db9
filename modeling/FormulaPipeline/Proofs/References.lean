import FormulaPipeline.Proofs.Extraction
import Mathlib.Data.List.TakeWhile

/-!
# Dependencies are references

What a compiled expression depends on are the names that its fields and nodes refer to, wherever
these stand. A property, the property of an aggregation and the field of a filter are names too, but
nothing depends on them.
-/

namespace FormulaPipeline

namespace Expr

/-- The expressions that stand directly in an expression. -/
def parts : Expr → List Expr
  | .property source _ => [source]
  | .aggregation source .. => [source]
  | .call _ args => args
  | .binary _ left right => [left, right]
  | .negate operand => [operand]
  | _ => []

/-- An expression stands somewhere in another one, or is the whole of it. -/
inductive Occurs (d : Expr) : Expr → Prop
  | whole : Occurs d d
  | part {e part : Expr} (hpart : part ∈ e.parts) (h : Occurs d part) : Occurs d e

/-- What is left of a source without all the marks in front of it. -/
def IsUnmarked (source name : String) : Prop :=
  (∃ marks, source.toList = List.replicate marks '#' ++ name.toList) ∧ ¬Step.Marked name

/-- The expression itself is a reference to a name. -/
inductive Refers : Expr → String → Prop
  | field (name : String) (filter : Option Condition) : Refers (.field name filter) name
  | node {source name : String} (hname : IsUnmarked source name) (filter : Option Condition) :
      Refers (.node source filter) name

/-- A reference to a name stands somewhere in the expression. -/
def Mentions (e : Expr) (name : String) : Prop := ∃ d, Occurs d e ∧ Refers d name

variable {e : Expr} {name : String}

theorem sourceId_eq_iff {source : String} :
    Step.sourceId source = name ↔ IsUnmarked source name := by
  constructor
  · rintro rfl
    refine ⟨⟨(source.toList.takeWhile (· == '#')).length, ?_⟩, Step.not_marked_sourceId source⟩
    have hmarks : source.toList.takeWhile (· == '#') =
        List.replicate (source.toList.takeWhile (· == '#')).length '#' :=
      List.eq_replicate_of_mem fun c hc => by simpa using List.mem_takeWhile_imp hc
    rw [← hmarks, Step.sourceId, String.toList_ofList, List.takeWhile_append_dropWhile]
  · rintro ⟨⟨marks, hsource⟩, hplain⟩
    have hmarks : ∀ c ∈ List.replicate marks '#', (c == '#') = true := by simp
    have hname := Step.sourceId_of_not_marked hplain
    rw [Step.sourceId] at hname ⊢
    rw [hsource, List.dropWhile_append_of_pos hmarks, hname]

theorem mentions_iff : e.Mentions name ↔ Refers e name ∨ ∃ part ∈ e.parts, part.Mentions name := by
  constructor
  · rintro ⟨d, _ | ⟨hpart, hd⟩, hname⟩
    · exact .inl hname
    · exact .inr ⟨_, hpart, d, hd, hname⟩
  · rintro (hname | ⟨part, hpart, d, hd, hname⟩)
    · exact ⟨e, .whole, hname⟩
    · exact ⟨d, .part hpart hd, hname⟩

/-- A compound expression mentions what its parts mention. -/
theorem mentions_iff_of_not_refers (h : ¬Refers e name) :
    e.Mentions name ↔ ∃ part ∈ e.parts, part.Mentions name :=
  mentions_iff.trans (or_iff_right h)

theorem readsSteps_filterSteps (fromRecord : Bool) (filter : Option Condition) (rest : Pipeline) :
    Step.readsSteps fromRecord (filterSteps filter ++ rest) = Step.readsSteps fromRecord rest := by
  cases filter with
  | none => rfl
  | some condition => simp [filterSteps, Step.readsSteps, Step.reads, Step.keepsInput]

mutual

/-- After a compiled expression a value is there, so that no later property is read from the
record. -/
theorem mem_readsSteps_compile (e : Expr) (rest : Pipeline) :
    name ∈ Step.readsSteps true (e.compile ++ rest) ↔
      e.Mentions name ∨ name ∈ Step.readsSteps false rest := by
  cases e with
  | literal value type =>
    rw [mentions_iff_of_not_refers (by rintro ⟨⟩)]
    simp [compile, parts, Step.readsSteps, Step.reads, Step.keepsInput]
  | field other filter =>
    have hrefers : Refers (.field other filter) name ↔ name = other := by
      constructor
      · rintro ⟨⟩
        rfl
      · rintro rfl
        exact .field _ filter
    rw [mentions_iff, hrefers, compile, List.append_assoc, readsSteps_filterSteps]
    simp [parts, Step.readsSteps, Step.reads, Step.keepsInput]
  | node source filter =>
    have hrefers : Refers (.node source filter) name ↔ name = Step.sourceId source := by
      rw [eq_comm, sourceId_eq_iff]
      constructor
      · rintro ⟨⟩
        assumption
      · exact fun h => .node h filter
    rw [mentions_iff, hrefers, compile, List.cons_append, Step.readsSteps, readsSteps_filterSteps]
    simp [parts, Step.reads, Step.keepsInput]
  | property source other =>
    rw [mentions_iff_of_not_refers (by rintro ⟨⟩), compile, List.append_assoc,
      mem_readsSteps_compile source]
    simp [parts, Step.readsSteps, Step.reads]
  | aggregation source mode projected separator =>
    rw [mentions_iff_of_not_refers (by rintro ⟨⟩), compile, List.append_assoc,
      mem_readsSteps_compile source]
    simp [parts, Step.readsSteps, Step.reads]
  | call callee args =>
    rw [mentions_iff_of_not_refers (by rintro ⟨⟩), compile, List.singleton_append,
      Step.readsSteps, Step.reads, List.mem_append, mem_readsArgs_compileAll args]
    rfl
  | binary op left right =>
    have hleft := mem_readsSteps_compile left []
    have hright := mem_readsSteps_compile right []
    rw [List.append_nil] at hleft hright
    rw [mentions_iff_of_not_refers (by rintro ⟨⟩), compile, List.singleton_append,
      Step.readsSteps, Step.reads, List.mem_append, List.mem_append, hleft, hright]
    simp [parts, Step.readsSteps, Step.keepsInput]
  | negate operand =>
    have hoperand := mem_readsSteps_compile operand []
    rw [List.append_nil] at hoperand
    rw [mentions_iff_of_not_refers (by rintro ⟨⟩), compile, List.singleton_append,
      Step.readsSteps, Step.reads, List.mem_append, List.mem_append, hoperand]
    simp [parts, Step.readsSteps, Step.reads, Step.keepsInput]

theorem mem_readsArgs_compileAll (args : List Expr) :
    name ∈ Step.readsArgs (compileAll args) ↔ ∃ arg ∈ args, arg.Mentions name := by
  cases args with
  | nil => simp [compileAll, Step.readsArgs]
  | cons arg rest =>
    have harg := mem_readsSteps_compile arg []
    rw [List.append_nil] at harg
    rw [compileAll, Step.readsArgs, List.mem_append, harg, mem_readsArgs_compileAll rest,
      List.exists_mem_cons_iff]
    simp [Step.readsSteps]

end

/-- The dependencies stand in increasing order and are the names that references in the expression
mention, and no others. -/
theorem dependencies_compile (e : Expr) :
    e.compile.dependencies.Pairwise (· < ·) ∧
      ∀ name, name ∈ e.compile.dependencies ↔ e.Mentions name := by
  refine ⟨Keyed.sortNames_lt _, fun name => ?_⟩
  have hreads := @mem_readsSteps_compile name e []
  rw [List.append_nil] at hreads
  rw [Pipeline.dependencies, Keyed.mem_sortNames, hreads]
  simp [Step.readsSteps]

/-- A property, the property of an aggregation and the field of a filter are left out, and so are
the marks of a node. -/
example : (Pipeline.ofFormula
    "#\x7b##Tasks\x7d[open = true].SUM(cost) + \x7bOrder\x7d.total").toOption.map
      Pipeline.dependencies = some ["Order", "Tasks"] := by decide +kernel

end Expr

end FormulaPipeline
