import FormulaPipeline.Proofs.Pipeline.Stored
import FormulaPipeline.Proofs.Pipeline.Sums
import FormulaPipeline.Proofs.Value.Document

/-!
# Stored formulas

What becomes of a compiled formula that is stored as text and read again. Documents are limited in
depth and have no text for numbers that are not finite; within these limits nothing is lost.
-/

namespace FormulaPipeline

namespace Value

/-- Every value but the infinite numbers and `nan`. -/
def IsFinite : Value → Prop
  | .float x => x.isFinite = true
  | _ => True

instance : DecidablePred IsFinite
  | .float x => inferInstanceAs (Decidable (x.isFinite = true))
  | .null | .bool _ | .int _ | .text _ | .array _ | .object _ | .record .. => .isTrue trivial

/-- A scalar is read back as itself, unless it is a number that is not finite. -/
theorem reloaded_eq_iff {v : Value} (hv : v.IsScalar) : v.reloaded = v ↔ v.IsFinite := by
  cases v with
  | int n => exact iff_of_true (ofNumber_toInt n) trivial
  | float x =>
    rw [reloaded, toJson, IsFinite]
    split
    · rename_i hx
      exact iff_of_true rfl hx
    · rename_i hx
      exact iff_of_false (fun h => by cases h) hx
  | array items => exact hv.elim
  | object members => exact hv.elim
  | record id fields => exact hv.elim
  | _ => exact iff_of_true rfl trivial

end Value

namespace Step

mutual

theorem writable_toJson : ∀ {step : Step}, EveryValue Value.IsScalar step → (toJson step).Writable
  | .connect source, _ => ⟨trivial, trivial, trivial⟩
  | .segment c, h =>
    ⟨trivial, ⟨trivial, trivial, Value.writable_toJson _, trivial⟩, trivial⟩
  | .designate property, _ => ⟨trivial, trivial, trivial⟩
  | .synthesize mode property separator, _ => by
    cases property <;> cases separator <;>
      simp [toJson, textMember, Json.Writable, Json.WritableMembers]
  | .literal value type, h => ⟨trivial, trivial, Value.writable_toJson _, trivial, trivial⟩
  | .arithmetic op left right, h =>
    ⟨trivial, trivial, trivial, writable_toJsonSteps h.1, writable_toJsonSteps h.2, trivial⟩
  | .call name args, h => ⟨trivial, trivial, trivial, writable_toJsonArgs h, trivial⟩
  | .default value, h => ⟨trivial, Value.writable_toJson _, trivial⟩
  | .malformed raw reason, h => h.elim

theorem writable_toJsonSteps : ∀ {steps : List Step}, EveryValueSteps Value.IsScalar steps →
    Json.WritableItems (toJsonSteps steps)
  | [], _ => trivial
  | _ :: _, h => ⟨writable_toJson h.1, writable_toJsonSteps h.2⟩

theorem writable_toJsonArgs : ∀ {args : List (List Step)}, EveryValueArgs Value.IsScalar args →
    Json.WritableItems (toJsonArgs args)
  | [], _ => trivial
  | _ :: _, h => ⟨writable_toJsonSteps h.1, writable_toJsonArgs h.2⟩

end

mutual

/-- A step is read back as itself exactly when its numbers are finite. -/
theorem reloaded_eq_iff : ∀ {step : Step}, EveryValue Value.IsScalar step →
    (step.reloaded = step ↔ EveryValue Value.IsFinite step)
  | .connect source, _ => iff_of_true rfl trivial
  | .segment ⟨field, test, value⟩, h => by
    rw [reloaded, segment.injEq, Condition.mk.injEq, EveryValue, Value.reloaded_eq_iff h]
    simp
  | .designate property, _ => iff_of_true rfl trivial
  | .synthesize mode property separator, _ => iff_of_true rfl trivial
  | .literal value type, h => by
    rw [reloaded, literal.injEq, EveryValue, Value.reloaded_eq_iff h]
    simp
  | .arithmetic op left right, h => by
    rw [reloaded, arithmetic.injEq, EveryValue, reloadedSteps_eq_iff h.1, reloadedSteps_eq_iff h.2]
    simp
  | .call name args, h => by
    rw [reloaded, call.injEq, EveryValue, reloadedArgs_eq_iff h]
    simp
  | .default value, h => by
    rw [reloaded, default.injEq, EveryValue, Value.reloaded_eq_iff h]
  | .malformed raw reason, h => h.elim

theorem reloadedSteps_eq_iff : ∀ {steps : List Step}, EveryValueSteps Value.IsScalar steps →
    (reloadedSteps steps = steps ↔ EveryValueSteps Value.IsFinite steps)
  | [], _ => iff_of_true rfl trivial
  | step :: rest, h => by
    rw [reloadedSteps, List.cons.injEq, EveryValueSteps, reloaded_eq_iff h.1,
      reloadedSteps_eq_iff h.2]

theorem reloadedArgs_eq_iff : ∀ {args : List (List Step)}, EveryValueArgs Value.IsScalar args →
    (reloadedArgs args = args ↔ EveryValueArgs Value.IsFinite args)
  | [], _ => iff_of_true rfl trivial
  | p :: rest, h => by
    rw [reloadedArgs, List.cons.injEq, EveryValueArgs, reloadedSteps_eq_iff h.1,
      reloadedArgs_eq_iff h.2]

end

end Step

namespace Pipeline

/-- The text of a pipeline is read as the pipeline with its values reloaded, unless the document is
nested too deep. -/
theorem read_write {p : Pipeline} (h : p.written.Writable) :
    Pipeline.read? p.write =
      if p.written.depth ≤ Json.maxDepth then some (Step.reloadedSteps p) else none := by
  rw [Pipeline.read?, Json.read?, write, Json.readWritten_toText h]
  split
  · rw [Option.map_some, Option.bind_some, written, Json.canonical, ofJson?, Step.pipelineOf?,
      Step.ofJsonItems_toJsonSteps]
  · rfl

theorem writable_ofFormula {text : String} {p : Pipeline} (h : Pipeline.ofFormula text = .ok p) :
    p.written.Writable :=
  Step.writable_toJsonSteps (everyValue_ofFormula h)

/-- A compiled formula is read back from its text unless its document is nested too deep, and what
is read is the same pipeline exactly when its numbers are finite. -/
theorem read_write_ofFormula {text : String} {p : Pipeline} (h : Pipeline.ofFormula text = .ok p) :
    Pipeline.read? p.write =
        (if p.written.depth ≤ Json.maxDepth then some (Step.reloadedSteps p) else none) ∧
      (Step.reloadedSteps p = p ↔ Step.EveryValueSteps Value.IsFinite p) :=
  ⟨read_write (writable_ofFormula h), Step.reloadedSteps_eq_iff (everyValue_ofFormula h)⟩

theorem read_write_of_openTasks :
    ∃ p, Pipeline.ofFormula
        "IF(#Tasks[Status = \"open\"].COUNT() > 0.5, UPPER(\x7bName\x7d), \"none\")" = .ok p ∧
      Pipeline.read? p.write = some p := by
  obtain ⟨p, hformula, hcheck⟩ := @exists_ofFormula
    "IF(#Tasks[Status = \"open\"].COUNT() > 0.5, UPPER(\x7bName\x7d), \"none\")"
    (fun p : Pipeline => decide (p.written.depth ≤ Json.maxDepth ∧
      Step.EveryValueSteps Value.IsFinite p))
    (by decide +kernel)
  obtain ⟨hdepth, hfinite⟩ := of_decide_eq_true hcheck
  obtain ⟨hread, hsame⟩ := read_write_ofFormula hformula
  rw [if_pos hdepth, hsame.2 hfinite] at hread
  exact ⟨p, hformula, hread⟩

-- a numeral past the finite numbers is read back as `null`
example : ((Pipeline.ofFormula (String.ofList ('1' :: Binary64.zeros 310))).toOption.bind
    (Pipeline.read? ·.write)).any (fun | [.literal .null .number] => true | _ => false) = true := by
  rw [Pipeline.ofFormula, Expr.parse, Lexemes.ofText, String.toList_ofList]
  decide +kernel

/-- A sum of ones is read back up to 62 additions, and refused from there on. -/
theorem read_write_onesSum (n : Nat) :
    Pipeline.read? (Pipeline.write (onesSum n).compile) =
      if n ≤ 62 then some (onesSum n).compile else none := by
  have hfinite : Step.EveryValueSteps Value.IsFinite (onesSum n).compile := by
    induction n with
    | zero => exact ⟨trivial, trivial⟩
    | succ n ih => exact ⟨⟨ih, trivial, trivial⟩, trivial⟩
  have hscalar := everyValue_ofFormula (ofFormula_onesText n)
  rw [read_write (writable_ofFormula (ofFormula_onesText n)), depth_onesSum,
    (Step.reloadedSteps_eq_iff hscalar).2 hfinite]
  have hdepth : 2 * n + 2 ≤ Json.maxDepth ↔ n ≤ 62 := by
    unfold Json.maxDepth
    omega
  simp only [hdepth]

theorem read_write_fails_of_additions :
    ∃ p, Pipeline.ofFormula (onesText 63) = .ok p ∧ Pipeline.read? p.write = none :=
  ⟨(onesSum 63).compile, ofFormula_onesText 63, by rw [read_write_onesSum, if_neg (by decide)]⟩

end Pipeline

end FormulaPipeline
