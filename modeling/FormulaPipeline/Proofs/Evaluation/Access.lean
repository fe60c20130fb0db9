import FormulaPipeline.Proofs.Evaluation.Executed
import FormulaPipeline.Proofs.Extraction

/-!
# What pipelines take from the record

A property is taken from the current record when the running value is neither an array nor a record.
The extraction lists a property while no step has produced a value. After that it is a stray one,
except where the running value is certain to be an array. Without nodes, what a run takes from the
record is listed or stray.
-/

namespace FormulaPipeline

namespace Step

/-- What is known of the running value from the steps before: that there was none, that it is an
array, or nothing. -/
inductive Shape where
  | initial
  | rows
  | produced
  deriving DecidableEq

namespace Shape

def after : Shape → Step → Shape
  | _, .connect _ => .rows
  | _, .synthesize .collect .. => .rows
  | .initial, step => if step.keepsInput then .initial else .produced
  | .rows, .segment _ | .rows, .designate _ => .rows
  | .rows, _ | .produced, _ => .produced

def Describes : Shape → Value → Prop
  | .rows, v => ∃ items, v = .array items
  | _, _ => True

theorem describes_initial (v : Value) : initial.Describes v := True.intro

theorem after_eq_initial_iff (shape : Shape) (step : Step) :
    shape.after step = .initial ↔ shape = .initial ∧ step.keepsInput = true := by
  cases shape <;> cases step with
  | synthesize mode => cases mode <;> simp [after, keepsInput]
  | _ => simp [after, keepsInput]

end Shape

/-- A property that the extraction lists, one that it does not list, or a call. -/
inductive Access where
  | listed (property : String)
  | stray (property : String)
  | call (function : String)
  deriving DecidableEq

mutual

/-- The properties that a step may take from the record, and the functions that it calls. -/
def accesses (shape : Shape) : Step → List Access
  | .designate property =>
    match shape with
    | .initial => [.listed property]
    | .rows => []
    | .produced => [.stray property]
  | .arithmetic _ left right => accessesIn .initial left ++ accessesIn .initial right
  | .call name args => .call name :: accessesInAll args
  | _ => []

def accessesIn (shape : Shape) : List Step → List Access
  | [] => []
  | step :: rest => accesses shape step ++ accessesIn (shape.after step) rest

def accessesInAll : List (List Step) → List Access
  | [] => []
  | p :: rest => accessesIn .initial p ++ accessesInAll rest

end

section Listed

variable {name : String}

mutual

theorem mem_recordReads_of_listed {shape : Shape} (step : Step)
    (h : .listed name ∈ accesses shape step) :
    name ∈ recordReads (decide (shape = .initial)) step := by
  cases step with
  | designate property => cases shape <;> simp_all [accesses, recordReads]
  | arithmetic op left right =>
    rw [accesses, List.mem_append] at h
    rw [recordReads, List.mem_append]
    exact h.imp (mem_recordReadsIn_of_listed left) (mem_recordReadsIn_of_listed right)
  | call function args =>
    rw [accesses, List.mem_cons] at h
    rw [recordReads]
    exact mem_recordReadsInAll_of_listed args (h.resolve_left (by simp))
  | connect | segment | synthesize | literal | default | malformed => simp [accesses] at h

theorem mem_recordReadsIn_of_listed {shape : Shape} (p : List Step)
    (h : .listed name ∈ accessesIn shape p) :
    name ∈ recordReadsIn (decide (shape = .initial)) p := by
  cases p with
  | nil => cases h
  | cons step rest =>
    have hafter : (decide (shape = .initial) && step.keepsInput) =
        decide (shape.after step = .initial) := by
      simp [Shape.after_eq_initial_iff]
    rw [accessesIn, List.mem_append] at h
    rw [recordReadsIn, List.mem_append, hafter]
    exact h.imp (mem_recordReads_of_listed step) (mem_recordReadsIn_of_listed rest)

theorem mem_recordReadsInAll_of_listed (args : List (List Step))
    (h : .listed name ∈ accessesInAll args) : name ∈ recordReadsInAll args := by
  cases args with
  | nil => cases h
  | cons p rest =>
    rw [accessesInAll, List.mem_append] at h
    rw [recordReadsInAll, List.mem_append]
    exact h.imp (mem_recordReadsIn_of_listed p) (mem_recordReadsInAll_of_listed rest)

end

end Listed

end Step

open Step (Access Shape)

namespace Pipeline

def accesses (p : Pipeline) : List Access := Step.accessesIn .initial p

theorem mem_dependencies_of_listed {p : Pipeline} {name : String}
    (h : .listed name ∈ p.accesses) : name ∈ p.dependencies := by
  rw [dependencies, Keyed.mem_sortNames, Step.mem_readsSteps_iff]
  exact .inr (Step.mem_recordReadsIn_of_listed p h)

end Pipeline

namespace Execution

/-- The property that an executed step takes from the current record. -/
def property? (x : Execution) : Option String :=
  match x.step, x.input with
  | .designate _, .array _ => none
  | .designate property, v => if v.isRecordLike then none else some property
  | _, _ => none

def callee? (x : Execution) : Option String :=
  match x.step with
  | .call name _ => some name
  | _ => none

/-- What an executed step takes and calls is among given accesses. -/
structure Within (accesses : List Access) (x : Execution) : Prop where
  property : ∀ name, x.property? = some name → .listed name ∈ accesses ∨ .stray name ∈ accesses
  callee : ∀ name, x.callee? = some name → .call name ∈ accesses

theorem Within.mono {x : Execution} {fewer more : List Access} (h : x.Within fewer)
    (hsubset : fewer ⊆ more) : x.Within more where
  property name hname := (h.property name hname).imp (@hsubset _) (@hsubset _)
  callee name hname := hsubset (h.callee name hname)

theorem within_accesses {shape : Shape} {step : Step} {input : Value}
    (hshape : shape.Describes input) (result : Outcome) :
    Execution.Within (step.accesses shape) ⟨step, input, result⟩ := by
  cases step with
  | designate property =>
    refine ⟨fun name hname => ?_, by simp [callee?]⟩
    have hproperty : property = name := by
      simp only [property?] at hname
      split at hname <;> simp_all
    cases shape with
    | initial => exact .inl (by simp [Step.accesses, hproperty])
    | rows =>
      obtain ⟨items, rfl⟩ := hshape
      simp [property?] at hname
    | produced => exact .inr (by simp [Step.accesses, hproperty])
  | call name args => exact ⟨by simp [property?], by simp [callee?, Step.accesses]⟩
  | connect | segment | synthesize | literal | arithmetic | default | malformed =>
    exact ⟨by simp [property?], by simp [callee?]⟩

end Execution

/-! ## Without nodes -/

def Session.Blank (s : Session) : Prop := s.graph.nodes = []

namespace Session.Blank

variable {s : Session}

theorem find?_eq_none (hs : s.Blank) (id : String) : s.graph.find? id = none := by
  rw [Graph.find?, hs]
  rfl

theorem contains_eq_false (hs : s.Blank) (id : String) : s.graph.contains id = false :=
  Graph.find?_eq_none_iff.1 (hs.find?_eq_none id)

end Session.Blank

namespace Environment

variable {env : Environment} {s : Session}

theorem visitTop_of_blank (hs : s.Blank) (id : String) :
    env.visitTop id s = (.error (.nodeNotFound id), s) := by
  unfold visitTop node
  simp [settled?, hs.find?_eq_none, Evaluation.ofOutcome]

theorem executedNode_of_blank (hs : s.Blank) (depth : Nat) (active : List String) (id : String) :
    env.executedNode depth active id s = [] := by
  unfold executedNode
  simp [settled?, hs.find?_eq_none]

theorem blank_run (env : Environment) (p : List Step) (input : Value) (hs : s.Blank) :
    (env.run env.visitTop p input s).2.Blank := by
  refine env.run_induction ?_ (fun _ _ h => h) (fun _ _ h => h) p input hs
  intro id t ht
  rwa [visitTop_of_blank ht]

theorem blank_apply (env : Environment) (step : Step) (input : Value) (hs : s.Blank) :
    (env.apply env.visitTop step input s).2.Blank := by
  have h := blank_run env [step] input hs
  rwa [run_cons, andThen_ext (fun v t => by rw [run]), andThen_ok] at h

/-- A name that is not a node stands for an array. -/
theorem connect_array {source : String} {v : Value} (hs : s.Blank)
    (h : (env.connect env.visitTop source s).1 = .ok v) : ∃ items, v = .array items := by
  unfold connect at h
  split at h
  · rw [visitTop_of_blank hs] at h
    cases h
  · rw [hs.contains_eq_false, if_neg (by simp), connectData] at h
    split at h
    · rename_i w hw
      obtain rfl := Except.ok.inj h
      unfold fromSource? at hw
      split at hw
      · cases hw
      · split at hw
        · obtain rfl := Option.some.inj hw
          exact ⟨_, rfl⟩
        · obtain ⟨records, -, rfl⟩ := Option.map_eq_some_iff.1 hw
          exact ⟨_, rfl⟩
    · split at h
      · cases h
      · exact ⟨[], (Except.ok.inj h).symm⟩

theorem describes_apply {shape : Shape} {step : Step} {input v : Value} (hs : s.Blank)
    (hshape : shape.Describes input) (h : (env.apply env.visitTop step input s).1 = .ok v) :
    (shape.after step).Describes v := by
  cases step with
  | connect source => cases shape <;> exact connect_array hs h
  | synthesize mode property separator =>
    cases mode with
    | collect =>
      obtain rfl := Except.ok.inj h
      cases shape <;> exact ⟨_, rfl⟩
    | _ => cases shape <;> exact True.intro
  | segment condition =>
    cases shape with
    | rows =>
      obtain ⟨items, rfl⟩ := hshape
      exact ⟨_, (Except.ok.inj h).symm⟩
    | _ => exact True.intro
  | designate property =>
    cases shape with
    | rows =>
      obtain ⟨items, rfl⟩ := hshape
      exact ⟨_, (Except.ok.inj h).symm⟩
    | _ => exact True.intro
  | literal | arithmetic | call | default | malformed => cases shape <;> exact True.intro

mutual

theorem within_of_mem_executedWithin {s : Session} (hs : s.Blank) (shape : Shape) (step : Step) :
    ∀ x ∈ env.executedWithin env.visitTop (env.executedNode env.config.maxDepth []) step s,
      x.Within (step.accesses shape) := by
  cases step with
  | connect source =>
    intro x hx
    rw [executedWithin, executedConnect] at hx
    split at hx
    · simp [executedNode_of_blank hs] at hx
    · simp [executedNode_of_blank hs] at hx
  | arithmetic op left right =>
    rw [executedWithin, Step.accesses, List.forall_mem_append]
    constructor
    · intro x hx
      have hleft := within_of_mem_executed hs left (Shape.describes_initial _) x hx
      exact hleft.mono (List.subset_append_left _ _)
    · apply forall_executedNext
      intro a _ x hx
      have ht := blank_run env left env.context.value hs
      have hright := within_of_mem_executed ht right (Shape.describes_initial _) x hx
      exact hright.mono (List.subset_append_right _ _)
  | call name args =>
    intro x hx
    exact (within_of_mem_executedAll hs args x hx).mono (List.subset_cons_self _ _)
  | segment | designate | synthesize | literal | default | malformed =>
    intro x hx
    cases hx

/-- What a run takes from the record and what it calls is among the accesses of the pipeline. -/
theorem within_of_mem_executed {s : Session} {shape : Shape} {input : Value} (hs : s.Blank)
    (p : List Step)
    (hshape : shape.Describes input) :
    ∀ x ∈ env.executed env.visitTop (env.executedNode env.config.maxDepth []) p input s,
      x.Within (Step.accessesIn shape p) := by
  cases p with
  | nil =>
    intro x hx
    cases hx
  | cons step rest =>
    rw [Step.accessesIn, forall_executed_cons]
    refine ⟨fun x hx => ?_, ?_, ?_⟩
    · exact (within_of_mem_executedWithin hs shape step x hx).mono (List.subset_append_left _ _)
    · exact (Execution.within_accesses hshape _).mono (List.subset_append_left _ _)
    · apply forall_executedNext
      intro output houtput x hx
      have hafter := describes_apply hs hshape houtput
      have hrest := within_of_mem_executed (blank_apply env step input hs) rest hafter x hx
      exact hrest.mono (List.subset_append_right _ _)

theorem within_of_mem_executedAll {s : Session} (hs : s.Blank) (args : List (List Step)) :
    ∀ x ∈ env.executedAll env.visitTop (env.executedNode env.config.maxDepth []) args s,
      x.Within (Step.accessesInAll args) := by
  cases args with
  | nil =>
    intro x hx
    cases hx
  | cons p rest =>
    rw [executedAll, Step.accessesInAll, List.forall_mem_append]
    constructor
    · intro x hx
      have hp := within_of_mem_executed hs p (Shape.describes_initial _) x hx
      exact hp.mono (List.subset_append_left _ _)
    · apply forall_executedNext
      intro v _ x hx
      have ht := blank_run env p env.context.value hs
      exact (within_of_mem_executedAll ht rest x hx).mono (List.subset_append_right _ _)

end

end Environment

end FormulaPipeline
