import FormulaPipeline.Calculator
import FormulaPipeline.Proofs.Evaluation.Access

/-!
# What a formula reads from the record

Two runs of a pipeline on different records are the same as long as each executed step of the first
one takes the same from both records. The dependencies of a formula cover what its steps take, apart
from stray properties: a property of a value that turns out to be neither an array nor a record is
read from the current record, although it is not listed.
-/

namespace FormulaPipeline

open Step (Access)

def DataSource.IgnoresRecord (source : DataSource) : Prop :=
  ∀ r r' name, source.linked? r name = source.linked? r' name

namespace Context

/-- Two records agree on a name and on what the declared fields pair with it. -/
structure Alike (c : Context) (r r' : Record) (name : String) : Prop where
  stored : r.get? name = r'.get? name
  named : ∀ set, c.set = some set → ∀ field ∈ set.fields, field.name = name →
    r.get? field.id = r'.get? field.id
  identified : ∀ set, c.set = some set → ∀ field ∈ set.fields, field.id = name →
    r.get? field.name = r'.get? field.name

variable {c : Context} {r r' : Record} {name : String}

theorem Alike.readField?_eq (h : c.Alike r r' name) :
    c.readField? r name = c.readField? r' name := by
  have hnamed : ((c.set.bind (·.fieldNamed? name)).bind fun field => r.get? field.id) =
      (c.set.bind (·.fieldNamed? name)).bind fun field => r'.get? field.id := by
    refine Option.bind_congr fun field hfield => ?_
    obtain ⟨set, hset, hfound⟩ := Option.bind_eq_some_iff.1 hfield
    exact h.named set hset field (List.mem_of_find?_eq_some hfound)
      (by simpa using List.find?_some hfound)
  have hidentified : ((c.set.bind (·.fieldWithId? name)).bind fun field => r.get? field.name) =
      (c.set.bind (·.fieldWithId? name)).bind fun field => r'.get? field.name := by
    refine Option.bind_congr fun field hfield => ?_
    obtain ⟨set, hset, hfound⟩ := Option.bind_eq_some_iff.1 hfield
    exact h.identified set hset field (List.mem_of_find?_eq_some hfound)
      (by simpa using List.find?_some hfound)
  unfold readField?
  rw [h.stored, hnamed, hidentified]

theorem Alike.readRecord_eq (h : c.Alike r r' name) :
    (c.withRecord (some r)).readRecord name = (c.withRecord (some r')).readRecord name := by
  have hfield : (c.withRecord (some r)).readField? r name =
      (c.withRecord (some r')).readField? r' name := h.readField?_eq
  simp only [readRecord, withRecord, Option.some_or] at hfield ⊢
  rw [hfield]

end Context

namespace Builtin

def IgnoresRecord (f : Builtin) : Prop := ∀ args r r' now, f args ⟨r, now⟩ = f args ⟨r', now⟩

theorem catalog_ignoresRecord :
    ∀ entry ∈ catalog, entry.1 ≠ "RECORD_ID" → IgnoresRecord entry.2 := by
  have hplain : ∀ f, (plain f).IgnoresRecord := fun f args r r' time => rfl
  have hnow : IgnoresRecord now := fun args r r' time => rfl
  have htoday : IgnoresRecord today := fun args r r' time => rfl
  simp [catalog, hplain, hnow, htoday]

end Builtin

/-! ## Runs on two records -/

/-- An executed step takes the same from two records. -/
structure Execution.Blind (env : Environment) (r r' : Record) (x : Execution) : Prop where
  property : ∀ name, x.property? = some name → env.context.Alike r r' name
  callee : ∀ name, x.callee? = some name →
    env.config.functions.get? name = none ∧ Text.asciiUpper name ≠ "RECORD_ID"

namespace Environment

def on (env : Environment) (r : Record) : Environment :=
  { env with context := env.context.withRecord (some r) }

def Twins (s t : Session) : Prop := s = t ∧ s.Blank

variable {env : Environment} {r r' : Record}

theorem designate_on {property : String} {input : Value} {result : Outcome}
    (h : Execution.Blind env r r' ⟨.designate property, input, result⟩) :
    (env.on r).context.designate property input = (env.on r').context.designate property input := by
  have hscalar : input.isRecordLike = false → (∀ items, input ≠ .array items) →
      env.context.Alike r r' property := by
    intro hrecord harray
    apply h.property
    cases input <;> simp_all [Execution.property?]
  cases input with
  | array items => rfl
  | object members => rfl
  | record id fields => rfl
  | null | bool | int | float | text => exact (hscalar rfl (by simp)).readRecord_eq

theorem call_on {name : String} (args : List Value) {s : Session} (hs : s.Blank)
    (hhost : env.config.functions.get? name = none) (hname : Text.asciiUpper name ≠ "RECORD_ID") :
    Agree Twins ((env.on r).call name args s) ((env.on r').call name args s) := by
  have h : ∀ r, (env.on r).config.functions.get? name = none := fun _ => hhost
  unfold call
  simp only [h]
  cases hbuiltin : Builtin.ofName? name with
  | none => exact ⟨rfl, rfl, hs⟩
  | some f =>
    have hf := Builtin.catalog_ignoresRecord _ (Builtin.mem_catalog_of_ofName? hbuiltin) hname
    exact ⟨hf args _ _ _, rfl, hs⟩

theorem fromSource?_on
    (hsource : ∀ source, env.config.source = some source → source.IgnoresRecord) (r r' : Record)
    (name : String) : (env.on r).fromSource? name = (env.on r').fromSource? name := by
  unfold fromSource?
  cases h : env.config.source with
  | none => simp [on, h]
  | some source =>
    have hlinked := hsource source h r r' name
    simp [on, h, Context.withRecord, hlinked]

/-- The data source ignores the record, and so do visits. -/
structure Twinned (env : Environment) (r r' : Record) (visit visit' : Visit) : Prop where
  source : ∀ source, env.config.source = some source → source.IgnoresRecord
  visited : ∀ id s, s.Blank → Agree Twins (visit id s) (visit' id s)

namespace Twinned

variable {visit visit' : Visit} {inside : String → Session → List Execution}

theorem connect (T : env.Twinned r r' visit visit') (source : String) {s : Session}
    (hs : s.Blank) :
    Agree Twins ((env.on r).connect visit source s) ((env.on r').connect visit' source s) := by
  unfold Environment.connect
  split
  · exact T.visited _ s hs
  · simp only [hs.contains_eq_false, Bool.false_eq_true, if_false, connectData,
      fromSource?_on T.source r r' source]
    split
    · exact ⟨rfl, rfl, hs⟩
    · split
      · exact ⟨rfl, rfl, hs⟩
      · exact ⟨rfl, rfl, hs⟩

mutual

/-- A step does the same on either record if it is blind, and all that is executed in it. -/
theorem apply (T : env.Twinned r r' visit visit') (step : Step) {input : Value} {s : Session}
    (hs : s.Blank)
    (hwithin : ∀ x ∈ (env.on r).executedWithin visit inside step s, x.Blind env r r')
    (hstep : Execution.Blind env r r' ⟨step, input, ((env.on r).apply visit step input s).1⟩) :
    Agree Twins ((env.on r).apply visit step input s) ((env.on r').apply visit' step input s) := by
  cases step with
  | connect source =>
    rw [Environment.apply, Environment.apply]
    exact T.connect source hs
  | designate property =>
    rw [Environment.apply, Environment.apply]
    exact ⟨designate_on hstep, rfl, hs⟩
  | arithmetic op left right =>
    rw [executedWithin, List.forall_mem_append] at hwithin
    rw [apply_arithmetic, apply_arithmetic]
    refine (T.run left hs hwithin.1).andThen_executed hwithin.2 ?_
    rintro a t _ ⟨rfl, ht⟩ hright
    refine (T.run right ht hright).andThen ?_
    rintro b u _ ⟨rfl, hu⟩
    exact ⟨rfl, rfl, hu⟩
  | call name args =>
    obtain ⟨hhost, hname⟩ := hstep.callee name rfl
    rw [executedWithin] at hwithin
    rw [apply_call, apply_call]
    refine (T.runAll args hs hwithin).andThen ?_
    rintro values t _ ⟨rfl, ht⟩
    exact call_on values ht hhost hname
  | segment | synthesize | literal | default | malformed =>
    rw [Environment.apply, Environment.apply]
    exact ⟨rfl, rfl, hs⟩

theorem run (T : env.Twinned r r' visit visit') (p : List Step) {input : Value} {s : Session}
    (hs : s.Blank)
    (hexecuted : ∀ x ∈ (env.on r).executed visit inside p input s, x.Blind env r r') :
    Agree Twins ((env.on r).run visit p input s) ((env.on r').run visit' p input s) := by
  cases p with
  | nil => exact ⟨rfl, rfl, hs⟩
  | cons step rest =>
    obtain ⟨hwithin, hstep, hrest⟩ := forall_executed_cons.1 hexecuted
    rw [run_cons, run_cons]
    refine (T.apply step hs hwithin hstep).andThen_executed hrest ?_
    rintro output t _ ⟨rfl, ht⟩ hrest
    exact T.run rest ht hrest

theorem runAll (T : env.Twinned r r' visit visit') (args : List (List Step)) {s : Session}
    (hs : s.Blank)
    (hexecuted : ∀ x ∈ (env.on r).executedAll visit inside args s, x.Blind env r r') :
    Agree Twins ((env.on r).runAll visit args s) ((env.on r').runAll visit' args s) := by
  cases args with
  | nil => exact ⟨rfl, rfl, hs⟩
  | cons p rest =>
    rw [executedAll, List.forall_mem_append] at hexecuted
    rw [runAll_cons, runAll_cons]
    refine (T.run p hs hexecuted.1).andThen_executed hexecuted.2 ?_
    rintro v t _ ⟨rfl, ht⟩ hrest
    refine (T.runAll rest ht hrest).andThen ?_
    rintro values u _ ⟨rfl, hu⟩
    exact ⟨rfl, rfl, hu⟩

end

theorem runTraced (T : env.Twinned r r' visit visit') (p : List Step) {input : Value}
    {s : Session} (hs : s.Blank)
    (hexecuted : ∀ x ∈ (env.on r).executed visit inside p input s, x.Blind env r r') :
    (env.on r).runTraced visit p input s = (env.on r').runTraced visit' p input s := by
  induction p generalizing input s with
  | nil => rfl
  | cons step rest ih =>
    obtain ⟨hwithin, hstep, hrest⟩ := forall_executed_cons.1 hexecuted
    obtain ⟨hresult, hsession, ht⟩ := T.apply step hs hwithin hstep
    have happly := Prod.ext hresult hsession
    simp only [Environment.runTraced, ← happly]
    generalize (env.on r).apply visit step input s = applied at ht hrest
    rcases applied with ⟨e | output, t⟩
    · rfl
    · simp only [ih ht hrest]

end Twinned

end Environment

namespace Calculator

/-- Whether a run on a record takes a property from it. -/
def Takes (c : Calculator) (context : Context) (p : Pipeline) (name : String) : Prop :=
  ∃ x ∈ executedByPipeline c.config context c.memory p, x.property? = some name

instance (c : Calculator) (context : Context) (p : Pipeline) (name : String) :
    Decidable (c.Takes context p name) := by
  unfold Takes
  infer_instance

/-- Without nodes, and with a data source that ignores the record, a formula without calls of the
host and of `RECORD_ID` does the same on two records that agree on its dependencies and on the stray
properties that are taken from one of them. -/
theorem evaluateFormula_eq_of_alike {c : Calculator} {context : Context} {text : String}
    {p : Pipeline} (hcompile : Pipeline.ofFormula text = .ok p) (hnodes : c.graph.nodes = [])
    (hsource : ∀ source, c.config.source = some source → source.IgnoresRecord)
    (hcalls : ∀ name, .call name ∈ p.accesses →
      c.config.functions.get? name = none ∧ Text.asciiUpper name ≠ "RECORD_ID")
    {r r' : Record} (hlisted : ∀ name ∈ p.dependencies, context.Alike r r' name)
    (hstray : ∀ name, .stray name ∈ p.accesses → c.Takes (context.withRecord (some r)) p name →
      context.Alike r r' name) :
    c.evaluateFormula (context.withRecord (some r)) text =
      c.evaluateFormula (context.withRecord (some r')) text := by
  let env : Environment := ⟨c.config, context⟩
  have hblank : (Session.start c.memory).Blank := hnodes
  have hblind : ∀ x ∈ executedByPipeline c.config (context.withRecord (some r)) c.memory p,
      x.Blind env r r' := by
    intro x hx
    have hwithin : x.Within p.accesses :=
      Environment.within_of_mem_executed hblank p (Step.Shape.describes_initial _) x hx
    refine ⟨fun name hname => ?_, fun name hname => hcalls name (hwithin.callee name hname)⟩
    rcases hwithin.property name hname with hdependency | hunlisted
    · exact hlisted name (Pipeline.mem_dependencies_of_listed hdependency)
    · exact hstray name hunlisted ⟨x, hx, hname⟩
  have T : env.Twinned r r' (env.on r).visitTop (env.on r').visitTop :=
    { source := hsource
      visited := by
        intro id s hs
        rw [Environment.visitTop_of_blank hs, Environment.visitTop_of_blank hs]
        exact ⟨rfl, rfl, hs⟩ }
  have hruns : (env.on r).runTraced (env.on r).visitTop p context.value (Session.start c.memory) =
      (env.on r').runTraced (env.on r').visitTop p context.value (Session.start c.memory) :=
    T.runTraced p hblank hblind
  have hstart : ∀ r, (context.withRecord (some r)).value = context.value := fun _ => rfl
  unfold Environment.on at hruns
  simp only [evaluateFormula, hcompile, runPipeline, evaluatePipeline, hstart]
  rw [hruns]

/-- A total that is taken from the first order, and a field that is stored under its id. -/
theorem evaluateFormula_eq_of_other_note :
    let orders : RecordSet := ⟨"Orders", [⟨some "o1", [("Total", .int 5)]⟩], []⟩
    let source : DataSource := { set? := fun _ => some orders, linked? := fun _ _ => none }
    let c : Calculator := { config := { source := some source } }
    let context : Context :=
      { Context.atTime DateTime.epoch with set := some ⟨"current", [], [⟨"f1", "Amount"⟩]⟩ }
    let row (note : String) : Record := ⟨some note, [("Note", .text note), ("f1", .int 2)]⟩
    let text := "#Orders.FIRST().Total * SUM(\x7bAmount\x7d, 1)"
    c.evaluateFormula (context.withRecord (some (row "first"))) text =
      c.evaluateFormula (context.withRecord (some (row "second"))) text := by
  intro orders source c context row text
  obtain ⟨p, hcompile, hcheck⟩ := @Pipeline.exists_ofFormula text
    (fun p => decide (p.accesses = [.stray "Total", .call "SUM", .listed "Amount"] ∧
      p.dependencies = ["Amount", "Orders"] ∧
      ¬c.Takes (context.withRecord (some (row "first"))) p "Total"))
    (by decide +kernel)
  obtain ⟨haccesses, hdependencies, htotal⟩ := of_decide_eq_true hcheck
  have hrows : ∀ name ∈ ["Amount", "f1", "Orders"],
      (row "first").get? name = (row "second").get? name := by
    simp [row, Record.get?, Keyed.find?]
  have halike : ∀ name ∈ ["Amount", "Orders"],
      context.Alike (row "first") (row "second") name := by
    intro name hname
    refine ⟨hrows name ?_, ?_, ?_⟩
    · rcases List.mem_pair.1 hname with rfl | rfl <;> simp
    · intro set hset field hfield _
      obtain rfl := Option.some.inj hset
      obtain rfl := List.mem_singleton.1 hfield
      exact hrows "f1" (by simp)
    · intro set hset field hfield _
      obtain rfl := Option.some.inj hset
      obtain rfl := List.mem_singleton.1 hfield
      exact hrows "Amount" (by simp)
  refine evaluateFormula_eq_of_alike hcompile rfl ?_ ?_ (by rwa [hdependencies]) ?_
  · intro source hsource r r' name
    obtain rfl := Option.some.inj hsource
    rfl
  · intro name hname
    have hsum : name = "SUM" := by simpa [haccesses] using hname
    rw [hsum]
    exact ⟨rfl, by decide⟩
  · intro name hname htakes
    have hname : name = "Total" := by simpa [haccesses] using hname
    exact (htotal (hname ▸ htakes)).elim

/-- A property of a number is read from the current record and not listed. -/
theorem evaluateFormula_ne_of_second_property :
    let context := Context.atTime DateTime.epoch
    let row (b : Int64) : Record := ⟨none, [("A", .int 1), ("B", .int b)]⟩
    (∃ p, Pipeline.ofFormula "\x7bA\x7d.B" = .ok p ∧ p.accesses = [.listed "A", .stray "B"] ∧
        p.dependencies = ["A"]) ∧
      context.Alike (row 2) (row 3) "A" ∧
      (({} : Calculator).evaluateFormula (context.withRecord (some (row 2)))
        "\x7bA\x7d.B").1.outcome ≠
        (({} : Calculator).evaluateFormula (context.withRecord (some (row 3)))
          "\x7bA\x7d.B").1.outcome := by
  intro context row
  refine ⟨?_, ?_, fun hsame => ?_⟩
  · obtain ⟨p, hcompile, hcheck⟩ := @Pipeline.exists_ofFormula "\x7bA\x7d.B"
      (fun p => decide (p.accesses = [.listed "A", .stray "B"] ∧ p.dependencies = ["A"]))
      (by decide +kernel)
    exact ⟨p, hcompile, of_decide_eq_true hcheck⟩
  · refine ⟨rfl, ?_, ?_⟩ <;>
    · intro set hset
      cases hset
  · have hvalue := congrArg (fun o => Outcome.value o == .int 2) hsame
    revert hvalue
    decide +kernel

end Calculator

end FormulaPipeline
