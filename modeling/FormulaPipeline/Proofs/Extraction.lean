import FormulaPipeline.Proofs.Acyclicity
import FormulaPipeline.Proofs.Evaluation.Asked

/-!
# Extracted dependencies

The dependencies that are read off a pipeline hold every id that the pipeline asks the graph for,
except for ids that start with a mark of their own: a run takes one mark off a source, the
extraction takes off all of them.
-/

namespace FormulaPipeline

open Relation

namespace Step

def Marked (id : String) : Prop := id.toList.head? = some '#'

instance (id : String) : Decidable (Marked id) := by
  unfold Marked
  infer_instance

theorem sourceId_of_not_marked {id : String} (h : ¬Marked id) : sourceId id = id := by
  unfold Marked at h
  unfold sourceId
  cases hid : id.toList with
  | nil => rw [List.dropWhile_nil, ← hid, String.ofList_toList]
  | cons c rest =>
    have hc : c ≠ '#' := by simpa [hid] using h
    rw [List.dropWhile_cons_of_neg (by simpa using hc), ← hid, String.ofList_toList]

theorem not_marked_sourceId (source : String) : ¬Marked (sourceId source) := by
  rw [Marked, sourceId, String.toList_ofList]
  intro h
  have hnot := List.head?_dropWhile_not (· == '#') source.toList
  simp [h] at hnot

theorem sourceId_target (source : String) : sourceId (target source) = sourceId source := by
  unfold target
  split
  · rename_i id hid
    simp [sourceId, hid]
  · rfl

mutual

/-- The properties of the current record that a step reads. -/
def recordReads (fromRecord : Bool) : Step → List String
  | .designate property => if fromRecord then [property] else []
  | .arithmetic _ left right => recordReadsIn true left ++ recordReadsIn true right
  | .call _ args => recordReadsInAll args
  | _ => []

def recordReadsIn (fromRecord : Bool) : List Step → List String
  | [] => []
  | step :: rest =>
    recordReads fromRecord step ++ recordReadsIn (fromRecord && step.keepsInput) rest

def recordReadsInAll : List (List Step) → List String
  | [] => []
  | p :: rest => recordReadsIn true p ++ recordReadsInAll rest

end

variable {name : String}

/-- What is read is a target without its marks, or a property of the current record. -/
def ReadsAs (name : String) (targets properties : List String) : Prop :=
  (∃ x ∈ targets, sourceId x = name) ∨ name ∈ properties

theorem ReadsAs.append_iff {targets targets' properties properties' : List String} :
    ReadsAs name (targets ++ targets') (properties ++ properties') ↔
      ReadsAs name targets properties ∨ ReadsAs name targets' properties' := by
  simp only [ReadsAs, List.mem_append, or_and_right, exists_or]
  exact or_or_or_comm

mutual

theorem mem_reads_iff (fromRecord : Bool) (step : Step) :
    name ∈ reads fromRecord step ↔ ReadsAs name step.targets (recordReads fromRecord step) := by
  cases step with
  | connect source =>
    simp [reads, targets, recordReads, ReadsAs, sourceId_target, eq_comm]
  | arithmetic op left right =>
    rw [reads, targets, recordReads, List.mem_append, ReadsAs.append_iff,
      mem_readsSteps_iff true left, mem_readsSteps_iff true right]
  | call name args =>
    rw [reads, targets, recordReads, mem_readsArgs_iff args]
  | segment | designate | synthesize | literal | default | malformed =>
    simp [reads, targets, recordReads, ReadsAs]

theorem mem_readsSteps_iff (fromRecord : Bool) (p : List Step) :
    name ∈ readsSteps fromRecord p ↔ ReadsAs name (targetsIn p) (recordReadsIn fromRecord p) := by
  cases p with
  | nil => simp [readsSteps, targetsIn, recordReadsIn, ReadsAs]
  | cons step rest =>
    rw [readsSteps, targetsIn, recordReadsIn, List.mem_append, ReadsAs.append_iff,
      mem_reads_iff fromRecord step, mem_readsSteps_iff _ rest]

theorem mem_readsArgs_iff (args : List (List Step)) :
    name ∈ readsArgs args ↔ ReadsAs name (targetsInAll args) (recordReadsInAll args) := by
  cases args with
  | nil => simp [readsArgs, targetsInAll, recordReadsInAll, ReadsAs]
  | cons p rest =>
    rw [readsArgs, targetsInAll, recordReadsInAll, List.mem_append, ReadsAs.append_iff,
      mem_readsSteps_iff true p, mem_readsArgs_iff rest]

end

end Step

namespace Pipeline

/-- The extraction sees an id that the pipeline looks up: it has no mark, or it is also the name of
a property that the pipeline reads. -/
def Sees (p : Pipeline) (id : String) : Prop :=
  ¬Step.Marked id ∨ id ∈ Step.recordReadsIn true p

theorem mem_dependencies_iff {p : Pipeline} {id : String} (h : id ∈ p.targets) :
    id ∈ p.dependencies ↔ p.Sees id := by
  rw [dependencies, Keyed.mem_sortNames, Step.mem_readsSteps_iff]
  refine or_congr_left ⟨?_, fun hplain => ⟨id, h, Step.sourceId_of_not_marked hplain⟩⟩
  rintro ⟨source, -, rfl⟩
  exact Step.not_marked_sourceId source

end Pipeline

def Node.Extracted (n : Node) : Prop := n.dependencies = n.pipeline.dependencies

theorem NodeDefinition.dependencies_of_complete {d d' : NodeDefinition}
    (hnone : d.dependencies = []) (h : d.complete = .ok d') :
    d'.dependencies = d'.pipeline.dependencies := by
  unfold complete at h
  split at h
  · rename_i formula _ _
    cases hformula : Pipeline.ofFormula formula with
    | error e => simp [hformula, bind, Except.bind] at h
    | ok p =>
      simp only [hformula, bind, Except.bind, pure, Except.pure, Except.ok.injEq] at h
      rw [← h]
      rfl
  · rw [if_pos (by simp [hnone])] at h
    rw [← Except.ok.inj h]
    rfl

namespace Graph

variable {g : Graph}

/-- The graph after a node is defined anew, removed or invalidated. -/
inductive Changed (g : Graph) (id : String) : Graph → Prop
  | redefined {d : NodeDefinition} {g' : Graph} (h : g.define id d = .ok g') : Changed g id g'
  | removed (h : g.contains id = true) : Changed g id (g.remove id)
  | invalidated : Changed g id (g.markDirty id)

/-- A node with extracted dependencies looks up an id that the extraction sees. -/
def Reads (g : Graph) (a b : String) : Prop :=
  ∃ node, g.find? a = some node ∧ node.Extracted ∧ b ∈ node.pipeline.targets ∧
    node.pipeline.Sees b

theorem Reads.lists {a b : String} (h : g.Reads a b) : g.Lists a b := by
  obtain ⟨node, hnode, hextracted, htarget, hsees⟩ := h
  refine lists_iff.2 ⟨node, hnode, ?_⟩
  rw [hextracted]
  exact (Pipeline.mem_dependencies_iff htarget).2 hsees

theorem dirty_of_reaches {id x : String} {node : Node} (hreach : ReflTransGen g.Lists x id)
    (hnode : (g.markDirty id).find? x = some node) : node.dirty = true := by
  rw [find?_markDirty, Option.map_eq_some_iff] at hnode
  obtain ⟨old, -, rfl⟩ := hnode
  rw [if_pos (List.contains_iff_mem.2 (mem_affected.2 hreach))]

theorem Lists.dirty_of_changed {a b : String} (h : g.Lists a b) {g' : Graph}
    (hchanged : g.Changed b g') {node : Node} (hnode : g'.find? a = some node) :
    node.dirty = true := by
  cases hchanged with
  | redefined hdefine =>
    rw [define_eq_ok_iff] at hdefine
    rw [hdefine.2] at hnode
    refine dirty_of_reaches ?_ hnode
    by_cases hne : b = a
    · rw [hne]
    · exact .single (lists_put.2 (.inr ⟨hne, h⟩))
  | removed hb =>
    rw [remove_eq, if_pos hb] at hnode
    refine dirty_of_reaches ?_ hnode
    by_cases hne : b = a
    · rw [hne]
    · exact .single (lists_drop.2 ⟨hne, h⟩)
  | invalidated => exact dirty_of_reaches (.single h) hnode

theorem Acyclic.not_reads_cycle (h : g.Acyclic) (id : String) : ¬TransGen g.Reads id id :=
  fun hcycle => h id (TransGen.mono (fun _ _ hreads => hreads.lists) id id hcycle)

theorem find?_of_define {id : String} {d : NodeDefinition} {g' : Graph}
    (h : g.define id d = .ok g') : g'.find? id = some (Node.ofDefinition id d) := by
  rw [define_eq_ok_iff] at h
  rw [h.2, find?_markDirty, find?_put, if_pos rfl]
  simp [Node.ofDefinition]

end Graph

namespace Calculator

theorem extracted_of_define {c c' : Calculator} {id : String} {d : NodeDefinition}
    (hnone : d.dependencies = []) (h : c.define id d = .ok c') :
    ∃ node, c'.graph.find? id = some node ∧ node.Extracted := by
  unfold define at h
  cases hcomplete : d.complete with
  | error e => simp [hcomplete] at h
  | ok d' =>
    cases hdefine : c.graph.define id d' with
    | error cycle => simp [hcomplete, hdefine] at h
    | ok g =>
      simp only [hcomplete, hdefine, Except.ok.injEq] at h
      rw [← h]
      exact ⟨_, Graph.find?_of_define hdefine,
        NodeDefinition.dependencies_of_complete hnone hcomplete⟩

/-- The ids that a run asks for are extracted exactly when the extraction sees them. After any
operations a node with extracted dependencies is dirty once something is changed that it looks up
and the extraction sees, and such lookups close no cycle. -/
theorem extraction_exact (config : Config) (ops : List Operation) :
    let c := after { config := config } ops
    (∀ (env : Environment) visit (p : Pipeline) input s, ∀ id ∈ env.asked visit p input s,
        id ∈ p.dependencies ↔ p.Sees id) ∧
      (∀ id d c', d.dependencies = [] → c.define id d = .ok c' →
        ∃ node, c'.graph.find? id = some node ∧ node.Extracted) ∧
      (∀ a b, c.graph.Reads a b → ∀ g, c.graph.Changed b g → ∀ node, g.find? a = some node →
        node.dirty = true) ∧
      ∀ id, ¬TransGen c.graph.Reads id id := by
  intro c
  have hc : c.graph.WellFormed := wellFormed_after (c := { config := config }) .empty ops
  refine ⟨fun env visit p input s id hid => ?_, fun id d c' => extracted_of_define,
    fun a b hreads g hchanged node => hreads.lists.dirty_of_changed hchanged,
    hc.acyclic.not_reads_cycle⟩
  exact Pipeline.mem_dependencies_iff (Environment.asked_subset_targets p input s id hid)

/-- A pipeline with a source of two marks asks for an id that is not extracted. A node with this
pipeline keeps its value when that id is defined anew. -/
theorem extraction_misses_second_mark :
    let context := Context.atTime DateTime.epoch
    let env : Environment := ⟨{}, context⟩
    let p : Pipeline := [.connect "##x"]
    let c := after {} [.define "#x" { pipeline := [.literal (.bool false) .boolean] },
      .define "a" { pipeline := p },
      .evaluate context "a",
      .define "#x" { pipeline := [.literal (.bool true) .boolean] }]
    env.asked env.visitTop p .null (Session.start {}) = ["#x"] ∧ p.dependencies = ["x"] ∧
      (c.evaluate context "a").1.value == .bool false ∧
      ((c.withGraph c.graph.pristine).evaluate context "a").1.value == .bool true := by
  decide +kernel

end Calculator

end FormulaPipeline
