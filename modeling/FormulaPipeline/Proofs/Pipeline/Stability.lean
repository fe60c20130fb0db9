import FormulaPipeline.Proofs.Value.Stability

/-!
# Stored pipelines are stable

Reading a document and writing what was read settles after one pass: the pipeline that was read is
read again from its own document. That holds of every array, also of one with steps that cannot be
read, at any depth; their documents and reasons are kept as they are.
-/

namespace FormulaPipeline

namespace Step

/-! ## Stable parts

What is assumed of the parts of a stored step: their documents are tidy, and the pipelines in them
are stable already. -/

structure Part.Stable (part : Part) : Prop where
  tidy : part.json.Tidy
  pipeline : ∀ p, part.pipeline () = some p → reloadedSteps p = p
  pipelines : ∀ ps, part.pipelines () = .ok ps → reloadedArgs ps = ps

def Fields.parts : Fields → List Part
  | .named members => members.map (·.2)
  | .listed items => items

def Fields.Stable (fields : Fields) : Prop := ∀ part ∈ fields.parts, part.Stable

namespace Fields

variable {α : Type} {fields rest : Fields} {part : Part}

theorem mem_parts_of_get? {index : Nat} {name : String}
    (h : fields.get? index name = some part) : part ∈ fields.parts := by
  cases fields with
  | named members => exact List.mem_map_of_mem (Keyed.mem_of_find? h)
  | listed items => exact List.mem_of_getElem? h

theorem Stable.tag? (h : fields.Stable) {name : String}
    (htag : fields.tag? name = some (part, rest)) : part.Stable ∧ rest.Stable := by
  cases fields with
  | named members =>
    obtain ⟨found, hfind, heq⟩ := Option.map_eq_some_iff.1 htag
    obtain ⟨rfl, rfl⟩ := Prod.mk.inj heq
    refine ⟨h _ (List.mem_map_of_mem (Keyed.mem_of_find? hfind)), fun other hother => ?_⟩
    obtain ⟨entry, hentry, rfl⟩ := List.mem_map.1 hother
    exact h _ (List.mem_map_of_mem (List.mem_of_mem_filter hentry))
  | listed items =>
    cases items with
    | nil => cases htag
    | cons first others =>
      obtain ⟨rfl, rfl⟩ := Prod.mk.inj (Option.some.inj htag)
      exact ⟨h _ List.mem_cons_self, fun other hother => h _ (List.mem_cons_of_mem _ hother)⟩

theorem eq_some_of_finish {owner : String} {readings : List Reading} {result : Option α} {a : α}
    (h : fields.finish owner readings result = .ok a) : result = some a := by
  unfold finish at h
  split at h
  · cases h
  · exact congrArg some (Except.ok.inj h)
  · cases h

/-- A field that was read is a part on which its reader succeeds. -/
theorem exists_of_fieldOf {index : Nat} {name : String} {reader : Part → Except StepFault α} {a : α}
    (h : fieldOf (fields.read index name reader) = some a) :
    ∃ part ∈ fields.parts, reader part = .ok a := by
  unfold read at h
  split at h
  · rename_i part hpart
    refine ⟨part, mem_parts_of_get? hpart, ?_⟩
    cases hread : reader part with
    | error fault => simp [hread, fieldOf, Except.map] at h
    | ok b => simpa [hread, fieldOf, Except.map] using h
  · simp [fieldOf] at h

end Fields

/-! ## Readers of stable fields -/

section Readers

variable {fields : Fields} {step : Step}

theorem reloaded_value (h : fields.Stable) {index : Nat} {name : String} {v : Value}
    (hv : fieldOf (fields.read index name readValue) = some v) : v.reloaded = v := by
  obtain ⟨part, hpart, hread⟩ := Fields.exists_of_fieldOf hv
  obtain rfl : Value.ofJson part.json = v := Except.ok.inj hread
  exact Value.reloaded_ofJson (h part hpart).tidy

theorem reloaded_valueD (h : fields.Stable) (index : Nat) (name : String) :
    ((fieldOf (fields.read index name readValue)).getD .null).reloaded =
      (fieldOf (fields.read index name readValue)).getD .null := by
  cases hv : fieldOf (fields.read index name readValue) with
  | none => rfl
  | some v => exact reloaded_value h hv

theorem reloaded_readLiteral (h : fields.Stable) (hstep : readLiteral fields = .ok step) :
    step.reloaded = step := by
  have hresult := Fields.eq_some_of_finish hstep
  simp only [bind, Option.bind_eq_some_iff, pure] at hresult
  obtain ⟨v, hv, type, -, heq⟩ := hresult
  obtain rfl := Option.some.inj heq
  rw [reloaded, reloaded_value h hv]

theorem reloaded_pipeline (h : fields.Stable) {index : Nat} {name : String} {p : Pipeline}
    (hp : fieldOf (fields.read index name readPipeline) = some p) : reloadedSteps p = p := by
  obtain ⟨part, hpart, hread⟩ := Fields.exists_of_fieldOf hp
  unfold readPipeline at hread
  split at hread
  · rename_i q hq
    obtain rfl : q = p := Except.ok.inj hread
    exact (h part hpart).pipeline q hq
  · cases hread

theorem reloaded_readArithmetic (h : fields.Stable) (hstep : readArithmetic fields = .ok step) :
    step.reloaded = step := by
  have hresult := Fields.eq_some_of_finish hstep
  simp only [bind, Option.bind_eq_some_iff, pure] at hresult
  obtain ⟨op, -, left, hleft, right, hright, heq⟩ := hresult
  obtain rfl := Option.some.inj heq
  rw [reloaded, reloaded_pipeline h hleft, reloaded_pipeline h hright]

theorem reloaded_readCall (h : fields.Stable) (hstep : readCall fields = .ok step) :
    step.reloaded = step := by
  have hresult := Fields.eq_some_of_finish hstep
  simp only [bind, Option.bind_eq_some_iff, pure] at hresult
  obtain ⟨name, -, heq⟩ := hresult
  obtain rfl := Option.some.inj heq
  rw [reloaded]
  cases hargs : fieldOf (fields.read 1 "args" fun part => part.pipelines ()) with
  | none => rfl
  | some ps =>
    obtain ⟨part, hpart, hread⟩ := Fields.exists_of_fieldOf hargs
    rw [Option.getD_some, (h part hpart).pipelines ps hread]

theorem reloaded_readAlter (h : fields.Stable) (hstep : readAlter fields = .ok step) :
    step.reloaded = step := by
  unfold readAlter at hstep
  split at hstep
  · cases hstep
  · rename_i tag rest htag
    have hrest : rest.Stable := (h.tag? htag).2
    cases hkind : readKind tag with
    | error fault =>
      rw [hkind] at hstep
      cases hstep
    | ok kind =>
      rw [hkind] at hstep
      simp only [bind, Except.bind] at hstep
      split at hstep
      · exact reloaded_readLiteral hrest hstep
      · exact reloaded_readArithmetic hrest hstep
      · exact reloaded_readCall hrest hstep

theorem reloaded_readConnect (hstep : readConnect fields = .ok step) : step.reloaded = step := by
  have hresult := Fields.eq_some_of_finish hstep
  simp only [bind, Option.bind_eq_some_iff, pure] at hresult
  obtain ⟨source, -, heq⟩ := hresult
  obtain rfl := Option.some.inj heq
  rfl

/-- The value of a condition is stable when the document of the condition is tidy. -/
theorem reloaded_readCondition {part : Part} (h : part.json.Tidy) {c : Condition}
    (hc : readCondition part = .ok c) : c.value.reloaded = c.value := by
  have hplain : ∀ {j : Json}, j.Tidy →
      Part.Stable ⟨j, fun _ => none, fun _ => .ok []⟩ := by
    intro j hj
    refine ⟨hj, fun p hp => ?_, fun ps hps => ?_⟩
    · cases hp
    · obtain rfl : [] = ps := Except.ok.inj hps
      rfl
  have hread : ∀ {inner : Fields}, inner.Stable → ∀ {readings : List Fields.Reading},
      inner.finish "struct Condition" readings (do
        return ⟨← fieldOf (inner.read 0 "field" readText),
          ← fieldOf (inner.read 1 "op" (readVariant Test.all Test.word)),
          (fieldOf (inner.read 2 "value" readValue)).getD .null⟩) = .ok c →
      c.value.reloaded = c.value := by
    intro inner hinner readings hfinish
    have hresult := Fields.eq_some_of_finish hfinish
    simp only [bind, Option.bind_eq_some_iff, pure] at hresult
    obtain ⟨field, -, test, -, heq⟩ := hresult
    obtain rfl := Option.some.inj heq
    exact reloaded_valueD hinner 2 "value"
  unfold readCondition at hc
  simp only at hc
  split at hc
  · rename_i members hjson
    rw [hjson] at h
    refine hread (fun other hother => ?_) hc
    rw [Fields.parts, List.map_map] at hother
    obtain ⟨⟨k, j⟩, hentry, rfl⟩ := List.mem_map.1 hother
    exact hplain (h.of_mem_members hentry)
  · rename_i items hjson
    rw [hjson] at h
    refine hread (fun other hother => ?_) hc
    obtain ⟨j, hj, rfl⟩ := List.mem_map.1 hother
    exact hplain (h.of_mem hj)
  · cases hc

theorem reloaded_readSegment (h : fields.Stable) (hstep : readSegment fields = .ok step) :
    step.reloaded = step := by
  have hresult := Fields.eq_some_of_finish hstep
  simp only [bind, Option.bind_eq_some_iff, pure] at hresult
  obtain ⟨c, hc, heq⟩ := hresult
  obtain rfl := Option.some.inj heq
  obtain ⟨part, hpart, hread⟩ := Fields.exists_of_fieldOf hc
  rw [reloaded, reloaded_readCondition (h part hpart).tidy hread]

theorem reloaded_readDesignate (hstep : readDesignate fields = .ok step) :
    step.reloaded = step := by
  have hresult := Fields.eq_some_of_finish hstep
  simp only [bind, Option.bind_eq_some_iff, pure] at hresult
  obtain ⟨property, -, heq⟩ := hresult
  obtain rfl := Option.some.inj heq
  rfl

theorem reloaded_readSynthesize (hstep : readSynthesize fields = .ok step) :
    step.reloaded = step := by
  have hresult := Fields.eq_some_of_finish hstep
  simp only [bind, Option.bind_eq_some_iff, pure] at hresult
  obtain ⟨mode, -, heq⟩ := hresult
  obtain rfl := Option.some.inj heq
  rfl

theorem reloaded_readDefault (h : fields.Stable) (hstep : readDefault fields = .ok step) :
    step.reloaded = step := by
  obtain rfl := Option.some.inj (Fields.eq_some_of_finish hstep)
  rw [reloaded, reloaded_valueD h]

theorem reloaded_readMalformed (h : fields.Stable) (hstep : readMalformed fields = .ok step) :
    step.reloaded = step := by
  have hresult := Fields.eq_some_of_finish hstep
  simp only [bind, Option.bind_eq_some_iff, pure] at hresult
  obtain ⟨raw, hraw, reason, -, heq⟩ := hresult
  obtain rfl := Option.some.inj heq
  obtain ⟨part, hpart, hread⟩ := Fields.exists_of_fieldOf hraw
  obtain rfl : part.json = raw := Except.ok.inj hread
  rw [reloaded, Json.canonical_of_ordered (h part hpart).tidy.ordered]

theorem reloaded_readFields (h : fields.Stable) (hstep : readFields fields = .ok step) :
    step.reloaded = step := by
  unfold readFields at hstep
  split at hstep
  · cases hstep
  · rename_i tag rest htag
    have hrest : rest.Stable := (h.tag? htag).2
    split at hstep
    · exact reloaded_readConnect hstep
    · exact reloaded_readSegment hrest hstep
    · exact reloaded_readDesignate hstep
    · exact reloaded_readSynthesize hstep
    · exact reloaded_readAlter hrest hstep
    · exact reloaded_readDefault hrest hstep
    · exact reloaded_readMalformed hrest hstep
    · cases hstep
    · cases hstep

end Readers

/-! ## What is read is stable -/

/-- A step that cannot be read keeps its document, so it is stable as well. -/
theorem reloaded_orMalformed {raw : Json} (hraw : raw.Tidy) {fields : Fields}
    (h : fields.Stable) :
    (orMalformed raw (readFields fields)).reloaded = orMalformed raw (readFields fields) := by
  cases hstep : readFields fields with
  | ok step => exact reloaded_readFields h hstep
  | error fault => rw [orMalformed, reloaded, Json.canonical_of_ordered hraw.ordered]

mutual

theorem reloaded_ofJson : ∀ {j : Json}, j.Tidy → (ofJson j).reloaded = ofJson j
  | .object members, h =>
    reloaded_orMalformed h fun part hpart => by
      obtain ⟨entry, hentry, rfl⟩ := List.mem_map.1 hpart
      exact stable_namedParts (fun k j hj => h.of_mem_members hj) entry hentry
  | .array items, h =>
    reloaded_orMalformed h (stable_listedParts fun j hj => h.of_mem hj)
  | .null, _ | .bool _, _ | .int _, _ | .float _, _ | .string _, _ => rfl

theorem stable_namedParts : ∀ {members : List (String × Json)},
    (∀ k j, (k, j) ∈ members → j.Tidy) → ∀ entry ∈ namedParts members, entry.2.Stable
  | [], _, _, hentry => by cases hentry
  | (k, j) :: rest, h, entry, hentry => by
    have hj : j.Tidy := h k j List.mem_cons_self
    rcases List.mem_cons.1 hentry with rfl | hentry
    · exact ⟨hj, fun p hp => reloaded_pipelineOf? hj hp, fun ps hps => reloaded_pipelinesOf hj hps⟩
    · exact stable_namedParts (fun k j hj => h k j (List.mem_cons_of_mem _ hj)) entry hentry

theorem stable_listedParts : ∀ {items : List Json}, (∀ j ∈ items, j.Tidy) →
    ∀ part ∈ listedParts items, part.Stable
  | [], _, _, hpart => by cases hpart
  | j :: rest, h, part, hpart => by
    have hj : j.Tidy := h j List.mem_cons_self
    rcases List.mem_cons.1 hpart with rfl | hpart
    · exact ⟨hj, fun p hp => reloaded_pipelineOf? hj hp, fun ps hps => reloaded_pipelinesOf hj hps⟩
    · exact stable_listedParts (fun j hj => h j (List.mem_cons_of_mem _ hj)) part hpart

theorem reloaded_pipelineOf? : ∀ {j : Json} {p : Pipeline}, j.Tidy → pipelineOf? j = some p →
    reloadedSteps p = p
  | .array items, p, h, hp => by
    obtain rfl : ofJsonItems items = p := Option.some.inj hp
    exact reloaded_ofJsonItems fun j hj => h.of_mem hj
  | .null, _, _, hp | .bool _, _, _, hp | .int _, _, _, hp | .float _, _, _, hp
  | .string _, _, _, hp | .object _, _, _, hp => by cases hp

theorem reloaded_ofJsonItems : ∀ {items : List Json}, (∀ j ∈ items, j.Tidy) →
    reloadedSteps (ofJsonItems items) = ofJsonItems items
  | [], _ => rfl
  | j :: rest, h => by
    rw [ofJsonItems, reloadedSteps, reloaded_ofJson (h j List.mem_cons_self),
      reloaded_ofJsonItems fun j hj => h j (List.mem_cons_of_mem _ hj)]

theorem reloaded_pipelinesOf : ∀ {j : Json} {ps : List Pipeline}, j.Tidy →
    pipelinesOf j = .ok ps → reloadedArgs ps = ps
  | .array items, ps, h, hps => reloaded_pipelinesOfItems (fun j hj => h.of_mem hj) hps
  | .null, _, _, hps | .bool _, _, _, hps | .int _, _, _, hps | .float _, _, _, hps
  | .string _, _, _, hps | .object _, _, _, hps => by cases hps

theorem reloaded_pipelinesOfItems : ∀ {items : List Json} {ps : List Pipeline},
    (∀ j ∈ items, j.Tidy) → pipelinesOfItems items = .ok ps → reloadedArgs ps = ps
  | [], ps, _, hps => by
    obtain rfl : [] = ps := Except.ok.inj hps
    rfl
  | j :: rest, ps, h, hps => by
    rw [pipelinesOfItems] at hps
    split at hps
    · rename_i p hp
      have hj : j.Tidy := h j List.mem_cons_self
      cases hrest : pipelinesOfItems rest with
      | error fault =>
        rw [hrest] at hps
        cases hps
      | ok others =>
        rw [hrest] at hps
        obtain rfl : p :: others = ps := Except.ok.inj hps
        rw [reloadedArgs, reloaded_pipelineOf? hj hp, reloaded_pipelinesOfItems
          (fun j hj => h j (List.mem_cons_of_mem _ hj)) hrest]
    · cases hps

end

theorem length_ofJsonItems (items : List Json) : (ofJsonItems items).length = items.length := by
  induction items with
  | nil => rfl
  | cons j rest ih => rw [ofJsonItems, List.length_cons, List.length_cons, ih]

end Step

namespace Pipeline

/-- An array is read as a pipeline with a step for each of its items, and the document of that
pipeline is read as the same pipeline. -/
theorem read_stable {items : List Json} (hordered : (Json.array items).Ordered)
    (hwritable : (Json.array items).Writable) :
    ∃ p, Pipeline.ofJson? (.array items) = some p ∧ p.length = items.length ∧
      Pipeline.ofJson? p.toJson = some p := by
  have htidy : (Json.array items).Tidy := ⟨hordered, hwritable⟩
  have hstable : Step.reloadedSteps (Step.ofJsonItems items) = Step.ofJsonItems items :=
    Step.reloaded_ofJsonItems fun j hj => htidy.of_mem hj
  refine ⟨Step.ofJsonItems items, rfl, Step.length_ofJsonItems items, ?_⟩
  rw [ofJson?, toJson, written, Json.canonical, Step.pipelineOf?, Step.ofJsonItems_toJsonSteps,
    hstable]

/-- An operand holds a step without its property and a record with a number for its id, and the last
step is no object. -/
theorem read_stable_of_malformed :
    let items : List Json :=
      [.object [("kind", .string "arithmetic"),
        ("left", .array [.object [("operator", .string "DESIGNATE")]]), ("op", .string "add"),
        ("operator", .string "ALTER"),
        ("right", .array [.object [("default", .object [("id", .int 7), ("values", .object [])]),
          ("operator", .string "NULL")]])],
        .null]
    ∃ p, Pipeline.ofJson? (.array items) = some p ∧ p.length = 2 ∧
      Pipeline.ofJson? p.toJson = some p := by
  intro items
  have hordered : (Json.array items).Ordered := by
    simp only [items, Json.Ordered, Json.OrderedItems, Json.OrderedMembers, Keyed.sorted_cons,
      Keyed.sorted_nil, List.forall_mem_cons, List.not_mem_nil, false_implies, implies_true,
      and_true]
    decide
  have hwritable : (Json.array items).Writable := by
    simp [items, Json.Writable, Json.WritableItems, Json.WritableMembers, Integer.least]
  exact read_stable hordered hwritable

end Pipeline

end FormulaPipeline
