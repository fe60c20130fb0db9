import FormulaPipeline.Pipeline.Document
import FormulaPipeline.Proofs.Keyed

/-!
# Reading back steps

The document of a step is read as the step itself, up to its values: those are replaced by what
their own documents are read as.
-/

namespace FormulaPipeline

/-- What the document of a value is read as. -/
def Value.reloaded (v : Value) : Value := .ofJson v.toJson.canonical

theorem Value.ofNumber_toInt (n : Int64) : ofNumber n.toInt = .int n := by
  have hrange : Integer.least ≤ n.toInt ∧ n.toInt ≤ Integer.greatest :=
    ⟨Int64.le_toInt n, Int.le_of_lt_add_one (Int64.toInt_lt n)⟩
  rw [ofNumber, Integer.ofInt?, if_pos hrange, Int64.ofInt_toInt]

namespace Step

mutual

/-- The step with its values replaced by what their documents are read as. -/
def reloaded : Step → Step
  | .connect source => .connect source
  | .segment c => .segment ⟨c.field, c.test, c.value.reloaded⟩
  | .designate property => .designate property
  | .synthesize mode property separator => .synthesize mode property separator
  | .literal value type => .literal value.reloaded type
  | .arithmetic op left right => .arithmetic op (reloadedSteps left) (reloadedSteps right)
  | .call name args => .call name (reloadedArgs args)
  | .default value => .default value.reloaded
  | .malformed raw reason => .malformed raw.canonical reason

def reloadedSteps : List Step → List Step
  | [] => []
  | step :: rest => reloaded step :: reloadedSteps rest

def reloadedArgs : List (List Step) → List (List Step)
  | [] => []
  | p :: rest => reloadedSteps p :: reloadedArgs rest

end

/-! ## Fields -/

namespace Fields

variable {α : Type} {members : List (String × Part)}

/-- Fields that are all read, or may be missing, are not refused. -/
theorem finish_named {owner : String} {readings : List Reading} {a : α}
    (h : ∀ o ∈ readings, ∃ present, o.result = .ok present ∧ (present = true ∨ o.optional = true)) :
    (named members).finish owner readings (some a) = .ok a := by
  have hnamed : namedFault? readings = none := by
    rw [namedFault?, List.findSome?_eq_none_iff]
    rintro ⟨name, result⟩ hmem
    obtain ⟨o, ho, heq⟩ := List.mem_map.1 (Keyed.mem_of_mem_ofList hmem)
    obtain ⟨present, hresult, -⟩ := h o ho
    obtain rfl : o.result = result := congrArg Prod.snd heq
    rw [hresult]
  have hmissing : missingFault? readings = none := by
    rw [missingFault?, List.findSome?_eq_none_iff]
    intro o ho
    obtain ⟨present, hresult, hpresent⟩ := h o ho
    cases present with
    | true => rw [hresult]
    | false => simp [hresult, hpresent.resolve_left Bool.false_ne_true]
  have hfault : fault? owner readings (named members) = none := by
    simp only [fault?, hnamed, hmissing, Option.or_none]
  rw [finish.eq_def, hfault]

theorem read_named {index : Nat} {name : String} {reader : Part → Except StepFault α} {part : Part}
    {a : α} (hfind : Keyed.find? name members = some part) (hread : reader part = .ok a) :
    (named members).read index name reader = .ok (some a) := by
  rw [read, get?, hfind]
  simp only [hread]
  rfl

theorem read_missing {index : Nat} {name : String} {reader : Part → Except StepFault α}
    (hfind : Keyed.find? name members = none) :
    (named members).read index name reader = .ok none := by
  rw [read, get?, hfind]

end Fields

theorem readVariant_word {α : Type} {all : List α} {word : α → String} {a : α} {part : Part}
    (hpart : part.json = .string (word a)) (h : ofWord? all word (word a) = some a) :
    readVariant all word part = .ok a := by
  rw [readVariant, hpart]
  simp [readWord, h]

theorem ofWord_aggregation (mode : Aggregation) :
    ofWord? Aggregation.all Aggregation.word mode.word = some mode := by cases mode <;> rfl

theorem ofWord_binaryOp (op : BinaryOp) : ofWord? BinaryOp.all BinaryOp.word op.word = some op := by
  cases op <;> rfl

theorem ofWord_test (test : Test) : ofWord? Test.all Test.word test.word = some test := by
  cases test <;> rfl

theorem ofWord_literalType (type : LiteralType) :
    ofWord? LiteralType.all LiteralType.word type.word = some type := by cases type <;> rfl

/-! ## Readers of fields that are there -/

section Readers

variable {members : List (String × Part)} {part part' part'' : Part}

@[simp] theorem Fields.result_reading_some {α : Type} (name : String) (optional : Bool) (a : α) :
    (Fields.reading name optional (.ok (some a))).result = .ok true := rfl

@[simp] theorem Fields.result_reading_none {α : Type} (name : String) (optional : Bool) :
    (Fields.reading name optional (.ok (none : Option α))).result = .ok false := rfl

@[simp] theorem Fields.optional_reading {α : Type} (name : String) (optional : Bool)
    (r : Except StepFault (Option α)) : (Fields.reading name optional r).optional = optional := rfl

theorem readText_string {s : String} (hpart : part.json = .string s) : readText part = .ok s := by
  rw [readText, hpart]

theorem readValue_part (part : Part) : readValue part = .ok (.ofJson part.json) := rfl

theorem readConnect_named {source : String} (hsource : Keyed.find? "source" members = some part)
    (hpart : part.json = .string source) :
    readConnect (.named members) = .ok (.connect source) := by
  rw [readConnect, Fields.read_named hsource (readText_string hpart)]
  exact Fields.finish_named (by simp)

theorem readCondition_object {field : String} {test : Test} {j : Json}
    (hpart : part.json =
      .object [("field", .string field), ("op", .string test.word), ("value", j)]) :
    readCondition part = .ok ⟨field, test, .ofJson j⟩ := by
  unfold readCondition
  simp only [hpart, List.map_cons, List.map_nil]
  rw [Fields.read_named rfl (readText_string rfl),
    Fields.read_named rfl (readVariant_word rfl (ofWord_test test)),
    Fields.read_named rfl (readValue_part _)]
  exact Fields.finish_named (by simp)

theorem readSegment_named {c : Condition} (hcondition : Keyed.find? "condition" members = some part)
    (hpart : readCondition part = .ok c) : readSegment (.named members) = .ok (.segment c) := by
  rw [readSegment, Fields.read_named hcondition hpart]
  exact Fields.finish_named (by simp)

theorem readDesignate_named {property : String}
    (hproperty : Keyed.find? "property" members = some part)
    (hpart : part.json = .string property) :
    readDesignate (.named members) = .ok (.designate property) := by
  rw [readDesignate, Fields.read_named hproperty (readText_string hpart)]
  exact Fields.finish_named (by simp)

/-- An optional text is left out when there is none. -/
theorem read_optionalText {index : Nat} {name : String} {text : Option String}
    (hfind : (Keyed.find? name members).map Part.json = text.map .string) :
    ∃ r, (Fields.named members).read index name readOptionalText = .ok r ∧ r.join = text := by
  cases text with
  | none => exact ⟨none, Fields.read_missing (by simpa using hfind), rfl⟩
  | some s =>
    obtain ⟨part, hpart, hjson⟩ := Option.map_eq_some_iff.1 hfind
    refine ⟨some (some s), Fields.read_named hpart ?_, rfl⟩
    simp [readOptionalText, readText, hjson, Except.map]

theorem readSynthesize_named {mode : Aggregation} {property separator : Option String}
    (hmode : Keyed.find? "mode" members = some part) (hpart : part.json = .string mode.word)
    (hproperty : (Keyed.find? "property" members).map Part.json = property.map .string)
    (hseparator : (Keyed.find? "separator" members).map Part.json = separator.map .string) :
    readSynthesize (.named members) = .ok (.synthesize mode property separator) := by
  obtain ⟨r, hread, rfl⟩ := @read_optionalText _ 1 _ _ hproperty
  obtain ⟨r', hread', rfl⟩ := @read_optionalText _ 2 _ _ hseparator
  rw [readSynthesize, Fields.read_named hmode (readVariant_word hpart (ofWord_aggregation mode)),
    hread, hread']
  refine Fields.finish_named ?_
  cases r <;> cases r' <;> simp

theorem readLiteral_named {j : Json} {type : LiteralType}
    (hvalue : Keyed.find? "value" members = some part) (hpart : part.json = j)
    (htype : Keyed.find? "dataType" members = some part')
    (hpart' : part'.json = .string type.word) :
    readLiteral (.named members) = .ok (.literal (.ofJson j) type) := by
  subst hpart
  rw [readLiteral, Fields.read_named hvalue (readValue_part part),
    Fields.read_named htype (readVariant_word hpart' (ofWord_literalType type))]
  exact Fields.finish_named (by simp)

theorem readPipeline_some {p : Pipeline} (hpart : part.pipeline () = some p) :
    readPipeline part = .ok p := by
  rw [readPipeline, hpart]

theorem readArithmetic_named {op : BinaryOp} {left right : Pipeline}
    (hop : Keyed.find? "op" members = some part) (hpart : part.json = .string op.word)
    (hleft : Keyed.find? "left" members = some part') (hpart' : part'.pipeline () = some left)
    (hright : Keyed.find? "right" members = some part'')
    (hpart'' : part''.pipeline () = some right) :
    readArithmetic (.named members) = .ok (.arithmetic op left right) := by
  rw [readArithmetic, Fields.read_named hop (readVariant_word hpart (ofWord_binaryOp op)),
    Fields.read_named hleft (readPipeline_some hpart'),
    Fields.read_named hright (readPipeline_some hpart'')]
  exact Fields.finish_named (by simp)

theorem readCall_named {name : String} {args : List Pipeline}
    (hname : Keyed.find? "name" members = some part) (hpart : part.json = .string name)
    (hargs : Keyed.find? "args" members = some part') (hpart' : part'.pipelines () = .ok args) :
    readCall (.named members) = .ok (.call name args) := by
  rw [readCall, Fields.read_named hname (readText_string hpart), Fields.read_named hargs hpart']
  exact Fields.finish_named (by simp)

theorem readDefault_named {j : Json} (hvalue : Keyed.find? "default" members = some part)
    (hpart : part.json = j) : readDefault (.named members) = .ok (.default (.ofJson j)) := by
  subst hpart
  rw [readDefault, Fields.read_named hvalue (readValue_part part)]
  exact Fields.finish_named (by simp)

theorem readMalformed_named {raw : Json} {reason : String}
    (hraw : Keyed.find? "raw" members = some part) (hpart : part.json = raw)
    (hreason : Keyed.find? "reason" members = some part') (hpart' : part'.json = .string reason) :
    readMalformed (.named members) = .ok (.malformed raw reason) := by
  subst hpart
  rw [readMalformed, @Fields.read_named _ _ 0 "raw" (fun part => .ok part.json) _ _ hraw rfl,
    Fields.read_named hreason (readText_string hpart')]
  exact Fields.finish_named (by simp)

end Readers

/-! ## Steps -/

/-- The document of a step with its members in key order. -/
def keyOrdered : Step → Json
  | .connect source => .object [("operator", .string "CONNECT"), ("source", .string source)]
  | .segment c =>
    .object [("condition", .object [("field", .string c.field), ("op", .string c.test.word),
      ("value", c.value.toJson.canonical)]), ("operator", .string "SEGMENT")]
  | .designate property =>
    .object [("operator", .string "DESIGNATE"), ("property", .string property)]
  | .synthesize mode property separator =>
    .object ([("mode", .string mode.word), ("operator", .string "SYNTHESIZE")] ++
      textMember "property" property ++ textMember "separator" separator)
  | .literal value type =>
    .object [("dataType", .string type.word), ("kind", .string "literal"),
      ("operator", .string "ALTER"), ("value", value.toJson.canonical)]
  | .arithmetic op left right =>
    .object [("kind", .string "arithmetic"),
      ("left", .array (Json.canonicalItems (toJsonSteps left))), ("op", .string op.word),
      ("operator", .string "ALTER"), ("right", .array (Json.canonicalItems (toJsonSteps right)))]
  | .call name args =>
    .object [("args", .array (Json.canonicalItems (toJsonArgs args))), ("kind", .string "function"),
      ("name", .string name), ("operator", .string "ALTER")]
  | .default value =>
    .object [("default", value.toJson.canonical), ("operator", .string "NULL")]
  | .malformed raw reason =>
    .object [("operator", .string "MALFORMED"), ("raw", raw.canonical), ("reason", .string reason)]

theorem canonical_toJson (step : Step) : (toJson step).canonical = keyOrdered step := by
  cases step with
  | synthesize mode property separator =>
    cases property <;> cases separator <;>
      simp only [toJson, keyOrdered, textMember, Json.canonical, Json.canonicalMembers,
        Keyed.ofList, List.cons_append, List.nil_append, List.foldl_cons, List.foldl_nil,
        Keyed.insert, String.reduceLT, String.reduceEq, reduceIte]
  | _ =>
    simp only [toJson, keyOrdered, conditionJson, Json.canonical, Json.canonicalMembers,
      Keyed.ofList, List.foldl_cons, List.foldl_nil, Keyed.insert, String.reduceLT, String.reduceEq,
      reduceIte]

theorem ofJson_of_readFields {members : List (String × Json)} {step : Step}
    (h : readFields (.named (namedParts members)) = .ok step) :
    ofJson (.object members) = step := by
  rw [ofJson, h]
  rfl

mutual

/-- The document of a step is read as the step. -/
theorem ofJson_toJson : ∀ step : Step, ofJson (toJson step).canonical = step.reloaded
  | .connect source => by
    rw [canonical_toJson, keyOrdered, reloaded]
    refine ofJson_of_readFields ?_
    simp [namedParts, readFields, Fields.tag?, Keyed.find?, Keyed.erase]
    exact readConnect_named rfl rfl
  | .segment c => by
    rw [canonical_toJson, keyOrdered, reloaded]
    refine ofJson_of_readFields ?_
    simp [namedParts, readFields, Fields.tag?, Keyed.find?, Keyed.erase]
    exact readSegment_named rfl (readCondition_object rfl)
  | .designate property => by
    rw [canonical_toJson, keyOrdered, reloaded]
    refine ofJson_of_readFields ?_
    simp [namedParts, readFields, Fields.tag?, Keyed.find?, Keyed.erase]
    exact readDesignate_named rfl rfl
  | .synthesize mode property separator => by
    rw [canonical_toJson, keyOrdered, reloaded]
    refine ofJson_of_readFields ?_
    cases property <;> cases separator <;>
    · simp [textMember, namedParts, readFields, Fields.tag?, Keyed.find?, Keyed.erase]
      exact readSynthesize_named rfl rfl rfl rfl
  | .literal value type => by
    rw [canonical_toJson, keyOrdered, reloaded]
    refine ofJson_of_readFields ?_
    simp [namedParts, readFields, Fields.tag?, Keyed.find?, Keyed.erase]
    exact readLiteral_named rfl rfl rfl rfl
  | .arithmetic op left right => by
    rw [canonical_toJson, keyOrdered, reloaded]
    refine ofJson_of_readFields ?_
    simp [namedParts, readFields, Fields.tag?, Keyed.find?, Keyed.erase]
    refine readArithmetic_named rfl rfl rfl ?_ rfl ?_
    · rw [pipelineOf?, ofJsonItems_toJsonSteps left]
    · rw [pipelineOf?, ofJsonItems_toJsonSteps right]
  | .call name args => by
    rw [canonical_toJson, keyOrdered, reloaded]
    refine ofJson_of_readFields ?_
    simp [namedParts, readFields, Fields.tag?, Keyed.find?, Keyed.erase]
    refine readCall_named rfl rfl rfl ?_
    rw [pipelinesOf, pipelinesOfItems_toJsonArgs args]
  | .default value => by
    rw [canonical_toJson, keyOrdered, reloaded]
    refine ofJson_of_readFields ?_
    simp [namedParts, readFields, Fields.tag?, Keyed.find?, Keyed.erase]
    exact readDefault_named rfl rfl
  | .malformed raw reason => by
    rw [canonical_toJson, keyOrdered, reloaded]
    refine ofJson_of_readFields ?_
    simp [namedParts, readFields, Fields.tag?, Keyed.find?, Keyed.erase]
    exact readMalformed_named rfl rfl rfl rfl

theorem ofJsonItems_toJsonSteps : ∀ steps : List Step,
    ofJsonItems (Json.canonicalItems (toJsonSteps steps)) = reloadedSteps steps
  | [] => by rw [toJsonSteps, Json.canonicalItems, ofJsonItems, reloadedSteps]
  | step :: rest => by
    rw [toJsonSteps, Json.canonicalItems, ofJsonItems, reloadedSteps, ofJson_toJson step,
      ofJsonItems_toJsonSteps rest]

theorem pipelinesOfItems_toJsonArgs : ∀ args : List (List Step),
    pipelinesOfItems (Json.canonicalItems (toJsonArgs args)) = .ok (reloadedArgs args)
  | [] => by rw [toJsonArgs, Json.canonicalItems, pipelinesOfItems, reloadedArgs]
  | p :: rest => by
    rw [toJsonArgs, Json.canonicalItems, Json.canonical, pipelinesOfItems, pipelineOf?,
      ofJsonItems_toJsonSteps p, pipelinesOfItems_toJsonArgs rest, reloadedArgs]
    rfl

end

end Step

end FormulaPipeline
