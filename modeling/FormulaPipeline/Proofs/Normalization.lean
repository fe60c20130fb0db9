import FormulaPipeline.Proofs.Value.Stability

/-!
# Reading documents is a projection

Ids become texts, whole numbers out of range become floats, and a record takes the wrapped shape.
What has been read once is changed no more, as a value and as a record.
-/

namespace FormulaPipeline

namespace Record

/-- A document that is read as a record value is read as the same record on its own. -/
theorem ofJson_of_toValue {j : Json} {r : Record} (h : Value.ofJson j = r.toValue) :
    ofJson j = r := by
  cases j with
  | object members =>
    rw [Value.ofJson] at h
    cases hwrapped : Value.wrappedFields members with
    | some fields =>
      rw [hwrapped] at h
      obtain ⟨hid, hfields⟩ := Value.record.inj h
      rw [ofJson, hwrapped, hid, Option.getD_some, hfields]
    | none =>
      rw [hwrapped] at h
      cases h
  | int n =>
    rw [Value.ofJson, Value.ofNumber] at h
    split at h <;> cases h
  | null | bool | float | string | array => cases h

theorem ofJson_toJson {r : Record} (h : r.toValue.Stable) : ofJson r.toValue.toJson = r :=
  ofJson_of_toValue (Value.ofJson_toJson h)

theorem stable_ofJson {j : Json} (h : j.Tidy) : (ofJson j).toValue.Stable := by
  cases j with
  | object members =>
    obtain ⟨⟨hsorted, hordered⟩, hwritable⟩ := h
    rw [ofJson]
    cases hwrapped : Value.wrappedFields members with
    | some fields => exact Value.stable_wrappedFields hordered hwritable hwrapped
    | none =>
      refine ⟨?_, Value.stable_ofJsonMembers hordered hwritable⟩
      rw [Option.getD_none, Value.ofJsonMembers_eq_map]
      exact hsorted.mapValues fun _ => Value.ofJson
  | _ => exact ⟨Keyed.sorted_nil, trivial⟩

end Record

namespace Json

/-- Of what is read from a document, the own document is read as the same value and as the same
record, and gives the same document again. -/
theorem reading_projects {j : Json} (h : j.Tidy) :
    let v := Value.ofJson j
    let r := Record.ofJson j
    Value.ofJson v.toJson = v ∧ (Value.ofJson v.toJson).toJson = v.toJson ∧
      Record.ofJson r.toValue.toJson = r ∧ Value.ofJson r.toValue.toJson = r.toValue := by
  intro v r
  have hv : Value.ofJson v.toJson = v :=
    Value.ofJson_toJson (Value.stable_ofJson h.ordered h.writable)
  have hr : r.toValue.Stable := Record.stable_ofJson h
  exact ⟨hv, congrArg Value.toJson hv, Record.ofJson_toJson hr, Value.ofJson_toJson hr⟩

/-- A flat record with a number for its id and a text under `values`, a wrapper in one of its fields
and another in that. -/
theorem reading_projects_of_wrappers :
    let inner : Json :=
      .object [("id", .null), ("values", .object [("n", .int 9223372036854775808)])]
    let j : Json := .object [("id", .int 7),
      ("note", .object [("values", .object [("in", inner)])]), ("values", .string "flat")]
    let r := Record.ofJson j
    j.Tidy ∧ r.id = some "7" ∧
      r.fields.map Prod.fst = ["id", "note", "values"] ∧
      Value.ofJson (Value.ofJson j).toJson = Value.ofJson j ∧
      (Value.ofJson (Value.ofJson j).toJson).toJson = (Value.ofJson j).toJson ∧
      Record.ofJson r.toValue.toJson = r ∧ Value.ofJson r.toValue.toJson = r.toValue := by
  intro inner j r
  have hordered : j.Ordered := by
    simp only [j, inner, Ordered, OrderedMembers, Keyed.sorted_cons, Keyed.sorted_nil,
      List.forall_mem_cons, List.not_mem_nil, false_implies, implies_true, and_true]
    decide
  have hwritable : j.Writable := by
    simp [j, inner, Writable, WritableMembers, Integer.least]
  have htidy : j.Tidy := ⟨hordered, hwritable⟩
  exact ⟨htidy, rfl, rfl, reading_projects htidy⟩

end Json

end FormulaPipeline
