import FormulaPipeline.Proofs.Json.RoundTrip
import FormulaPipeline.Proofs.Number.Magnitude
import FormulaPipeline.Proofs.Pipeline.Stored

/-!
# Values that survive their documents

A value is stable when its document is read as the value itself. Whatever is read from a document is
stable: numbers are finite, members stand in key order, and an object that would be taken for a
record has become one.
-/

namespace FormulaPipeline

namespace Json

mutual

/-- Whether the members of every object stand in key order, each key once. -/
def Ordered : Json → Prop
  | .array items => OrderedItems items
  | .object members => Keyed.Sorted members ∧ OrderedMembers members
  | _ => True

def OrderedItems : List Json → Prop
  | [] => True
  | j :: rest => Ordered j ∧ OrderedItems rest

def OrderedMembers : List (String × Json) → Prop
  | [] => True
  | (_, j) :: rest => Ordered j ∧ OrderedMembers rest

end

mutual

theorem canonical_of_ordered : ∀ {j : Json}, j.Ordered → j.canonical = j
  | .array items, h => by rw [canonical, canonicalItems_of_ordered h]
  | .object members, h => by
    rw [canonical, canonicalMembers_of_ordered h.2, Keyed.ofList_of_sorted h.1]
  | .null, _ | .bool _, _ | .int _, _ | .float _, _ | .string _, _ => rfl

theorem canonicalItems_of_ordered : ∀ {items : List Json}, OrderedItems items →
    canonicalItems items = items
  | [], _ => rfl
  | j :: rest, h => by
    rw [canonicalItems, canonical_of_ordered h.1, canonicalItems_of_ordered h.2]

theorem canonicalMembers_of_ordered : ∀ {members : List (String × Json)},
    OrderedMembers members → canonicalMembers members = members
  | [], _ => rfl
  | (k, j) :: rest, h => by
    rw [canonicalMembers, canonical_of_ordered h.1, canonicalMembers_of_ordered h.2]

end

/-- A document as data: members in key order, and numbers that a text can give. -/
structure Tidy (j : Json) : Prop where
  ordered : j.Ordered
  writable : j.Writable

section Tidy

variable {j : Json} {items : List Json} {members : List (String × Json)}

theorem Tidy.of_mem (h : (Json.array items).Tidy) (hj : j ∈ items) : j.Tidy := by
  induction items with
  | nil => cases hj
  | cons first rest ih =>
    obtain ⟨hordered, hwritable⟩ := h
    rcases List.mem_cons.1 hj with rfl | hj
    · exact ⟨hordered.1, hwritable.1⟩
    · exact ih ⟨hordered.2, hwritable.2⟩ hj

theorem Tidy.of_mem_members (h : (Json.object members).Tidy) {k : String}
    (hj : (k, j) ∈ members) : j.Tidy := by
  induction members with
  | nil => cases hj
  | cons first rest ih =>
    obtain ⟨k', j'⟩ := first
    obtain ⟨⟨hsorted, hordered⟩, hwritable⟩ := h
    rcases List.mem_cons.1 hj with heq | hj
    · obtain rfl := (Prod.mk.inj heq).2
      exact ⟨hordered.1, hwritable.1⟩
    · exact ih ⟨⟨(Keyed.sorted_cons.1 hsorted).2, hordered.2⟩, hwritable.2⟩ hj

end Tidy

end Json

namespace Value

mutual

/-- Whether the document of a value is read as the value: it holds finite numbers and keys in order,
and no object under the key that marks records. -/
def Stable : Value → Prop
  | .float x => x.isFinite = true
  | .array items => StableItems items
  | .object members =>
    Keyed.Sorted members ∧ (∀ v, Keyed.find? "values" members = some v → v.isRecordLike = false) ∧
      StableMembers members
  | .record _ fields => Keyed.Sorted fields ∧ StableMembers fields
  | _ => True

def StableItems : List Value → Prop
  | [] => True
  | v :: rest => Stable v ∧ StableItems rest

def StableMembers : List (String × Value) → Prop
  | [] => True
  | (_, v) :: rest => Stable v ∧ StableMembers rest

end

/-! ## Members -/

theorem toJsonMembers_eq_map (members : List (String × Value)) :
    toJsonMembers members = members.map fun (k, v) => (k, toJson v) := by
  induction members with
  | nil => rfl
  | cons first rest ih => rw [toJsonMembers, ih]; rfl

theorem ofJsonMembers_eq_map (members : List (String × Json)) :
    ofJsonMembers members = members.map fun (k, j) => (k, ofJson j) := by
  induction members with
  | nil => rfl
  | cons first rest ih => rw [ofJsonMembers, ih]; rfl

theorem find?_toJsonMembers (key : String) (members : List (String × Value)) :
    Keyed.find? key (toJsonMembers members) = (Keyed.find? key members).map toJson := by
  rw [toJsonMembers_eq_map]
  exact Keyed.find?_mapValues key (fun _ => toJson) members

theorem find?_ofJsonMembers (key : String) (members : List (String × Json)) :
    Keyed.find? key (ofJsonMembers members) = (Keyed.find? key members).map ofJson := by
  rw [ofJsonMembers_eq_map]
  exact Keyed.find?_mapValues key (fun _ => ofJson) members

theorem wrappedFields_eq_find? (members : List (String × Json)) :
    wrappedFields members = (Keyed.find? "values" members).bind innerMembers := by
  induction members with
  | nil => rfl
  | cons first rest ih =>
    rw [wrappedFields, ih, Keyed.find?_cons]
    split <;> rfl

theorem innerMembers_toJson {v : Value} (h : v.isRecordLike = false) :
    innerMembers (toJson v) = none := by
  cases v with
  | object members => cases h
  | record id fields => cases h
  | float x =>
    rw [toJson]
    split <;> rfl
  | null | bool | int | text | array => rfl

theorem isRecordLike_ofJson {j : Json} (h : innerMembers j = none) :
    (ofJson j).isRecordLike = false := by
  cases j with
  | object members => cases h
  | int n =>
    rw [ofJson, ofNumber]
    split <;> rfl
  | null | bool | float | string | array => rfl

/-! ## Stable values and their documents -/

mutual

theorem ordered_toJson : ∀ {v : Value}, v.Stable → v.toJson.Ordered
  | .float x, _ => by
    rw [toJson]
    split <;> trivial
  | .array items, h => ordered_toJsonItems h
  | .object members, h => by
    refine ⟨?_, ordered_toJsonMembers h.2.2⟩
    rw [toJsonMembers_eq_map]
    exact h.1.mapValues fun _ => toJson
  | .record id fields, h => by
    have hsorted : Keyed.Sorted (toJsonMembers fields) := by
      rw [toJsonMembers_eq_map]
      exact h.1.mapValues fun _ => toJson
    have hfields : Json.OrderedMembers (toJsonMembers fields) := ordered_toJsonMembers h.2
    cases id with
    | none => exact ⟨Keyed.sorted_cons.2 ⟨by simp, Keyed.sorted_nil⟩, ⟨hsorted, hfields⟩, trivial⟩
    | some id =>
      have hkeys : "id" < "values" := by decide
      refine ⟨Keyed.sorted_cons.2 ⟨List.forall_mem_singleton.2 hkeys, ?_⟩, ?_⟩
      · exact List.pairwise_singleton _ _
      · exact ⟨trivial, ⟨hsorted, hfields⟩, trivial⟩
  | .null, _ | .bool _, _ | .int _, _ | .text _, _ => trivial

theorem ordered_toJsonItems : ∀ {items : List Value}, StableItems items →
    Json.OrderedItems (toJsonItems items)
  | [], _ => trivial
  | _ :: _, h => ⟨ordered_toJson h.1, ordered_toJsonItems h.2⟩

theorem ordered_toJsonMembers : ∀ {members : List (String × Value)}, StableMembers members →
    Json.OrderedMembers (toJsonMembers members)
  | [], _ => trivial
  | (_, _) :: _, h => ⟨ordered_toJson h.1, ordered_toJsonMembers h.2⟩

end

mutual

theorem ofJson_toJson : ∀ {v : Value}, v.Stable → ofJson v.toJson = v
  | .int n, _ => ofNumber_toInt n
  | .float x, h => by
    rw [Stable] at h
    rw [toJson, if_pos h]
    rfl
  | .array items, h => by
    rw [toJson, ofJson, ofJsonItems_toJsonItems h]
  | .object members, h => by
    have hwrapped : wrappedFields (toJsonMembers members) = none := by
      rw [wrappedFields_eq_find?, find?_toJsonMembers]
      cases hfind : Keyed.find? "values" members with
      | none => rfl
      | some v => exact innerMembers_toJson (h.2.1 v hfind)
    rw [toJson, ofJson, hwrapped, ofJsonMembers_toJsonMembers h.2.2]
  | .record none fields, h => by
    have hwrapped : wrappedFields [("values", .object (toJsonMembers fields))] = some fields := by
      rw [wrappedFields, if_pos rfl, innerMembers, ofJsonMembers_toJsonMembers h.2]
    rw [toJson, ofJson, hwrapped]
    rfl
  | .record (some id) fields, h => by
    have hwrapped : wrappedFields [("id", .string id), ("values", .object (toJsonMembers fields))] =
        some fields := by
      rw [wrappedFields, if_neg (by decide), wrappedFields, if_pos rfl, innerMembers,
        ofJsonMembers_toJsonMembers h.2]
    rw [toJson, ofJson, hwrapped]
    rfl
  | .null, _ | .bool _, _ | .text _, _ => rfl

theorem ofJsonItems_toJsonItems : ∀ {items : List Value}, StableItems items →
    ofJsonItems (toJsonItems items) = items
  | [], _ => rfl
  | v :: rest, h => by
    rw [toJsonItems, ofJsonItems, ofJson_toJson h.1, ofJsonItems_toJsonItems h.2]

theorem ofJsonMembers_toJsonMembers : ∀ {members : List (String × Value)}, StableMembers members →
    ofJsonMembers (toJsonMembers members) = members
  | [], _ => rfl
  | (k, v) :: rest, h => by
    rw [toJsonMembers, ofJsonMembers, ofJson_toJson h.1, ofJsonMembers_toJsonMembers h.2]

end

theorem reloaded_of_stable {v : Value} (h : v.Stable) : v.reloaded = v := by
  rw [reloaded, Json.canonical_of_ordered (ordered_toJson h), ofJson_toJson h]

/-! ## What is read is stable -/

theorem stable_ofNumber {n : Int} (hlow : Integer.least ≤ n) (hhigh : n < 18446744073709551616) :
    (ofNumber n).Stable := by
  rw [ofNumber]
  split
  · trivial
  · apply Binary64.isFinite_ofInt_of_lt
    norm_num [Integer.least] at hlow ⊢
    omega

mutual

theorem stable_ofJson : ∀ {j : Json}, j.Ordered → j.Writable → (ofJson j).Stable
  | .int n, _, hwritable => by
    rw [Json.Writable] at hwritable
    exact stable_ofNumber hwritable.1 hwritable.2
  | .float x, _, hwritable => by
    rw [Json.Writable] at hwritable
    exact hwritable
  | .array items, hordered, hwritable => stable_ofJsonItems hordered hwritable
  | .object members, hordered, hwritable => by
    rw [ofJson]
    cases hwrapped : wrappedFields members with
    | some fields => exact stable_wrappedFields hordered.2 hwritable hwrapped
    | none =>
      rw [wrappedFields_eq_find?] at hwrapped
      refine ⟨?_, fun v hv => ?_, stable_ofJsonMembers hordered.2 hwritable⟩
      · rw [ofJsonMembers_eq_map]
        exact hordered.1.mapValues fun _ => ofJson
      · rw [find?_ofJsonMembers, Option.map_eq_some_iff] at hv
        obtain ⟨j, hj, rfl⟩ := hv
        rw [hj] at hwrapped
        exact isRecordLike_ofJson hwrapped
  | .null, _, _ | .bool _, _, _ | .string _, _, _ => trivial

theorem stable_ofJsonItems : ∀ {items : List Json}, Json.OrderedItems items →
    Json.WritableItems items → StableItems (ofJsonItems items)
  | [], _, _ => trivial
  | _ :: _, hordered, hwritable =>
    ⟨stable_ofJson hordered.1 hwritable.1, stable_ofJsonItems hordered.2 hwritable.2⟩

theorem stable_ofJsonMembers : ∀ {members : List (String × Json)}, Json.OrderedMembers members →
    Json.WritableMembers members → StableMembers (ofJsonMembers members)
  | [], _, _ => trivial
  | (_, _) :: _, hordered, hwritable =>
    ⟨stable_ofJson hordered.1 hwritable.1, stable_ofJsonMembers hordered.2 hwritable.2⟩

theorem stable_wrappedFields : ∀ {members : List (String × Json)} {fields : List (String × Value)},
    Json.OrderedMembers members → Json.WritableMembers members →
    wrappedFields members = some fields → Keyed.Sorted fields ∧ StableMembers fields
  | [], _, _, _, h => by cases h
  | (k, j) :: rest, fields, hordered, hwritable, h => by
    rw [wrappedFields] at h
    split at h
    · exact stable_innerMembers hordered.1 hwritable.1 h
    · exact stable_wrappedFields hordered.2 hwritable.2 h

theorem stable_innerMembers : ∀ {j : Json} {fields : List (String × Value)}, j.Ordered →
    j.Writable → innerMembers j = some fields → Keyed.Sorted fields ∧ StableMembers fields
  | .object members, fields, hordered, hwritable, h => by
    obtain rfl : ofJsonMembers members = fields := Option.some.inj h
    refine ⟨?_, stable_ofJsonMembers hordered.2 hwritable⟩
    rw [ofJsonMembers_eq_map]
    exact hordered.1.mapValues fun _ => ofJson
  | .null, _, _, _, h | .bool _, _, _, _, h | .int _, _, _, _, h | .float _, _, _, _, h
  | .string _, _, _, _, h | .array _, _, _, _, h => by cases h

end

/-- What a document is read as is read back from its own document. -/
theorem reloaded_ofJson {j : Json} (h : j.Tidy) : (ofJson j).reloaded = ofJson j :=
  reloaded_of_stable (stable_ofJson h.ordered h.writable)

end Value

end FormulaPipeline
