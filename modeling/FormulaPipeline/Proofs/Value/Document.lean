import FormulaPipeline.Proofs.Json.RoundTrip
import FormulaPipeline.Proofs.Keyed
import FormulaPipeline.Value.Document

/-!
# Documents of values

Every value has a document that can be written: its whole numbers are in range and its floats are
finite. Putting the members in key order keeps that.
-/

namespace FormulaPipeline

namespace Json

theorem writableMembers_iff {members : List (String × Json)} :
    WritableMembers members ↔ ∀ m ∈ members, m.2.Writable := by
  induction members with
  | nil => simp [WritableMembers]
  | cons m rest ih => rw [WritableMembers, ih, List.forall_mem_cons]

mutual

theorem writable_canonical : ∀ {j : Json}, j.Writable → j.canonical.Writable
  | .array _, h => writableItems_canonicalItems h
  | .object members, h => by
    have hmembers : WritableMembers (canonicalMembers members) := writableMembers_canonicalMembers h
    refine writableMembers_iff.2 fun m hm => ?_
    exact writableMembers_iff.1 hmembers m (Keyed.mem_of_mem_ofList hm)
  | .int _, h | .float _, h => h
  | .null, _ | .bool _, _ | .string _, _ => trivial

theorem writableItems_canonicalItems : ∀ {items : List Json}, WritableItems items →
    WritableItems (canonicalItems items)
  | [], _ => trivial
  | _ :: _, h => ⟨writable_canonical h.1, writableItems_canonicalItems h.2⟩

theorem writableMembers_canonicalMembers : ∀ {members : List (String × Json)},
    WritableMembers members → WritableMembers (canonicalMembers members)
  | [], _ => trivial
  | _ :: _, h => ⟨writable_canonical h.1, writableMembers_canonicalMembers h.2⟩

end

end Json

namespace Value

mutual

theorem writable_toJson : ∀ v : Value, v.toJson.Writable
  | .int n => ⟨Int64.le_toInt n, (Int64.toInt_lt n).trans (by norm_num)⟩
  | .float x => by
    rw [toJson]
    split
    · rwa [Json.Writable]
    · trivial
  | .array items => writableItems_toJsonItems items
  | .object members => writableMembers_toJsonMembers members
  | .record none fields => ⟨writableMembers_toJsonMembers fields, trivial⟩
  | .record (some _) fields => ⟨trivial, writableMembers_toJsonMembers fields, trivial⟩
  | .null | .bool _ | .text _ => trivial

theorem writableItems_toJsonItems : ∀ items : List Value, Json.WritableItems (toJsonItems items)
  | [] => trivial
  | v :: rest => ⟨writable_toJson v, writableItems_toJsonItems rest⟩

theorem writableMembers_toJsonMembers : ∀ members : List (String × Value),
    Json.WritableMembers (toJsonMembers members)
  | [] => trivial
  | (_, v) :: rest => ⟨writable_toJson v, writableMembers_toJsonMembers rest⟩

end

end Value

end FormulaPipeline
