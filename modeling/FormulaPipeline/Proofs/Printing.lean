import FormulaPipeline.Proofs.Json.Shown
import FormulaPipeline.Proofs.Value.Document

/-!
# Printed values are their documents

A value is printed with its own rules for escapes, key order, indentation and the shape of records.
Both layouts are the written form of its document, so both are read as that document.
-/

namespace FormulaPipeline

theorem Text.toList_join (separator part : String) (rest : List String) :
    (join separator (part :: rest)).toList =
      part.toList ++ rest.flatMap fun part => separator.toList ++ part.toList := by
  induction rest generalizing part with
  | nil => simp [join]
  | cons next rest ih => simp [join, ih]

namespace Value

open Json (shown entries following lineBreak write writeString)

/-! ## Brackets -/

theorem toList_quote (s : String) : (quote s).toList = writeString shown s := by
  simp [quote, writeString, shown]

theorem toList_enclose {pretty : Bool} {level : Nat} {opening closing part : String}
    {parts : List String} : (enclose pretty level opening closing (part :: parts)).toList =
      opening.toList ++ (lineBreak pretty (level + 1) ++
        (entries pretty (level + 1) ((part :: parts).map String.toList) ++
          (lineBreak pretty level ++ closing.toList))) := by
  rw [enclose.eq_2 _ _ _ _ _ (List.cons_ne_nil part parts)]
  cases pretty with
  | true =>
    rw [if_pos rfl, List.map_cons]
    simp [Text.toList_join, entries, following, lineBreak, indent, List.flatMap_map]
  | false =>
    rw [if_neg Bool.false_ne_true]
    simp [Text.toList_join, entries, following, lineBreak, List.flatMap_map]

variable {pretty : Bool} {level : Nat}

theorem toList_enclose_items {parts : List String} {items : List Json}
    (h : parts.map String.toList = items.map (write shown pretty (level + 1))) :
    (enclose pretty level "[" "]" parts).toList = write shown pretty level (.array items) := by
  cases parts with
  | nil =>
    obtain rfl : items = [] := by simpa using h
    simp [enclose, write]
  | cons part parts =>
    cases items with
    | nil => simp at h
    | cons j items =>
      rw [toList_enclose, h, Json.write_array_cons]
      rfl

/-- Printed entries are the text of the object of their documents, in key order. -/
theorem toList_printEntries {printed : List (String × String)} {members : List (String × Json)}
    (h : printed.map (Prod.map id String.toList) =
      members.map (Prod.map id (write shown pretty (level + 1)))) :
    (printEntries pretty level printed).toList =
      write shown pretty level (.object (Keyed.ofList members)) := by
  have hsorted := congrArg Keyed.ofList h
  rw [Keyed.ofList_map, Keyed.ofList_map] at hsorted
  have hparts : ((Keyed.ofList printed).map fun m =>
        quote m.1 ++ (if pretty then ": " else ":") ++ m.2).map String.toList =
      (Keyed.ofList members).map (Json.memberText shown pretty (level + 1)) := by
    have htexts := congrArg
      (List.map fun m => writeString shown m.1 ++ (Json.colon pretty ++ m.2)) hsorted
    simp only [List.map_map] at htexts ⊢
    refine Eq.trans (List.map_congr_left fun m _ => ?_) htexts
    cases pretty <;> simp [toList_quote, Json.colon]
  change (enclose pretty level "\x7b" "\x7d" ((Keyed.ofList printed).map fun m =>
    quote m.1 ++ (if pretty then ": " else ":") ++ m.2)).toList = _
  generalize (Keyed.ofList printed).map _ = parts at hparts ⊢
  cases parts with
  | nil =>
    have hnil : Keyed.ofList members = [] := by simpa using hparts
    simp [enclose, write, hnil]
  | cons part parts =>
    cases hmembers : Keyed.ofList members with
    | nil => simp [hmembers] at hparts
    | cons m others =>
      rw [toList_enclose, hparts, hmembers, Json.write_object_cons]
      rfl

/-! ## Values -/

mutual

/-- The text of a value is the text of its document. -/
theorem toList_print : ∀ (v : Value) (level : Nat),
    (print pretty level v).toList = write shown pretty level v.toJson.canonical
  | .float x, level => by
    rw [print, toJson]
    split
    · exact String.toList_ofList
    · rfl
  | .text s, level => toList_quote s
  | .array items, level => toList_enclose_items (toList_printItems items (level + 1))
  | .object members, level => toList_printEntries (toList_printMembers members (level + 1))
  | .record none fields, level => by
    have hfields := toList_printEntries (toList_printMembers fields (level + 2))
    exact @toList_printEntries _ _ [("values", _)] [("values", _)]
      (congrArg (fun cs => [("values", cs)]) hfields)
  | .record (some id) fields, level => by
    have hfields := toList_printEntries (toList_printMembers fields (level + 2))
    exact @toList_printEntries _ _ [("id", _), ("values", _)] [("id", .string id), ("values", _)]
      (congrArg₂ (fun cs ds => [("id", cs), ("values", ds)]) (toList_quote id) hfields)
  | .null, _ => rfl
  | .bool b, _ => by cases b <;> rfl
  | .int n, _ => rfl

theorem toList_printItems : ∀ (items : List Value) (level : Nat),
    (printItems pretty level items).map String.toList =
      (Json.canonicalItems (toJsonItems items)).map (write shown pretty level)
  | [], _ => rfl
  | v :: rest, level =>
    congrArg₂ List.cons (toList_print v level) (toList_printItems rest level)

theorem toList_printMembers : ∀ (members : List (String × Value)) (level : Nat),
    (printMembers pretty level members).map (Prod.map id String.toList) =
      (Json.canonicalMembers (toJsonMembers members)).map
        (Prod.map id (write shown pretty level))
  | [], _ => rfl
  | (key, v) :: rest, level =>
    congrArg₂ (fun cs others => (key, cs) :: others) (toList_print v level)
      (toList_printMembers rest level)

end

theorem print_eq_toText (v : Value) :
    print pretty 0 v = Json.toText shown pretty v.toJson.canonical := by
  rw [Json.toText, ← toList_print, String.ofList_toList]

/-- Both layouts are read as one document, which is the value's own when numbers are compared as
numbers. The only texts that a reader refuses are those nested past its limit. -/
theorem readWithin_compact_pretty (v : Value) :
    ∃ j : Json, j.Alike v.toJson.canonical ∧ ∀ limit,
      Json.readWithin? limit v.compact =
          (if v.toJson.canonical.depth ≤ limit then some j else none) ∧
        Json.readWithin? limit v.pretty =
          (if v.toJson.canonical.depth ≤ limit then some j else none) := by
  have hwritable : v.toJson.canonical.Writable := Json.writable_canonical (writable_toJson v)
  refine ⟨Json.reread shown v.toJson.canonical, ?_, fun limit => ⟨?_, ?_⟩⟩
  · exact Json.alike_reread (fun x hx => (Json.number_shown hx).1) hwritable
  · rw [compact, print_eq_toText]
    exact Json.readWithin_toText Json.legible_shown hwritable false limit
  · rw [Value.pretty, print_eq_toText]
    exact Json.readWithin_toText Json.legible_shown hwritable true limit

end Value

end FormulaPipeline
