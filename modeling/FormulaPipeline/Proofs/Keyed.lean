import FormulaPipeline.Keyed
import Mathlib.Tactic.SplitIfs
import Mathlib.Tactic.Tauto

/-!
# Looking up entries

What is found under a key after each change of a map. Insertion, removal and a change of values in
place are determined by these lookups alone; only the passage from an entry to its lookup needs the
order of the keys.
-/

namespace FormulaPipeline.Keyed

variable {α β : Type}

@[simp] theorem find?_nil (key : String) : find? key ([] : List (String × α)) = none := rfl

theorem find?_cons (key k : String) (v : α) (rest : List (String × α)) :
    find? key ((k, v) :: rest) = if k = key then some v else find? key rest := rfl

theorem find?_insert (key k : String) (v : α) (entries : List (String × α)) :
    find? key (insert k v entries) = if k = key then some v else find? key entries := by
  induction entries with
  | nil => rfl
  | cons first rest ih =>
    obtain ⟨k', v'⟩ := first
    simp only [insert]
    split
    · rfl
    · split
      · rename_i hk
        subst hk
        by_cases h : k = key <;> simp [find?_cons, h]
      · rename_i hne
        simp only [find?_cons, ih]
        by_cases hk : k = key
        · simp [hk, show k' ≠ key from fun h => hne (hk.trans h.symm)]
        · simp [hk]

theorem find?_erase (key k : String) (entries : List (String × α)) :
    find? key (erase k entries) = if k = key then none else find? key entries := by
  induction entries with
  | nil => simp [erase]
  | cons first rest ih =>
    obtain ⟨k', v'⟩ := first
    simp only [erase] at ih ⊢
    by_cases hk : k' = k
    · subst hk
      by_cases h : k' = key
      · simpa [h] using ih
      · simp [find?_cons, ih, h]
    · by_cases h : k' = key
      · simp [find?_cons, h, show k ≠ key from fun e => hk (h.trans e.symm),
          show key ≠ k from fun e => hk (h.trans e)]
      · simp [find?_cons, ih, hk, h]

theorem find?_mapValues (key : String) (f : String → α → β) (entries : List (String × α)) :
    find? key (entries.map fun (k, v) => (k, f k v)) = (find? key entries).map (f key) := by
  induction entries with
  | nil => rfl
  | cons first rest ih =>
    obtain ⟨k, v⟩ := first
    by_cases h : k = key
    · subst h
      simp [find?_cons]
    · simp only [List.map_cons, find?_cons, if_neg h]
      exact ih

theorem mem_of_find? {key : String} {v : α} {entries : List (String × α)}
    (h : find? key entries = some v) : (key, v) ∈ entries := by
  induction entries with
  | nil => simp at h
  | cons first rest ih =>
    obtain ⟨k, w⟩ := first
    rw [find?_cons] at h
    split at h
    · rename_i hk
      simp_all
    · exact List.mem_cons_of_mem _ (ih h)

theorem Sorted.nodup {entries : List (String × α)} (h : Sorted entries) : entries.Nodup :=
  h.imp fun hlt heq => String.ne_of_lt hlt (congrArg Prod.fst heq)

/-- In key order there is one entry for each key, so every entry is found. -/
theorem Sorted.find?_of_mem {key : String} {v : α} {entries : List (String × α)}
    (hsorted : Sorted entries) (h : (key, v) ∈ entries) : find? key entries = some v := by
  induction entries with
  | nil => simp at h
  | cons first rest ih =>
    obtain ⟨k, w⟩ := first
    obtain ⟨hleast, hrest⟩ := sorted_cons.1 hsorted
    rw [find?_cons]
    rcases List.mem_cons.1 h with heq | hmem
    · simp [(Prod.mk.inj heq).1, (Prod.mk.inj heq).2]
    · have hlt : k < key := hleast _ hmem
      have hne : k ≠ key := fun e => String.lt_irrefl _ (e ▸ hlt)
      rw [if_neg hne]
      exact ih hrest hmem

theorem Sorted.mem_iff_find? {key : String} {v : α} {entries : List (String × α)}
    (hsorted : Sorted entries) : (key, v) ∈ entries ↔ find? key entries = some v :=
  ⟨hsorted.find?_of_mem, mem_of_find?⟩

/-- Equal maps are equal lists. -/
theorem Sorted.eq_of_find? {entries others : List (String × α)} (hentries : Sorted entries)
    (hothers : Sorted others) (h : ∀ key, find? key entries = find? key others) :
    entries = others := by
  have hperm : entries.Perm others := by
    apply (List.perm_ext_iff_of_nodup hentries.nodup hothers.nodup).2
    rintro ⟨key, v⟩
    rw [hentries.mem_iff_find?, hothers.mem_iff_find?, h]
  apply hperm.eq_of_pairwise _ hentries hothers
  exact fun a b _ _ hab hba => absurd hba (String.lt_asymm hab)

theorem contains_iff_mem_keys {key : String} {entries : List (String × α)} :
    contains key entries = true ↔ key ∈ keys entries := by
  induction entries with
  | nil => simp [contains, keys]
  | cons first rest ih =>
    obtain ⟨k, v⟩ := first
    simp only [contains, keys, find?_cons, List.map_cons, List.mem_cons] at ih ⊢
    by_cases h : k = key
    · simp [h]
    · simp [h, ih, show key ≠ k from fun e => h e.symm]

@[simp] theorem mem_keys_insert {key k : String} {v : α} {entries : List (String × α)} :
    key ∈ keys (insert k v entries) ↔ key = k ∨ key ∈ keys entries := by
  simp only [← contains_iff_mem_keys, contains, find?_insert]
  by_cases h : k = key
  · simp [h]
  · simp [h, show key ≠ k from fun e => h e.symm]

theorem insert_map (key : String) (v : α) (f : α → β) (entries : List (String × α)) :
    insert key (f v) (entries.map (Prod.map id f)) =
      (insert key v entries).map (Prod.map id f) := by
  induction entries with
  | nil => rfl
  | cons first rest ih =>
    simp only [List.map_cons, Prod.map, id_eq, insert, ih]
    split_ifs <;> rfl

theorem ofList_map (f : α → β) (entries : List (String × α)) :
    ofList (entries.map (Prod.map id f)) = (ofList entries).map (Prod.map id f) := by
  have hfold : ∀ acc : List (String × α),
      (entries.map (Prod.map id f)).foldl (fun m (k, v) => insert k v m)
          (acc.map (Prod.map id f)) =
        (entries.foldl (fun m (k, v) => insert k v m) acc).map (Prod.map id f) := by
    induction entries with
    | nil => exact fun _ => rfl
    | cons first rest ih =>
      intro acc
      rw [List.map_cons, List.foldl_cons, List.foldl_cons, ← ih, ← insert_map]
      rfl
  exact hfold []

theorem mem_keys_ofList {key : String} {entries : List (String × α)} :
    key ∈ keys (ofList entries) ↔ key ∈ keys entries := by
  have hfold : ∀ acc : List (String × α),
      key ∈ keys (entries.foldl (fun m (k, v) => insert k v m) acc) ↔
        key ∈ keys acc ∨ key ∈ keys entries := by
    induction entries with
    | nil => simp [keys]
    | cons first rest ih =>
      obtain ⟨k, v⟩ := first
      intro acc
      rw [List.foldl_cons, ih, mem_keys_insert]
      simp only [keys, List.map_cons, List.mem_cons]
      tauto
  rw [ofList, hfold]
  simp [keys]

theorem mem_of_mem_ofList {e : String × α} {entries : List (String × α)}
    (h : e ∈ ofList entries) : e ∈ entries := by
  have hfold : ∀ acc : List (String × α),
      e ∈ entries.foldl (fun m (k, v) => insert k v m) acc → e ∈ acc ∨ e ∈ entries := by
    clear h
    induction entries with
    | nil => exact fun acc h => .inl h
    | cons first rest ih =>
      intro acc h
      rcases ih _ h with h | h
      · rcases eq_or_mem_of_mem_insert h with rfl | h
        · exact .inr List.mem_cons_self
        · exact .inl h
      · exact .inr (List.mem_cons_of_mem _ h)
  exact (hfold [] h).resolve_left List.not_mem_nil

theorem insert_of_forall_lt {k : String} (v : α) {entries : List (String × α)}
    (h : ∀ e ∈ entries, e.1 < k) : insert k v entries = entries ++ [(k, v)] := by
  induction entries with
  | nil => rfl
  | cons first rest ih =>
    obtain ⟨k', v'⟩ := first
    have hlt : k' < k := h _ List.mem_cons_self
    have hnot : ¬k < k' := String.lt_asymm hlt
    have hne : k ≠ k' := by
      rintro rfl
      exact hnot hlt
    rw [insert, if_neg hnot, if_neg hne, ih fun e he => h e (List.mem_cons_of_mem _ he)]
    rfl

/-- Entries in key order stay as they are. -/
theorem ofList_of_sorted {entries : List (String × α)} (h : Sorted entries) :
    ofList entries = entries := by
  have hfold : ∀ acc : List (String × α), Sorted (acc ++ entries) →
      entries.foldl (fun m (k, v) => insert k v m) acc = acc ++ entries := by
    clear h
    induction entries with
    | nil => simp
    | cons first rest ih =>
      obtain ⟨k, v⟩ := first
      intro acc hsorted
      have hbefore : ∀ e ∈ acc, e.1 < k := fun e he =>
        (List.pairwise_append.1 hsorted).2.2 e he _ List.mem_cons_self
      rw [List.foldl_cons]
      dsimp only
      rw [insert_of_forall_lt v hbefore, ih, List.append_assoc]
      · rfl
      · rwa [List.append_assoc]
  exact hfold [] h

@[simp] theorem mem_sortNames {name : String} {names : List String} :
    name ∈ sortNames names ↔ name ∈ names := by
  rw [sortNames, mem_keys_ofList]
  simp [keys]

/-! ## Keys -/

theorem mem_keys {key : String} {entries : List (String × α)} :
    key ∈ keys entries ↔ ∃ v, (key, v) ∈ entries := by
  simp [keys]

@[simp] theorem keys_mapValues (f : String → α → β) (entries : List (String × α)) :
    keys (entries.map fun (k, v) => (k, f k v)) = keys entries := by
  simp [keys, Function.comp_def]

theorem keys_erase (key : String) (entries : List (String × α)) :
    keys (erase key entries) = (keys entries).filter (· != key) := by
  simp [keys, erase, List.filter_map, Function.comp_def]

theorem Sorted.keys_lt {entries : List (String × α)} (h : Sorted entries) :
    (keys entries).Pairwise (· < ·) :=
  List.pairwise_map.2 h

theorem nodup_of_lt {names : List String} (h : names.Pairwise (· < ·)) : names.Nodup :=
  h.imp fun hlt => String.ne_of_lt hlt

theorem sorted_ofList (entries : List (String × α)) : Sorted (ofList entries) := by
  have hfold : ∀ acc : List (String × α), Sorted acc →
      Sorted (entries.foldl (fun m (k, v) => insert k v m) acc) := by
    induction entries with
    | nil => exact fun _ hacc => hacc
    | cons first rest ih => exact fun acc hacc => ih _ (hacc.insert first.1 first.2)
  exact hfold [] sorted_nil

theorem sortNames_lt (names : List String) : (sortNames names).Pairwise (· < ·) :=
  (sorted_ofList _).keys_lt

end FormulaPipeline.Keyed
