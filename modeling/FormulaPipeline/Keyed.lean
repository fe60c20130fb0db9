/-!
# Entries in key order

A finite map from texts is kept as the list of its entries in strictly increasing key order, so that
listing it is deterministic and equal maps are equal lists.
-/

namespace FormulaPipeline.Keyed

variable {α β : Type}

def find? (key : String) : List (String × α) → Option α
  | [] => none
  | (k, v) :: rest => if k = key then some v else find? key rest

def contains (key : String) (entries : List (String × α)) : Bool := (find? key entries).isSome

/-- Put an entry in its place; an entry with the same key is replaced. -/
def insert (key : String) (value : α) : List (String × α) → List (String × α)
  | [] => [(key, value)]
  | (k, v) :: rest =>
    if key < k then (key, value) :: (k, v) :: rest
    else if key = k then (key, value) :: rest
    else (k, v) :: insert key value rest

def erase (key : String) (entries : List (String × α)) : List (String × α) :=
  entries.filter (·.1 != key)

def keys (entries : List (String × α)) : List String := entries.map (·.1)

/-- The entries in key order; of several with one key the last counts. -/
def ofList (entries : List (String × α)) : List (String × α) :=
  entries.foldl (fun m (k, v) => insert k v m) []

/-- Names in increasing order, each once. -/
def sortNames (names : List String) : List String := keys (ofList (names.map fun n => (n, ())))

/-- Keys stand in strictly increasing order. -/
def Sorted (entries : List (String × α)) : Prop := entries.Pairwise (·.1 < ·.1)

/-! ## The order is kept -/

theorem sorted_nil : Sorted ([] : List (String × α)) := List.Pairwise.nil

theorem sorted_cons {key : String} {value : α} {rest : List (String × α)} :
    Sorted ((key, value) :: rest) ↔ (∀ e ∈ rest, key < e.1) ∧ Sorted rest :=
  List.pairwise_cons

theorem eq_or_mem_of_mem_insert {key : String} {value : α} {e : String × α}
    {entries : List (String × α)} (h : e ∈ insert key value entries) :
    e = (key, value) ∨ e ∈ entries := by
  induction entries with
  | nil => simpa [insert] using h
  | cons first rest ih =>
    obtain ⟨k, v⟩ := first
    simp only [insert] at h
    split at h
    · exact List.mem_cons.1 h
    · split at h
      · exact (List.mem_cons.1 h).imp_right (List.mem_cons_of_mem _)
      · rcases List.mem_cons.1 h with h | h
        · exact Or.inr (h ▸ List.mem_cons_self)
        · exact (ih h).imp_right (List.mem_cons_of_mem _)

theorem Sorted.insert {entries : List (String × α)} (h : Sorted entries) (key : String)
    (value : α) : Sorted (insert key value entries) := by
  induction entries with
  | nil => exact sorted_cons.2 ⟨fun e he => (List.not_mem_nil he).elim, sorted_nil⟩
  | cons first rest ih =>
    obtain ⟨k, v⟩ := first
    obtain ⟨least, sorted⟩ := sorted_cons.1 h
    simp only [Keyed.insert]
    split
    · rename_i before
      refine sorted_cons.2 ⟨fun e he => ?_, h⟩
      rcases List.mem_cons.1 he with rfl | he
      · exact before
      · exact String.lt_trans before (least e he)
    · rename_i notBefore
      split
      · rename_i same
        exact sorted_cons.2 ⟨fun e he => same ▸ least e he, sorted⟩
      · rename_i other
        refine sorted_cons.2 ⟨fun e he => ?_, ih sorted⟩
        rcases eq_or_mem_of_mem_insert he with rfl | he
        · refine String.not_le.1 fun le => other ?_
          exact String.le_antisymm le (String.not_lt.1 notBefore)
        · exact least e he

theorem Sorted.erase {entries : List (String × α)} (h : Sorted entries) (key : String) :
    Sorted (erase key entries) :=
  List.Pairwise.filter _ h

/-- Values may be changed in place. -/
theorem Sorted.mapValues {entries : List (String × α)} (h : Sorted entries) (f : String → α → β) :
    Sorted (entries.map fun (key, value) => (key, f key value)) :=
  List.pairwise_map.2 h

end FormulaPipeline.Keyed
