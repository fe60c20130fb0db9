import FormulaPipeline.Proofs.Graph.Dependence
import FormulaPipeline.Proofs.Graph.Search

/-!
# The cycle check is exact

A definition is refused exactly when one of its dependencies reaches the defined id, and the path
that is reported runs once around the cycle that the definition would close.
-/

namespace FormulaPipeline.Graph

open Relation

/-- A path from an id back to itself: its first edge is a new dependency, the others are edges of
the graph, and nothing but the id itself stands on it twice. -/
structure ClosingPath (g : Graph) (id : String) (dependencies path : List String) : Prop where
  starts : path.head? = some id
  ends : path.getLast? = some id
  first_mem : ∃ name ∈ dependencies, path.tail.head? = some name
  edges : path.tail.IsChain g.Lists
  count_le : ∀ x, x ≠ id → path.count x ≤ 1

/-! ## The search for a cycle -/

variable {g : Graph} {id : String} {names : List String}

theorem ends_search (g : Graph) (id : String) (names : List String) :
    Search.Ends g.dependenciesOf id names { path := [id] } (g.search g.size id names) :=
  Search.ends_start g.mem_ids_of_dependenciesOf g.card_ids_le

theorem found_search_iff :
    (g.search g.size id names).1 = true ↔ ∃ name ∈ names, ReflTransGen g.Lists name id :=
  Search.found_iff g.mem_ids_of_dependenciesOf g.card_ids_le

/-- A search that may go deeper than there are nodes goes the same way. -/
theorem search_eq_of_size_le {depth : Nat} (h : g.size ≤ depth) :
    g.search depth id names = g.search g.size id names :=
  Search.tryEach_reaches_eq g.mem_ids_of_dependenciesOf g.card_ids_le h

theorem cycle?_eq_none_iff :
    g.cycle? id names = none ↔ ¬∃ name ∈ names, ReflTransGen g.Lists name id := by
  rw [cycle?, ← found_search_iff]
  obtain ⟨found, s⟩ := g.search g.size id names
  cases found <;> simp

theorem closingPath_of_cycle? {c : Cycle} (h : g.cycle? id names = some c) :
    g.ClosingPath id names c.path := by
  have hends := g.ends_search id names
  rw [cycle?] at h
  generalize g.search g.size id names = r at h hends
  cases hends with
  | failed => cases h
  | @found s name way hname hway hpath =>
    obtain rfl := Option.some.inj h
    have hpath : s.path = id :: way := hpath
    dsimp only
    rw [hpath]
    refine ⟨rfl, ?_, ⟨name, hname, hway.starts⟩, hway.edges, fun x hx => ?_⟩
    · rw [List.getLast?_cons, hway.ends]
      rfl
    · rw [List.count_cons_of_ne (Ne.symm hx)]
      exact List.nodup_iff_count_le_one.1 hway.nodup x

/-! ## Definitions that are accepted and refused -/

theorem define_eq_ok_iff {g g' : Graph} {id : String} {d : NodeDefinition} :
    g.define id d = .ok g' ↔
      (¬∃ name ∈ d.dependencies, ReflTransGen g.Lists name id) ∧
        g' = (g.put id d).markDirty id := by
  rw [define_eq, ← cycle?_eq_none_iff]
  cases g.cycle? id d.dependencies with
  | none => simp [eq_comm]
  | some c => simp

theorem define_eq_error_iff {g : Graph} {id : String} {d : NodeDefinition} {c : Cycle} :
    g.define id d = .error c ↔ g.cycle? id d.dependencies = some c := by
  rw [define_eq]
  cases g.cycle? id d.dependencies <;> simp

theorem exists_define_eq_error_iff {g : Graph} {id : String} {d : NodeDefinition} :
    (∃ c, g.define id d = .error c) ↔ ∃ name ∈ d.dependencies, ReflTransGen g.Lists name id := by
  simp only [define_eq_error_iff, ← Option.isSome_iff_exists]
  rw [← not_iff_not, Option.not_isSome_iff_eq_none, cycle?_eq_none_iff]

end FormulaPipeline.Graph
