import FormulaPipeline.Proofs.Graph.Dependence

/-!
# Dirty nodes

Dirtiness is closed downstream: what lists a dirty node is dirty itself. Changes of a graph keep it
so, because the changed id and all that reaches it are made dirty together.
-/

namespace FormulaPipeline.Graph

open Relation

/-- An id is that of a dirty node. -/
def Dirty (g : Graph) (id : String) : Prop := ∃ node, g.find? id = some node ∧ node.dirty = true

/-- A node that lists a dirty one is dirty. -/
def DirtyClosed (g : Graph) : Prop := ∀ a b, g.Lists a b → g.Dirty b → g.Dirty a

variable {g : Graph} {id x : String}

theorem dirty_iff : g.Dirty id ↔ (g.find? id).any (·.dirty) = true := by
  rw [Dirty]
  cases g.find? id <;> simp

instance (g : Graph) (id : String) : Decidable (g.Dirty id) := decidable_of_iff _ dirty_iff.symm

theorem Dirty.contains (h : g.Dirty id) : g.contains id = true := by
  obtain ⟨node, hnode, -⟩ := h
  exact contains_iff.2 ⟨node, hnode⟩

theorem dirty_of_find?_eq {h : Graph} (heq : h.find? x = g.find? x) : h.Dirty x ↔ g.Dirty x := by
  rw [Dirty, Dirty, heq]

theorem dirty_markDirty_iff :
    (g.markDirty id).Dirty x ↔
      g.Dirty x ∨ (g.contains x = true ∧ ReflTransGen g.Lists x id) := by
  rw [← mem_affected]
  simp only [Dirty, find?_markDirty, List.contains_iff_mem, contains_iff]
  cases g.find? x with
  | none => simp
  | some node => by_cases hreach : x ∈ g.affected id <;> simp [hreach]

theorem dirty_store_iff {outcome : Outcome} :
    (g.store id outcome).Dirty x ↔ g.Dirty x ∧ x ≠ id := by
  simp only [Dirty, store, find?_mapNodes]
  cases g.find? x with
  | none => simp
  | some node => by_cases hx : x = id <;> simp [hx]

theorem dirty_clear_iff : g.clear.Dirty x ↔ g.contains x = true := by
  simp only [Dirty, clear, find?_mapNodes, contains_iff]
  cases g.find? x <;> simp

/-- When all nodes are dirty there is nothing left to mark. -/
theorem markDirty_of_dirty (h : ∀ x node, g.find? x = some node → node.dirty = true) :
    g.markDirty id = g := by
  refine eq_of_find? (fun x => ?_) rfl
  rw [find?_markDirty]
  cases hx : g.find? x with
  | none => rfl
  | some node =>
    have hsame : { node with dirty := true } = node := by rw [← h x node hx]
    rw [Option.map_some, hsame, ite_self]

theorem dirtyClosed_empty : empty.DirtyClosed := by
  intro a b hlist
  simp [lists_iff] at hlist

theorem dirtyClosed_clear : g.clear.DirtyClosed := by
  intro a b hlist _
  have hcontains : g.clear.contains a = true := hlist.contains
  rw [clear, contains_mapNodes] at hcontains
  exact dirty_clear_iff.2 hcontains

/-- After making an id dirty it is enough to know the nodes that do not reach it. -/
theorem dirtyClosed_markDirty
    (hold : ∀ a b, g.Lists a b → b ≠ id → g.Dirty b → a = id ∨ g.Dirty a) :
    (g.markDirty id).DirtyClosed := by
  intro a b hlist hdirty
  rw [lists_of_pristine_eq (pristine_markDirty g id)] at hlist
  have hreaches : ReflTransGen g.Lists b id → (g.markDirty id).Dirty a := fun hb =>
    dirty_markDirty_iff.2 (.inr ⟨hlist.contains, .head hlist hb⟩)
  by_cases hb : ReflTransGen g.Lists b id
  · exact hreaches hb
  · have hbold : g.Dirty b := (dirty_markDirty_iff.1 hdirty).resolve_right fun h => hb h.2
    have hne : b ≠ id := by
      rintro rfl
      exact hb .refl
    rcases hold a b hlist hne hbold with rfl | ha
    · exact dirty_markDirty_iff.2 (.inr ⟨hlist.contains, .refl⟩)
    · exact dirty_markDirty_iff.2 (.inl ha)

theorem DirtyClosed.markDirty (hg : g.DirtyClosed) (id : String) :
    (g.markDirty id).DirtyClosed := by
  apply dirtyClosed_markDirty
  intro a b hlist _ hdirty
  exact .inr (hg a b hlist hdirty)

theorem DirtyClosed.put (hg : g.DirtyClosed) (id : String) (d : NodeDefinition) :
    ((g.put id d).markDirty id).DirtyClosed := by
  apply dirtyClosed_markDirty
  intro a b hlist hb hdirty
  rcases lists_put.1 hlist with ⟨rfl, -⟩ | ⟨ha, hlist⟩
  · exact .inl rfl
  · have hfind : ∀ y, y ≠ id → (g.put id d).find? y = g.find? y := fun y hy => by
      simp [find?_put, hy.symm]
    rw [dirty_of_find?_eq (hfind b hb)] at hdirty
    right
    rw [dirty_of_find?_eq (hfind a fun h => ha h.symm)]
    exact hg a b hlist hdirty

theorem DirtyClosed.drop (hg : g.DirtyClosed) (id : String) :
    ((g.drop id).markDirty id).DirtyClosed := by
  apply dirtyClosed_markDirty
  intro a b hlist hb hdirty
  obtain ⟨ha, hlist⟩ := lists_drop.1 hlist
  have hfind : ∀ y, y ≠ id → (g.drop id).find? y = g.find? y := fun y hy => by
    simp [find?_drop, hy.symm]
  rw [dirty_of_find?_eq (hfind b hb)] at hdirty
  right
  rw [dirty_of_find?_eq (hfind a fun h => ha h.symm)]
  exact hg a b hlist hdirty

/-- A node whose dependencies are clean may become clean. -/
theorem DirtyClosed.store (hg : g.DirtyClosed) {outcome : Outcome}
    (hclean : ∀ b, g.Lists id b → ¬g.Dirty b) : (g.store id outcome).DirtyClosed := by
  intro a b hlist hdirty
  rw [lists_of_pristine_eq (pristine_store g id outcome)] at hlist
  have hb : g.Dirty b := (dirty_store_iff.1 hdirty).1
  refine dirty_store_iff.2 ⟨hg a b hlist hb, ?_⟩
  rintro rfl
  exact hclean b hlist hb

end FormulaPipeline.Graph
