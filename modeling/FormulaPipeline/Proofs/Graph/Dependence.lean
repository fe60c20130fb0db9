import FormulaPipeline.Proofs.Graph.Closure
import FormulaPipeline.Proofs.Graph.Lookup
import Mathlib.Data.List.Perm.Subperm
import Mathlib.Data.Finset.Dedup

/-!
# Dependence between nodes

The relation between a node and the names that it lists. Requirements and affected nodes are its
closures in the two directions. A graph whose chains of nodes are bounded has no cycle, and in a
graph without a cycle no chain is longer than the graph.
-/

namespace FormulaPipeline.Graph

open Relation

/-- A node lists a name among its dependencies. The name need not be that of a node. -/
def Lists (g : Graph) : String → String → Prop := Closure.Step g.dependenciesOf

theorem lists_iff {g : Graph} {a b : String} :
    g.Lists a b ↔ ∃ node, g.find? a = some node ∧ b ∈ node.dependencies := by
  simp only [Lists, Closure.Step, dependenciesOf]
  cases g.find? a <;> simp

theorem Lists.contains {g : Graph} {a b : String} (h : g.Lists a b) : g.contains a = true := by
  obtain ⟨node, hnode, -⟩ := lists_iff.1 h
  exact contains_iff.2 ⟨node, hnode⟩

theorem lists_of_pristine_eq {g h : Graph} (heq : g.pristine = h.pristine) : g.Lists = h.Lists := by
  rw [Lists, Lists, dependenciesOf_of_pristine_eq heq]

theorem lists_put {g : Graph} {id : String} {d : NodeDefinition} {a b : String} :
    (g.put id d).Lists a b ↔ (id = a ∧ b ∈ d.dependencies) ∨ (id ≠ a ∧ g.Lists a b) := by
  rw [lists_iff, find?_put]
  by_cases h : id = a
  · simp [h, Node.ofDefinition]
  · simp [h, lists_iff]

theorem lists_drop {g : Graph} {id a b : String} :
    (g.drop id).Lists a b ↔ id ≠ a ∧ g.Lists a b := by
  rw [lists_iff, find?_drop]
  by_cases h : id = a
  · simp [h]
  · simp [h, lists_iff]

/-! ## Closures in both directions -/

theorem card_ids_le (g : Graph) : g.ids.toFinset.card ≤ g.size := by
  refine (List.toFinset_card_le _).trans ?_
  simp [ids, Keyed.keys, size]

theorem mem_ids_of_dependenciesOf (g : Graph) (a : String) (h : g.dependenciesOf a ≠ []) :
    a ∈ g.ids.toFinset := by
  obtain ⟨b, hb⟩ := List.exists_mem_of_ne_nil _ h
  exact List.mem_toFinset.2 (contains_iff_mem_ids.1 (Lists.contains hb))

/-- Everything that the given ids depend on, themselves included. -/
def requirements (g : Graph) (ids : List String) : List String :=
  Closure.reach g.dependenciesOf (g.size + 1) ids

/-- The requirements of some ids are what they reach along dependencies. -/
theorem mem_requirements {g : Graph} {ids : List String} {x : String} :
    x ∈ g.requirements ids ↔ ∃ a ∈ ids, ReflTransGen g.Lists a x :=
  Closure.mem_reach_iff (fun _ b _ => g.mem_ids_of_dependenciesOf b)
    (fun a _ => g.mem_ids_of_dependenciesOf a) (g.card_ids_le.trans (Nat.le_succ _))

theorem mem_dependents {g : Graph} {a b : String} : b ∈ g.dependents a ↔ g.Lists b a := by
  rw [lists_iff]
  simp only [dependents, List.mem_map, List.mem_filter, Prod.exists, exists_and_right,
    exists_eq_right, g.sorted.mem_iff_find?]
  simp [find?, Node.dependsOn]

theorem mem_affected {g : Graph} {id x : String} :
    x ∈ g.affected id ↔ ReflTransGen g.Lists x id := by
  have hstep : Closure.Step g.dependents = Function.swap g.Lists := by
    funext a b
    exact propext mem_dependents
  have hnext : ∀ a, ∀ b ∈ g.dependents a, g.dependents b ≠ [] → b ∈ insert id g.ids.toFinset := by
    intro a b hb _
    have hnode := contains_iff_mem_ids.1 (mem_dependents.1 hb).contains
    exact Finset.mem_insert_of_mem (List.mem_toFinset.2 hnode)
  have hcard : (insert id g.ids.toFinset).card ≤ g.size + 1 :=
    (Finset.card_insert_le _ _).trans (Nat.succ_le_succ g.card_ids_le)
  rw [affected, Closure.mem_reach_iff hnext (by simp) hcard, hstep]
  simp [reflTransGen_swap]

/-! ## Chains of nodes -/

/-- No chain of nodes, each listed by the one before, has more than `n` members. -/
def ChainsWithin (g : Graph) (n : Nat) : Prop :=
  ∀ chain : List String, (∀ id ∈ chain, g.contains id = true) → chain.IsChain g.Lists →
    chain.length ≤ n

/-- No chain of nodes that starts with an id has more than the given number of members. -/
def Shallow (g : Graph) : Nat → String → Prop
  | 0, id => g.contains id = false
  | n + 1, id => ∀ name ∈ g.dependenciesOf id, g.Shallow n name

instance decidableShallow (g : Graph) : ∀ n id, Decidable (g.Shallow n id)
  | 0, id => inferInstanceAs (Decidable (g.contains id = false))
  | n + 1, id =>
    have := decidableShallow g n
    inferInstanceAs (Decidable (∀ name ∈ g.dependenciesOf id, g.Shallow n name))

theorem shallow_of_not_contains {g : Graph} {id : String} (h : g.contains id = false) (n : Nat) :
    g.Shallow n id := by
  cases n with
  | zero => exact h
  | succ n =>
    intro name hname
    simp [Lists.contains (g := g) (b := name) hname] at h

theorem shallow_of_chains {g : Graph} (n : Nat) {id : String}
    (h : ∀ rest : List String, (∀ x ∈ id :: rest, g.contains x = true) →
      (id :: rest).IsChain g.Lists → (id :: rest).length ≤ n) : g.Shallow n id := by
  induction n generalizing id with
  | zero =>
    by_contra hnode
    have hlen := h [] (by simpa [Shallow] using hnode) (by simp)
    simp at hlen
  | succ n ih =>
    intro name hname
    refine ih fun rest hnodes hchain => ?_
    have hlist : g.Lists id name := hname
    have hlen := h (name :: rest) (List.forall_mem_cons.2 ⟨hlist.contains, hnodes⟩)
      (List.isChain_cons_cons.2 ⟨hlist, hchain⟩)
    simpa using hlen

theorem Shallow.length_le {g : Graph} {n : Nat} {id : String} (h : g.Shallow n id)
    {rest : List String} (hnodes : ∀ x ∈ id :: rest, g.contains x = true)
    (hchain : (id :: rest).IsChain g.Lists) : (id :: rest).length ≤ n := by
  induction n generalizing id rest with
  | zero =>
    have hid := hnodes id List.mem_cons_self
    simp only [Shallow] at h
    simp [h] at hid
  | succ n ih =>
    cases rest with
    | nil => simp
    | cons name rest =>
      obtain ⟨hlist, hrest⟩ := List.isChain_cons_cons.1 hchain
      have hlen := ih (h name hlist) (List.forall_mem_cons.1 hnodes).2 hrest
      simpa using hlen

theorem chainsWithin_iff {g : Graph} {n : Nat} :
    g.ChainsWithin n ↔ ∀ id ∈ g.ids, g.Shallow n id := by
  constructor
  · exact fun h id _ => shallow_of_chains n fun rest => h (id :: rest)
  · intro h chain hnodes hchain
    cases chain with
    | nil => simp
    | cons id rest =>
      have hid := contains_iff_mem_ids.1 (hnodes id List.mem_cons_self)
      exact (h id hid).length_le hnodes hchain

instance (g : Graph) (n : Nat) : Decidable (g.ChainsWithin n) :=
  decidable_of_iff _ chainsWithin_iff.symm

theorem ChainsWithin.shallow {g : Graph} {n : Nat} (h : g.ChainsWithin n) (id : String) :
    g.Shallow n id :=
  shallow_of_chains n fun rest => h (id :: rest)

theorem chainsWithin_of_pristine_eq {g h : Graph} (heq : g.pristine = h.pristine) {n : Nat}
    (hg : g.ChainsWithin n) : h.ChainsWithin n := by
  intro chain hnodes hchain
  refine hg chain (fun id hid => ?_) (lists_of_pristine_eq heq ▸ hchain)
  rw [contains_of_pristine_eq heq]
  exact hnodes id hid

/-! ## Cycles -/

/-- No id reaches itself along dependencies. -/
def Acyclic (g : Graph) : Prop := ∀ id, ¬TransGen g.Lists id id

theorem Shallow.not_cycle {g : Graph} {n : Nat} {id : String} (h : g.Shallow n id) :
    ¬TransGen g.Lists id id := by
  intro hcycle
  obtain ⟨name, hlist, hback⟩ := TransGen.head'_iff.1 hcycle
  induction n generalizing id name with
  | zero =>
    have hid := hlist.contains
    simp only [Shallow] at h
    simp [h] at hid
  | succ n ih =>
    have hname : TransGen g.Lists name name := TransGen.tail' hback hlist
    obtain ⟨next, hlist', hback'⟩ := TransGen.head'_iff.1 hname
    exact ih (h name hlist) hname next hlist' hback'

theorem Acyclic.nodup_of_isChain {g : Graph} (h : g.Acyclic) {chain : List String}
    (hchain : chain.IsChain g.Lists) : chain.Nodup := by
  have hpairs : chain.Pairwise (TransGen g.Lists) :=
    (hchain.imp fun _ _ hlist => TransGen.single hlist).pairwise
  refine hpairs.imp fun {a b} hab heq => ?_
  subst heq
  exact h a hab

theorem Acyclic.chainsWithin {g : Graph} (h : g.Acyclic) : g.ChainsWithin g.size := by
  intro chain hnodes hchain
  have hsubset : chain ⊆ g.ids := fun id hid => contains_iff_mem_ids.1 (hnodes id hid)
  have hlen := ((h.nodup_of_isChain hchain).subperm hsubset).length_le
  simpa [ids, Keyed.keys, size] using hlen

theorem acyclic_of_pristine_eq {g h : Graph} (heq : g.pristine = h.pristine) (hg : g.Acyclic) :
    h.Acyclic := by
  rw [Acyclic, ← lists_of_pristine_eq heq]
  exact hg

theorem acyclic_empty : empty.Acyclic := by
  intro id hcycle
  obtain ⟨name, hlist, -⟩ := TransGen.head'_iff.1 hcycle
  simp [lists_iff] at hlist

theorem Acyclic.drop {g : Graph} (h : g.Acyclic) (id : String) : (g.drop id).Acyclic :=
  fun x hcycle => h x (TransGen.mono (fun _ _ hlist => (lists_drop.1 hlist).2) x x hcycle)

/-- A path to an id does not use what the id lists itself. -/
theorem reaches_of_reaches_put {g : Graph} {id a : String} {d : NodeDefinition}
    (h : ReflTransGen (g.put id d).Lists a id) : ReflTransGen g.Lists a id := by
  induction h using ReflTransGen.head_induction_on with
  | refl => exact .refl
  | head hlist _ ih =>
    rcases lists_put.1 hlist with ⟨rfl, -⟩ | ⟨-, hold⟩
    · exact .refl
    · exact .head hold ih

/-- A chain either was there before a definition or passes through the defined id. -/
theorem transGen_put {g : Graph} {id x y : String} {d : NodeDefinition}
    (h : TransGen (g.put id d).Lists x y) : TransGen g.Lists x y ∨
      (ReflTransGen (g.put id d).Lists x id ∧ TransGen (g.put id d).Lists id y) := by
  induction h with
  | single hlist =>
    rcases lists_put.1 hlist with ⟨rfl, -⟩ | ⟨-, hold⟩
    · exact .inr ⟨.refl, .single hlist⟩
    · exact .inl (.single hold)
  | tail hpath hlist ih =>
    rcases ih with hold | ⟨hto, hfrom⟩
    · rcases lists_put.1 hlist with ⟨rfl, -⟩ | ⟨-, hold'⟩
      · exact .inr ⟨hpath.to_reflTransGen, .single hlist⟩
      · exact .inl (hold.tail hold')
    · exact .inr ⟨hto, hfrom.tail hlist⟩

/-- A definition closes no cycle unless one of its dependencies reaches the defined id. -/
theorem Acyclic.put {g : Graph} (h : g.Acyclic) {id : String} {d : NodeDefinition}
    (hfree : ¬∃ name ∈ d.dependencies, ReflTransGen g.Lists name id) : (g.put id d).Acyclic := by
  -- a new cycle would pass through the defined id, and its way back there uses old edges only
  have hid : ¬TransGen (g.put id d).Lists id id := by
    intro hcycle
    obtain ⟨name, hlist, hback⟩ := TransGen.head'_iff.1 hcycle
    rcases lists_put.1 hlist with ⟨-, hmem⟩ | ⟨hne, -⟩
    · exact hfree ⟨name, hmem, reaches_of_reaches_put hback⟩
    · exact hne rfl
  intro x hcycle
  rcases transGen_put hcycle with hold | ⟨hto, hfrom⟩
  · exact h x hold
  · exact hid (TransGen.trans_left hfrom hto)

end FormulaPipeline.Graph
