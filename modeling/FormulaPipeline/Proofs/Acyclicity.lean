import FormulaPipeline.Proofs.History

/-!
# Acyclic graphs

Whatever is asked of a calculator, its dependencies close no cycle. A definition is refused exactly
when it would close one; the reported path shows it, and nothing is changed.
-/

namespace FormulaPipeline

open Relation

namespace Graph

structure WellFormed (g : Graph) : Prop where
  acyclic : g.Acyclic
  /-- Every node stands under its own id. -/
  keyed : ∀ id node, (id, node) ∈ g.nodes → node.id = id
  /-- No removed id is the id of a node. -/
  present : ∀ id ∈ g.ids, g.wasRemoved id = false

namespace WellFormed

variable {g h : Graph}

theorem id_eq (hg : g.WellFormed) {id : String} {node : Node} (hnode : g.find? id = some node) :
    node.id = id :=
  hg.keyed id node (Keyed.mem_of_find? hnode)

theorem of_find? (hacyclic : g.Acyclic) (hkeyed : ∀ id node, g.find? id = some node → node.id = id)
    (hpresent : ∀ id node, g.find? id = some node → g.wasRemoved id = false) : g.WellFormed where
  acyclic := hacyclic
  keyed id node hmem := hkeyed id node (g.sorted.find?_of_mem hmem)
  present id hid := by
    obtain ⟨node, hnode⟩ := contains_iff.1 (contains_iff_mem_ids.2 hid)
    exact hpresent id node hnode

theorem wasRemoved_eq (hg : g.WellFormed) {id : String} {node : Node}
    (hnode : g.find? id = some node) : g.wasRemoved id = false :=
  hg.present id (contains_iff_mem_ids.1 (contains_iff.2 ⟨node, hnode⟩))

theorem empty : Graph.empty.WellFormed :=
  of_find? acyclic_empty (by simp) (by simp)

theorem of_pristine_eq (hg : g.WellFormed) (heq : h.pristine = g.pristine) : h.WellFormed := by
  refine of_find? (acyclic_of_pristine_eq heq.symm hg.acyclic) (fun id node hnode => ?_)
    (fun id node hnode => ?_)
  · obtain ⟨other, hother, hreset⟩ := exists_of_pristine_eq heq hnode
    have hid : other.id = node.id := by simpa [Node.reset] using congrArg Node.id hreset
    rw [← hid, hg.id_eq hother]
  · obtain ⟨other, hother, -⟩ := exists_of_pristine_eq heq hnode
    rw [wasRemoved_of_pristine_eq heq, hg.wasRemoved_eq hother]

theorem put (hg : g.WellFormed) {id : String} {d : NodeDefinition}
    (hfree : ¬∃ name ∈ d.dependencies, ReflTransGen g.Lists name id) :
    (g.put id d).WellFormed := by
  refine of_find? (hg.acyclic.put hfree) (fun x node hnode => ?_) (fun x node hnode => ?_)
  all_goals rw [find?_put] at hnode
  · split at hnode
    · rename_i hx
      obtain rfl := Option.some.inj hnode
      exact hx
    · exact hg.id_eq hnode
  · rw [wasRemoved_put]
    split at hnode
    · rename_i hx
      rw [if_pos hx]
    · rename_i hx
      rw [if_neg hx, hg.wasRemoved_eq hnode]

theorem drop (hg : g.WellFormed) (id : String) : (g.drop id).WellFormed := by
  refine of_find? (hg.acyclic.drop id) (fun x node hnode => ?_) (fun x node hnode => ?_)
  all_goals rw [find?_drop] at hnode
  all_goals split at hnode
  · simp at hnode
  · exact hg.id_eq hnode
  · simp at hnode
  · rename_i hx
    rw [wasRemoved_drop, if_neg hx, hg.wasRemoved_eq hnode]

end WellFormed

end Graph

namespace Calculator

theorem wellFormed_perform {c : Calculator} (hc : c.graph.WellFormed) (op : Operation) :
    (c.perform op).graph.WellFormed := by
  rcases c.pristine_perform_cases op with h | ⟨id, d, -, hfree, h⟩ | ⟨id, h⟩
  · exact hc.of_pristine_eq h
  · exact (hc.put hfree).of_pristine_eq h
  · exact (hc.drop id).of_pristine_eq h

theorem wellFormed_after {c : Calculator} (hc : c.graph.WellFormed) (ops : List Operation) :
    (c.after ops).graph.WellFormed :=
  after_induction (I := fun c => c.graph.WellFormed) ops hc fun _ op _ h => wellFormed_perform h op

theorem Reachable.wellFormed {c : Calculator} (hc : c.Reachable) : c.graph.WellFormed := by
  obtain ⟨config, ops, rfl⟩ := hc
  have hempty : ({ config := config } : Calculator).graph.WellFormed := .empty
  exact wellFormed_after hempty ops

theorem perform_set_of_error {c : Calculator} {id : String} {d : NodeDefinition} {cycle : Cycle}
    (h : c.graph.define id d = .error cycle) : c.perform (.set id d) = c := by
  simp [perform, set, h]

/-- After any operations the graph is well formed. A definition is then refused exactly when one of
its dependencies reaches the defined id; the calculator stays as it is, and the reported path closes
at the id. The search for the path is never cut short. -/
theorem cycle_check_exact (config : Config) (ops : List Operation) (id : String)
    (d : NodeDefinition) :
    let c := Calculator.after { config := config } ops
    c.graph.WellFormed ∧
      ((∃ cycle, c.graph.define id d = .error cycle) ↔
        ∃ name ∈ d.dependencies, ReflTransGen c.graph.Lists name id) ∧
      (∀ cycle, c.graph.define id d = .error cycle →
        c.perform (.set id d) = c ∧ c.graph.ClosingPath id d.dependencies cycle.path) ∧
      ∀ depth, c.graph.size ≤ depth →
        c.graph.search depth id d.dependencies = c.graph.search c.graph.size id d.dependencies := by
  intro c
  have hc : c.graph.WellFormed := wellFormed_after (c := { config := config }) .empty ops
  refine ⟨hc, Graph.exists_define_eq_error_iff, fun cycle hcycle => ?_,
    fun depth hdepth => Graph.search_eq_of_size_le hdepth⟩
  exact ⟨perform_set_of_error hcycle,
    Graph.closingPath_of_cycle? (Graph.define_eq_error_iff.1 hcycle)⟩

/-- A definition of `c` over an older one. The search fails at `d`, goes on through `a` and `b`,
where a removed name and `d` once more lead nowhere, and finds `c`. -/
theorem cycle_check_exact_of_dead_ends :
    let ops := [.set "a" { dependencies := ["d", "b"] },
      .set "b" { dependencies := ["gone", "d", "c"] }, .set "c" { dependencies := ["d"] },
      .set "d" {}, .set "gone" {}, .remove "gone"]
    let c := Calculator.after {} ops
    c.graph.define "c" { dependencies := ["d", "a"] } = .error ⟨["c", "a", "b", "c"]⟩ ∧
      c.graph.ClosingPath "c" ["d", "a"] ["c", "a", "b", "c"] ∧
      c.graph.search 1000 "c" ["d", "a"] = c.graph.search c.graph.size "c" ["d", "a"] := by
  intro ops c
  have hcycle : c.graph.define "c" { dependencies := ["d", "a"] } =
      .error ⟨["c", "a", "b", "c"]⟩ := Graph.define_eq_error_iff.2 (by decide)
  obtain ⟨-, -, hpath, hdepth⟩ := cycle_check_exact {} ops "c" { dependencies := ["d", "a"] }
  exact ⟨hcycle, (hpath _ hcycle).2, hdepth 1000 (by decide)⟩

end Calculator

end FormulaPipeline
