import FormulaPipeline.Proofs.Acyclicity
import FormulaPipeline.Proofs.Graph.Order

/-!
# The order of a recomputation

Every node has one place. After any operations the graph has no cycle, so the next node is always
the least one whose dependencies have their places.
-/

namespace FormulaPipeline.Calculator

/-- The topological order of a graph holds every id once. After any operations each id in it comes
after the nodes that it lists, and no smaller id that comes later could have taken its place. Ids
are compared by their characters, which is the order of their bytes. -/
theorem topologicalOrder_greedy :
    (∀ g : Graph, g.topologicalOrder.Nodup ∧
      ∀ id, id ∈ g.topologicalOrder ↔ g.contains id = true) ∧
    ∀ c : Calculator, c.Reachable → ∀ before id after,
      c.graph.topologicalOrder = before ++ id :: after →
        (∀ x, c.graph.Lists id x → c.graph.contains x = true → x ∈ before) ∧
        ∀ y ∈ after,
          (∀ x, c.graph.Lists y x → c.graph.contains x = true → x ∈ before) → id < y := by
  constructor
  · intro g
    refine ⟨g.perm_topologicalOrder.nodup_iff.2 g.nodup_ids, fun id => ?_⟩
    rw [g.perm_topologicalOrder.mem_iff, Graph.contains_iff_mem_ids]
  · intro c hc before id after hsplit
    have horder := hc.wellFormed.acyclic.inOrder_topologicalOrder
    rw [hsplit] at horder
    rw [Graph.topologicalOrder_eq] at hsplit
    refine ⟨fun x hlist hcontains => ?_, fun y hy hready => ?_⟩
    · exact (horder.mem_of_lists hlist hcontains).resolve_right List.not_mem_nil
    · apply Graph.lt_of_orderFrom c.graph.sorted.keys_lt hsplit hy
      exact fun x hlist hcontains => .inl (hready x hlist hcontains)

/-- A node that lists one name twice and one that is no node, and a node that was removed. -/
theorem topologicalOrder_greedy_of_diamond :
    let c := after {} [.set "a" { dependencies := ["d", "x", "d"] }, .set "b" {},
      .set "c" { dependencies := ["a", "b"] }, .set "d" { dependencies := ["gone"] },
      .set "gone" {}, .remove "gone"]
    c.graph.topologicalOrder = ["b", "d", "a", "c"] ∧ "b" < "d" ∧
      ∀ x, c.graph.Lists "a" x → c.graph.contains x = true → x ∈ ["b", "d"] := by
  intro c
  have horder : c.graph.topologicalOrder = ["b", "d", "a", "c"] := by decide +kernel
  have hplace := topologicalOrder_greedy.2 c ⟨_, _, rfl⟩
  refine ⟨horder, (hplace [] "b" ["d", "a", "c"] horder).2 "d" (by decide) ?_,
    (hplace ["b", "d"] "a" ["c"] horder).1⟩
  -- the only name that the node lists is none any more
  have hnone : (c.graph.dependenciesOf "d").all fun x => !c.graph.contains x := by decide +kernel
  intro x hlist hcontains
  have hnot := List.all_eq_true.1 hnone x hlist
  simp [hcontains] at hnot

end FormulaPipeline.Calculator
