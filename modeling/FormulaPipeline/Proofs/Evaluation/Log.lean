import FormulaPipeline.Proofs.Evaluation.Frame
import FormulaPipeline.Proofs.Graph.Dependence

/-!
# The log of entered nodes

A call logs every node that it enters, together with the nodes that are being evaluated at that
moment. No chain of the log repeats an id or is longer than the configuration allows, and no node is
entered twice: an entered node is being evaluated, or its outcome is known for the rest of the call.
-/

namespace FormulaPipeline.Environment

theorem settled?_eq_none_iff {active : List String} {id : String} {s : Session} :
    settled? active id s = none ↔ ∃ node, s.graph.find? id = some node ∧ node.fresh? = none ∧
      s.outcome? id = none ∧ id ∉ active := by
  unfold settled?
  cases s.graph.find? id with
  | none => simp
  | some node =>
    cases hfresh : node.fresh? with
    | some v => simp [hfresh]
    | none => cases s.outcome? id <;> simp [hfresh]

theorem nodup_chain {active : List String} {id : String} (hactive : active.Nodup)
    (hfree : id ∉ active) : (active ++ [id]).Nodup := by
  rw [← List.concat_eq_append]
  exact hactive.concat hfree

/-- What holds of the log of a session while some nodes are being evaluated. -/
structure Logged (env : Environment) (active : List String) (s : Session) : Prop where
  nodup : ∀ chain ∈ s.entered, chain.Nodup
  length_le : ∀ chain ∈ s.entered, chain.length ≤ env.config.maxDepth
  once : (s.entered.map List.getLast?).Nodup
  seen : ∀ chain ∈ s.entered, ∃ id, chain.getLast? = some id ∧ s.graph.contains id = true ∧
    (id ∈ active ∨ (s.outcome? id).isSome = true)

namespace Logged

variable {env : Environment} {active : List String} {s : Session}

theorem start (m : Memory) : env.Logged [] (Session.start m) where
  nodup := by simp [Session.start]
  length_le := by simp [Session.start]
  once := by simp [Session.start]
  seen := by simp [Session.start]

theorem warn (hs : env.Logged active s) (text : String) : env.Logged active (s.warn text) :=
  ⟨hs.nodup, hs.length_le, hs.once, hs.seen⟩

theorem called (hs : env.Logged active s) (name : String) : env.Logged active (s.called name) :=
  ⟨hs.nodup, hs.length_le, hs.once, hs.seen⟩

/-- A node that is neither being evaluated nor known has not been entered before. -/
theorem enter (hs : env.Logged active s) {id : String} (hactive : active.Nodup)
    (hroom : active.length < env.config.maxDepth) (hnew : settled? active id s = none) :
    env.Logged (active ++ [id]) (s.enter (active ++ [id])) := by
  obtain ⟨node, hnode, -, hunknown, hfree⟩ := settled?_eq_none_iff.1 hnew
  refine ⟨List.forall_mem_cons.2 ⟨?_, hs.nodup⟩, List.forall_mem_cons.2 ⟨?_, hs.length_le⟩, ?_,
    List.forall_mem_cons.2 ⟨?_, fun chain hchain => ?_⟩⟩
  · exact nodup_chain hactive hfree
  · rw [List.length_append, List.length_singleton]
    exact hroom
  · refine List.nodup_cons.2 ⟨fun hmem => ?_, hs.once⟩
    obtain ⟨chain, hchain, hlast⟩ := List.mem_map.1 hmem
    obtain ⟨x, hx, -, hseen⟩ := hs.seen chain hchain
    rw [List.getLast?_concat, hx] at hlast
    obtain rfl := Option.some.inj hlast
    rcases hseen with hx | hx
    · exact hfree hx
    · simp [hunknown] at hx
  · exact ⟨id, List.getLast?_concat, Graph.contains_iff.2 ⟨node, hnode⟩, by simp⟩
  · obtain ⟨x, hx, hcontains, hseen⟩ := hs.seen chain hchain
    exact ⟨x, hx, hcontains, hseen.imp_left (List.mem_append_left _)⟩

/-- A node whose evaluation ends is known from then on. -/
theorem finish {id : String} (hs : env.Logged (active ++ [id]) s) (outcome : Outcome) :
    env.Logged active (s.finish id outcome) where
  nodup := hs.nodup
  length_le := hs.length_le
  once := hs.once
  seen := by
    intro chain hchain
    obtain ⟨x, hx, hcontains, hseen⟩ := hs.seen chain hchain
    refine ⟨x, hx, by simpa [Graph.store] using hcontains, ?_⟩
    rw [Session.outcome?_finish]
    by_cases hid : id = x
    · simp [hid]
    · rw [if_neg hid]
      refine hseen.imp_left fun hmem => ?_
      rcases List.mem_append.1 hmem with hmem | hmem
      · exact hmem
      · exact (hid (List.mem_singleton.1 hmem).symm).elim

theorem run (hs : env.Logged active s) (visit : Visit)
    (hvisit : ∀ id s, env.Logged active s → env.Logged active (visit id s).2) (p : List Step)
    (input : Value) : env.Logged active (env.run visit p input s).2 :=
  env.run_induction hvisit (fun _ text h => h.warn text) (fun _ name h => h.called name) p input hs

/-- An evaluation keeps the log as it has to be, as long as the depth that is left and the nodes
that are being evaluated together make up the depth of the configuration. -/
theorem node (depth : Nat) {active : List String} (hactive : active.Nodup)
    (hdepth : active.length + depth = env.config.maxDepth) (id : String) {s : Session}
    (hs : env.Logged active s) : env.Logged active (env.node depth active id s).2 := by
  induction depth generalizing active id s with
  | zero =>
    rw [Environment.node]
    cases settled? active id s <;> exact hs
  | succ depth ih =>
    rw [Environment.node]
    cases hsettled : settled? active id s with
    | some answer => exact hs
    | none =>
      obtain ⟨node, hnode, -, -, hfree⟩ := settled?_eq_none_iff.1 hsettled
      have hnode' : (s.enter (active ++ [id])).graph.find? id = some node := hnode
      have hnext : ∀ x t, env.Logged (active ++ [id]) t →
          env.Logged (active ++ [id]) (env.node depth (active ++ [id]) x t).2 := by
        refine fun x t ht => ih (nodup_chain hactive hfree) ?_ x ht
        rw [List.length_append, List.length_singleton]
        omega
      have hready := refresh_induction node.dependencies (fun x _ t => hnext x t)
        (hs.enter hactive (by omega) hsettled)
      let visit := env.node depth (active ++ [id])
      have hlast := hready.run (fun x t => ((visit x t).1.outcome, (visit x t).2)) hnext
        node.pipeline env.context.value
      have henter := env.enter_eq_run visit hnode'
      exact (congrArg Prod.snd henter) ▸ hlast.finish _

/-- At most as many nodes are entered as there are. -/
theorem length_entered_le (hs : env.Logged active s) : s.entered.length ≤ s.graph.size := by
  have hsubset : s.entered.map List.getLast? ⊆ s.graph.ids.map some := by
    intro last hlast
    obtain ⟨chain, hchain, rfl⟩ := List.mem_map.1 hlast
    obtain ⟨id, hid, hcontains, -⟩ := hs.seen chain hchain
    rw [hid]
    exact List.mem_map_of_mem (Graph.contains_iff_mem_ids.1 hcontains)
  have hlen := (hs.once.subperm hsubset).length_le
  simpa [Graph.ids, Keyed.keys, Graph.size] using hlen

end Logged

end FormulaPipeline.Environment
