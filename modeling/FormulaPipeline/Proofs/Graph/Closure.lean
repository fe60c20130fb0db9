import FormulaPipeline.Graph.Closure
import Mathlib.Data.Finset.Card
import Mathlib.Logic.Relation

/-!
# Closures are reachability

A closure holds exactly what chains of successors reach, provided that the number of rounds is at
least the number of ids that are reached and have successors. In every round but the last one such
id has been looked at.
-/

namespace FormulaPipeline.Closure

open Relation

def Step (next : String → List String) (a b : String) : Prop := b ∈ next a

variable {next : String → List String}

theorem mem_fresh {seen frontier : List String} {x : String} :
    x ∈ fresh next seen frontier ↔ (∃ a ∈ frontier, x ∈ next a) ∧ x ∉ seen := by
  simp [fresh, List.mem_eraseDups, List.mem_flatMap]

theorem subset_grow (rounds : Nat) (seen frontier : List String) {x : String} (hx : x ∈ seen) :
    x ∈ grow next rounds seen frontier := by
  induction rounds generalizing seen frontier with
  | zero => exact hx
  | succ rounds ih =>
    simp only [grow]
    split
    · exact hx
    · exact ih _ _ (List.mem_append_left _ hx)

theorem exists_reaches_of_mem_grow (rounds : Nat) (seen frontier : List String)
    (hfrontier : ∀ a ∈ frontier, a ∈ seen) {x : String} (hx : x ∈ grow next rounds seen frontier) :
    ∃ a ∈ seen, ReflTransGen (Step next) a x := by
  induction rounds generalizing seen frontier with
  | zero => exact ⟨x, hx, .refl⟩
  | succ rounds ih =>
    simp only [grow] at hx
    split at hx
    · exact ⟨x, hx, .refl⟩
    · rename_i id rest hfresh
      obtain ⟨a, ha, hreach⟩ := ih _ _ (fun a ha => List.mem_append_right _ ha) hx
      rcases List.mem_append.1 ha with hseen | hnew
      · exact ⟨a, hseen, hreach⟩
      · obtain ⟨⟨b, hb, hba⟩, -⟩ := mem_fresh.1 (hfresh ▸ hnew)
        exact ⟨b, hfrontier b hb, .head hba hreach⟩

/-- The ids with successors that have not been looked at: those that are unseen or in the
frontier. -/
def pending (active : Finset String) (seen frontier : List String) : Finset String :=
  active.filter fun a => a ∈ seen → a ∈ frontier

theorem card_pending_lt {active : Finset String} {seen frontier : List String}
    (hactive : ∀ a ∈ frontier, next a ≠ [] → a ∈ active) (hfrontier : ∀ a ∈ frontier, a ∈ seen)
    (hfresh : fresh next seen frontier ≠ []) :
    (pending active (seen ++ fresh next seen frontier) (fresh next seen frontier)).card <
      (pending active seen frontier).card := by
  obtain ⟨x, hx⟩ := List.exists_mem_of_ne_nil _ hfresh
  obtain ⟨⟨a, ha, hax⟩, -⟩ := mem_fresh.1 hx
  have hmem : a ∈ pending active seen frontier :=
    Finset.mem_filter.2 ⟨hactive a ha (List.ne_nil_of_mem hax), fun _ => ha⟩
  have hnot : a ∉ pending active (seen ++ fresh next seen frontier)
      (fresh next seen frontier) := by
    intro h
    have hnew := (Finset.mem_filter.1 h).2 (List.mem_append_left _ (hfrontier a ha))
    exact (mem_fresh.1 hnew).2 (hfrontier a ha)
  have hsubset : pending active (seen ++ fresh next seen frontier) (fresh next seen frontier) ⊆
      pending active seen frontier := by
    intro b hb
    obtain ⟨hmem', himp⟩ := Finset.mem_filter.1 hb
    refine Finset.mem_filter.2 ⟨hmem', fun hseen => ?_⟩
    exact ((mem_fresh.1 (himp (List.mem_append_left _ hseen))).2 hseen).elim
  exact Finset.card_lt_card ((Finset.ssubset_iff_of_subset hsubset).2 ⟨a, hmem, hnot⟩)

/-- With enough rounds nothing that is reached has a successor outside. -/
theorem grow_closed {active : Finset String}
    (hnext : ∀ a, ∀ b ∈ next a, next b ≠ [] → b ∈ active) (rounds : Nat)
    (seen frontier : List String) (hactive : ∀ a ∈ frontier, next a ≠ [] → a ∈ active)
    (hfrontier : ∀ a ∈ frontier, a ∈ seen)
    (hclosed : ∀ a ∈ seen, a ∉ frontier → ∀ b ∈ next a, b ∈ seen)
    (hrounds : (pending active seen frontier).card ≤ rounds) :
    ∀ a ∈ grow next rounds seen frontier, ∀ b ∈ next a, b ∈ grow next rounds seen frontier := by
  induction rounds generalizing seen frontier with
  | zero =>
    intro a ha b hb
    by_cases hmem : a ∈ frontier
    · have hpending : a ∈ pending active seen frontier :=
        Finset.mem_filter.2 ⟨hactive a hmem (List.ne_nil_of_mem hb), fun _ => hmem⟩
      rw [Finset.card_eq_zero.1 (Nat.le_zero.1 hrounds)] at hpending
      simp at hpending
    · exact hclosed a ha hmem b hb
  | succ rounds ih =>
    simp only [grow]
    split
    · rename_i hfresh
      intro a ha b hb
      by_cases hseen : b ∈ seen
      · exact hseen
      · by_cases hmem : a ∈ frontier
        · have hnew : b ∈ fresh next seen frontier := mem_fresh.2 ⟨⟨a, hmem, hb⟩, hseen⟩
          simp [hfresh] at hnew
        · exact hclosed a ha hmem b hb
    · rename_i id rest hfresh
      rw [← hfresh]
      have hlt := card_pending_lt hactive hfrontier (by simp [hfresh])
      apply ih
      · intro b hb
        obtain ⟨⟨a, -, hab⟩, -⟩ := mem_fresh.1 hb
        exact hnext a b hab
      · exact fun a ha => List.mem_append_right _ ha
      · intro a ha hnot b hb
        rw [List.mem_append] at ha ⊢
        have hseen : a ∈ seen := ha.resolve_right hnot
        by_cases hmem : a ∈ frontier
        · by_cases hb' : b ∈ seen
          · exact .inl hb'
          · exact .inr (mem_fresh.2 ⟨⟨a, hmem, hb⟩, hb'⟩)
        · exact .inl (hclosed a hseen hmem b hb)
      · omega

/-- The closure of some ids is what they reach. -/
theorem mem_reach_iff {active : Finset String}
    (hnext : ∀ a, ∀ b ∈ next a, next b ≠ [] → b ∈ active) {start : List String}
    (hstart : ∀ a ∈ start, next a ≠ [] → a ∈ active) {rounds : Nat}
    (hrounds : active.card ≤ rounds) {x : String} :
    x ∈ reach next rounds start ↔ ∃ a ∈ start, ReflTransGen (Step next) a x := by
  constructor
  · intro hx
    obtain ⟨a, ha, hreach⟩ := exists_reaches_of_mem_grow _ _ _ (fun _ h => h) hx
    exact ⟨a, List.mem_eraseDups.1 ha, hreach⟩
  · rintro ⟨a, ha, hreach⟩
    -- the closure holds the start and is closed, so it holds all chains from the start
    induction hreach with
    | refl => exact subset_grow _ _ _ (List.mem_eraseDups.2 ha)
    | tail _ hstep ih =>
      refine grow_closed hnext _ _ _ (fun b hb => hstart b (List.mem_eraseDups.1 hb))
        (fun _ h => h) (fun b hb hnot => (hnot hb).elim) ?_ _ ih _ hstep
      exact (Finset.card_filter_le _ _).trans hrounds

end FormulaPipeline.Closure
