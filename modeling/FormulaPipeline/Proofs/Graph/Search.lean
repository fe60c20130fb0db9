import FormulaPipeline.Graph.Search
import FormulaPipeline.Proofs.Graph.Closure
import Mathlib.Data.List.Chain

/-!
# Searches find what is reached

A search that succeeds has added to its path a way along successors that enters each id once, and
none where the search had been before. A search that fails leaves the path as it was, and the ids
where it has been since are closed under successors. So a search from the start finds its target
exactly if it is reached. Every id that a branch goes on from is new to the search, and with room
for all of them the bound on branches is never met.
-/

namespace FormulaPipeline.Search

open Closure (Step)
open Relation

variable {next : String → List String} {target id : String} {ids : List String} {s t : Search}

@[simp] theorem path_push (s : Search) (id : String) : (s.push id).path = s.path ++ [id] := rfl

@[simp] theorem path_visit (s : Search) (id : String) : (s.visit id).path = s.path := rfl

@[simp] theorem visited_push (s : Search) (id : String) : (s.push id).visited = s.visited := rfl

theorem path_pop_of_eq {path : List String} (h : s.path = path ++ [id]) : s.pop.path = path := by
  rw [pop, h, List.dropLast_concat]

/-! ## What a search ends in -/

/-- A way from an id to the target along successors. It enters each id once, and but for the target
none of those where the search had been. -/
structure Way (next : String → List String) (target : String) (visited : List String) (id : String)
    (way : List String) : Prop where
  starts : way.head? = some id
  ends : way.getLast? = some target
  edges : way.IsChain (Step next)
  nodup : way.Nodup
  new : ∀ x ∈ way, x = target ∨ x ∉ visited

/-- A search from some ids has not found its target. It has been at all of these ids, and from where
it has been since nothing leads to the target or to an id where it has not been. -/
structure Failed (next : String → List String) (target : String) (ids : List String)
    (s t : Search) : Prop where
  path_eq : t.path = s.path
  kept : ∀ x ∈ s.visited, x ∈ t.visited
  tried : ∀ x ∈ ids, x ∈ t.visited
  closed : ∀ x ∈ t.visited, x ∈ s.visited ∨ x ≠ target ∧ ∀ y ∈ next x, y ∈ t.visited

inductive Ends (next : String → List String) (target : String) (ids : List String) (s : Search) :
    Bool × Search → Prop
  | found {t : Search} {id : String} {way : List String} (hid : id ∈ ids)
      (hway : Way next target s.visited id way) (hpath : t.path = s.path ++ way) :
      Ends next target ids s (true, t)
  | failed {t : Search} (h : Failed next target ids s t) : Ends next target ids s (false, t)

namespace Way

variable {visited way : List String}

theorem target_self (next : String → List String) (target : String) (visited : List String) :
    Way next target visited target [target] where
  starts := rfl
  ends := rfl
  edges := .singleton target
  nodup := List.nodup_singleton target
  new := by simp

theorem mono {older : List String} (h : Way next target visited id way)
    (hold : ∀ x ∈ older, x ∈ visited) : Way next target older id way :=
  { h with new := fun x hx => (h.new x hx).imp_right (mt (hold x)) }

/-- A way from a successor is one from the id, where the search has just been. -/
theorem cons {a : String} (h : Way next target (id :: visited) a way) (hstep : Step next id a)
    (hne : id ≠ target) (hnew : id ∉ visited) : Way next target visited id (id :: way) where
  starts := rfl
  ends := by
    rw [List.getLast?_cons, h.ends]
    rfl
  edges := by
    refine List.isChain_cons.2 ⟨fun y hy => ?_, h.edges⟩
    rw [h.starts] at hy
    obtain rfl := Option.mem_some_iff.1 hy
    exact hstep
  nodup := by
    refine List.nodup_cons.2 ⟨fun hid => ?_, h.nodup⟩
    exact (h.new id hid).elim hne fun hfresh => hfresh List.mem_cons_self
  new := by
    intro x hx
    obtain rfl | hx := List.mem_cons.1 hx
    · exact .inr hnew
    · exact (h.new x hx).imp_right fun hfresh hvisited => hfresh (List.mem_cons_of_mem _ hvisited)

theorem reaches (h : Way next target visited id way) : ReflTransGen (Step next) id target := by
  obtain ⟨rest, rfl⟩ := List.head?_eq_some_iff.1 h.starts
  refine List.relationReflTransGen_of_exists_isChain_cons rest h.edges ?_
  exact Option.some.inj ((List.getLast?_eq_some_getLast (List.cons_ne_nil _ _)).symm.trans h.ends)

end Way

namespace Failed

theorem nil (next : String → List String) (target : String) (s : Search) :
    Failed next target [] s s :=
  ⟨rfl, fun _ h => h, by simp, fun _ h => .inl h⟩

theorem trans {rest : List String} {u : Search} (h : Failed next target [id] s t)
    (hrest : Failed next target rest t u) : Failed next target (id :: rest) s u where
  path_eq := hrest.path_eq.trans h.path_eq
  kept x hx := hrest.kept x (h.kept x hx)
  tried := by
    rintro x hx
    obtain rfl | hx := List.mem_cons.1 hx
    · exact hrest.kept x (h.tried x List.mem_cons_self)
    · exact hrest.tried x hx
  closed := by
    intro x hx
    obtain hx | hx := hrest.closed x hx
    · exact (h.closed x hx).imp_right fun ⟨hne, hnext⟩ =>
        ⟨hne, fun y hy => hrest.kept y (hnext y hy)⟩
    · exact .inr hx

/-- An id fails if all of its successors do. -/
theorem pop (h : Failed next target (next id) ((s.push id).visit id) t) (hne : id ≠ target) :
    Failed next target [id] s t.pop where
  path_eq := path_pop_of_eq h.path_eq
  kept x hx := h.kept x (List.mem_cons_of_mem _ hx)
  tried x hx := h.kept x (List.mem_singleton.1 hx ▸ List.mem_cons_self)
  closed := by
    intro x hx
    obtain hx | hx := h.closed x hx
    · obtain rfl | hx := List.mem_cons.1 hx
      · exact .inr ⟨hne, h.tried⟩
      · exact .inl hx
    · exact .inr hx

/-- A search that has failed from its start has been wherever its ids lead, and not at the target.
-/
theorem not_reaches (h : Failed next target ids s t) (hstart : s.visited = []) :
    ¬∃ a ∈ ids, ReflTransGen (Step next) a target := by
  have hclosed : ∀ x ∈ t.visited, x ≠ target ∧ ∀ y ∈ next x, y ∈ t.visited := fun x hx =>
    (h.closed x hx).resolve_left (by simp [hstart])
  rintro ⟨a, ha, hreach⟩
  have hvisited {x : String} (hx : ReflTransGen (Step next) a x) : x ∈ t.visited := by
    induction hx with
    | refl => exact h.tried a ha
    | tail _ hstep ih => exact (hclosed _ ih).2 _ hstep
  exact (hclosed target (hvisited hreach)).1 rfl

end Failed

theorem Ends.stepBack {r : Bool × Search} (h : Ends next target (next id) ((s.push id).visit id) r)
    (hne : id ≠ target) (hnew : id ∉ s.visited) : Ends next target [id] s (stepBack r) := by
  cases h with
  | found ha hway hpath =>
    refine .found List.mem_cons_self (hway.cons ha hne hnew) ?_
    rw [hpath, path_visit, path_push, List.append_assoc, List.singleton_append]
  | failed h => exact .failed (h.pop hne)

/-! ## Room for all branches -/

/-- The ids with successors where the search has not been. -/
def unseen (active : Finset String) (s : Search) : Finset String :=
  active.filter fun a => a ∉ s.visited

variable {active : Finset String} {depth : Nat}

theorem card_unseen_le (h : ∀ x ∈ s.visited, x ∈ t.visited) :
    (unseen active t).card ≤ (unseen active s).card := by
  refine Finset.card_le_card fun x hx => ?_
  obtain ⟨hactive, hnew⟩ := Finset.mem_filter.1 hx
  exact Finset.mem_filter.2 ⟨hactive, mt (h x) hnew⟩

theorem card_unseen_visit_lt (hid : id ∈ active) (hnew : id ∉ s.visited) :
    (unseen active (s.visit id)).card < (unseen active s).card := by
  refine Finset.card_lt_card ((Finset.ssubset_iff_of_subset fun x hx => ?_).2 ⟨id, ?_, ?_⟩)
  · obtain ⟨hactive, hx⟩ := Finset.mem_filter.1 hx
    exact Finset.mem_filter.2 ⟨hactive, mt (List.mem_cons_of_mem id) hx⟩
  · exact Finset.mem_filter.2 ⟨hid, hnew⟩
  · exact fun h => (Finset.mem_filter.1 h).2 List.mem_cons_self

section Attempts

variable {attempt other : String → Search → Bool × Search}
  (hattempt : ∀ {id : String} {s : Search}, (unseen active s).card ≤ depth →
    Ends next target [id] s (attempt id s))
include hattempt

/-- Ids that are tried in turn end as each of them does. -/
theorem ends_tryEach (ids : List String) (hroom : (unseen active s).card ≤ depth) :
    Ends next target ids s (tryEach attempt ids s) := by
  induction ids generalizing s with
  | nil => exact .failed (.nil next target s)
  | cons id rest ih =>
    have hfirst := @hattempt id s hroom
    rw [tryEach]
    generalize attempt id s = r at hfirst
    cases hfirst with
    | @found t a way ha hway hpath =>
      obtain rfl := List.mem_singleton.1 ha
      exact .found List.mem_cons_self hway hpath
    | @failed t hfailed =>
      have hrest := ih ((card_unseen_le hfailed.kept).trans hroom)
      dsimp only
      generalize tryEach attempt rest t = r at hrest
      cases hrest with
      | found ha hway hpath =>
        exact .found (List.mem_cons_of_mem _ ha) (hway.mono hfailed.kept) (hfailed.path_eq ▸ hpath)
      | failed hrest => exact .failed (hfailed.trans hrest)

theorem tryEach_congr
    (hother : ∀ {id : String} {s : Search}, (unseen active s).card ≤ depth →
      other id s = attempt id s)
    (ids : List String) (hroom : (unseen active s).card ≤ depth) :
    tryEach other ids s = tryEach attempt ids s := by
  induction ids generalizing s with
  | nil => rfl
  | cons id rest ih =>
    have hfirst := @hattempt id s hroom
    rw [tryEach, tryEach, hother hroom]
    generalize attempt id s = r at hfirst
    cases hfirst with
    | found => rfl
    | failed hfailed => exact ih ((card_unseen_le hfailed.kept).trans hroom)

end Attempts

theorem reaches_target (depth : Nat) (s : Search) :
    reaches next target depth target s = (true, s.push target) := by
  unfold reaches
  exact if_pos rfl

theorem reaches_of_visited (hne : id ≠ target) (hvisited : id ∈ s.visited) (depth : Nat) :
    reaches next target depth id s = stepBack (false, s.push id) := by
  unfold reaches
  dsimp only
  rw [if_neg hne, visited_push, if_pos (List.contains_iff_mem.2 hvisited)]

theorem reaches_zero (hne : id ≠ target) (hnew : id ∉ s.visited) :
    reaches next target 0 id s = stepBack (false, (s.push id).visit id) := by
  unfold reaches
  dsimp only
  rw [if_neg hne, visited_push, if_neg (mt List.contains_iff_mem.1 hnew)]

theorem reaches_succ (hne : id ≠ target) (hnew : id ∉ s.visited) (depth : Nat) :
    reaches next target (depth + 1) id s =
      stepBack (tryEach (reaches next target depth) (next id) ((s.push id).visit id)) := by
  rw [reaches, if_neg hne, visited_push, if_neg (mt List.contains_iff_mem.1 hnew)]

section Room

variable (hactive : ∀ a, next a ≠ [] → a ∈ active)
include hactive

/-- Without room for a branch an id that is new to the search has no successors. -/
theorem next_eq_nil (hroom : (unseen active s).card ≤ 0) (hnew : id ∉ s.visited) :
    next id = [] := by
  by_contra hnext
  have hempty : unseen active s = ∅ := Finset.card_eq_zero.1 (Nat.le_zero.1 hroom)
  have hmem : id ∈ unseen active s := Finset.mem_filter.2 ⟨hactive id hnext, hnew⟩
  simp [hempty] at hmem

/-- There is room to go on from an id that is new to the search, unless it has no successors. -/
theorem next_eq_nil_or_room (hroom : (unseen active s).card ≤ depth + 1) (hnew : id ∉ s.visited) :
    next id = [] ∨ (unseen active ((s.push id).visit id)).card ≤ depth := by
  by_cases hnext : next id = []
  · exact .inl hnext
  · exact .inr (Nat.le_of_lt_succ ((card_unseen_visit_lt (hactive id hnext) hnew).trans_le hroom))

omit hactive in
/-- At the target and where it has been before a search stops at once. -/
theorem ends_reaches_of_new (hnew : id ≠ target → id ∉ s.visited →
    Ends next target [id] s (reaches next target depth id s)) :
    Ends next target [id] s (reaches next target depth id s) := by
  by_cases htarget : id = target
  · subst htarget
    rw [reaches_target]
    exact .found List.mem_cons_self (.target_self next id s.visited) rfl
  by_cases hvisited : id ∈ s.visited
  · rw [reaches_of_visited htarget hvisited]
    exact .failed ⟨path_pop_of_eq rfl, fun _ h => h,
      fun x hx => List.mem_singleton.1 hx ▸ hvisited, fun _ h => .inl h⟩
  · exact hnew htarget hvisited

theorem ends_reaches (hroom : (unseen active s).card ≤ depth) :
    Ends next target [id] s (reaches next target depth id s) := by
  induction depth generalizing id s with
  | zero =>
    refine ends_reaches_of_new fun hne hnew => ?_
    have hend : Ends next target (next id) ((s.push id).visit id)
        (false, (s.push id).visit id) := by
      rw [next_eq_nil hactive hroom hnew]
      exact .failed (.nil ..)
    rw [reaches_zero hne hnew]
    exact hend.stepBack hne hnew
  | succ depth ih =>
    refine ends_reaches_of_new fun hne hnew => ?_
    have hend : Ends next target (next id) ((s.push id).visit id)
        (tryEach (reaches next target depth) (next id) ((s.push id).visit id)) := by
      obtain hnext | hroom := next_eq_nil_or_room hactive hroom hnew
      · rw [hnext]
        exact .failed (.nil ..)
      · exact ends_tryEach ih (next id) hroom
    rw [reaches_succ hne hnew]
    exact hend.stepBack hne hnew

omit hactive in
theorem reaches_succ_eq_of_new (hnew : id ≠ target → id ∉ s.visited →
    reaches next target (depth + 1) id s = reaches next target depth id s) :
    reaches next target (depth + 1) id s = reaches next target depth id s := by
  by_cases htarget : id = target
  · subst htarget
    rw [reaches_target, reaches_target]
  by_cases hvisited : id ∈ s.visited
  · rw [reaches_of_visited htarget hvisited, reaches_of_visited htarget hvisited]
  · exact hnew htarget hvisited

/-- With room for all ids that have successors, more room changes nothing. -/
theorem reaches_succ_eq (hroom : (unseen active s).card ≤ depth) :
    reaches next target (depth + 1) id s = reaches next target depth id s := by
  induction depth generalizing id s with
  | zero =>
    refine reaches_succ_eq_of_new fun hne hnew => ?_
    rw [reaches_succ hne hnew, reaches_zero hne hnew, next_eq_nil hactive hroom hnew, tryEach]
  | succ depth ih =>
    refine reaches_succ_eq_of_new fun hne hnew => ?_
    rw [reaches_succ hne hnew, reaches_succ hne hnew]
    obtain hnext | hroom := next_eq_nil_or_room hactive hroom hnew
    · rw [hnext, tryEach, tryEach]
    · exact congrArg stepBack (tryEach_congr (ends_reaches hactive) ih (next id) hroom)

/-! ## Searches from the start -/

variable {path : List String} (hdepth : active.card ≤ depth)
include hdepth

theorem ends_start : Ends next target ids { path := path }
    (tryEach (reaches next target depth) ids { path := path }) :=
  ends_tryEach (ends_reaches hactive) ids ((Finset.card_filter_le _ _).trans hdepth)

/-- A search from the start finds its target exactly if one of the ids reaches it. -/
theorem found_iff : (tryEach (reaches next target depth) ids { path := path }).1 = true ↔
    ∃ a ∈ ids, ReflTransGen (Step next) a target := by
  have hends : Ends next target ids { path := path } _ := ends_start hactive hdepth
  generalize tryEach (reaches next target depth) ids _ = r at hends ⊢
  cases hends with
  | found ha hway => exact iff_of_true rfl ⟨_, ha, hway.reaches⟩
  | failed h => exact iff_of_false Bool.false_ne_true (h.not_reaches rfl)

theorem tryEach_reaches_eq {depth' : Nat} (h : depth ≤ depth') :
    tryEach (reaches next target depth') ids { path := path } =
      tryEach (reaches next target depth) ids { path := path } := by
  induction depth', h using Nat.le_induction with
  | base => rfl
  | succ depth' h ih =>
    have hroom : (unseen active { path := path }).card ≤ depth' :=
      (Finset.card_filter_le _ _).trans (hdepth.trans h)
    exact (tryEach_congr (ends_reaches hactive) (reaches_succ_eq hactive) ids hroom).trans ih

end Room

end FormulaPipeline.Search
