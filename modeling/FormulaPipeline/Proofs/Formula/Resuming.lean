import FormulaPipeline.Proofs.Formula.Ending
import FormulaPipeline.Proofs.Lexing

/-!
# Reading another text with the same front

A scanner looks one character past its token, and two where a point follows digits. So texts with
the same front have the same tokens in it, unless a numeral goes on across the place where they
part.
-/

namespace FormulaPipeline

namespace Lexer

variable {position : Nat} {cs u r r' : List Char}

/-! ## One token -/

/-- What comes next starts with a blank or as before, if it is not empty. -/
def Follows (r r' : List Char) : Prop := ∀ c ∈ r'.head?, c = ' ' ∨ c ∈ r.head?

theorem Separated.follows (h : Separated r') : Follows r r' := fun c hc => .inl (h c hc)

theorem Follows.append (h : Follows r r') (u : List Char) : Follows (u ++ r) (u ++ r') := by
  cases u with
  | nil => exact h
  | cons c u => exact fun d hd => .inr hd

theorem Follows.stops {p : Char → Bool} (hp : p ' ' = false) (h : Follows r r') (hr : Stops p r) :
    Stops p r' := by
  intro c hc
  obtain rfl | hc := h c hc
  · exact hp
  · exact hr c hc

theorem stops_dropWhile (p : Char → Bool) (cs : List Char) : Stops p (cs.dropWhile p) := by
  intro c hc
  have hhead := List.head?_dropWhile_not p cs
  rw [Option.mem_def] at hc
  simpa [hc] using hhead

/-- A run of a class ends where it did. -/
theorem resume_dropWhile {p : Char → Bool} (hp : p ' ' = false) (h : (u ++ r).dropWhile p = r)
    (hfollows : Follows r r') :
    (u ++ r).takeWhile p = u ∧ (u ++ r').takeWhile p = u ∧ (u ++ r').dropWhile p = r' := by
  have hu : (u ++ r).takeWhile p = u := by
    have hsplit : (u ++ r).takeWhile p ++ (u ++ r).dropWhile p = u ++ r :=
      List.takeWhile_append_dropWhile
    rw [h] at hsplit
    exact List.append_cancel_right hsplit
  have hchars : ∀ c ∈ u, p c = true := by
    rw [← hu]
    exact fun _ => List.mem_takeWhile_imp
  have hstops : Stops p r' := hfollows.stops hp (h ▸ stops_dropWhile p (u ++ r))
  exact ⟨hu, hstops.takeWhile_append hchars, hstops.dropWhile_append hchars⟩

theorem quoted_append {quote : Char} {s : List Char} (hquote : quote ≠ '\\')
    (h : quoted quote u = some (s, [])) :
    quoted quote (u ++ r) = some (s, r) := by
  fun_induction quoted quote u generalizing s with
  | case1 => simp at h
  | case2 c cs ih =>
    obtain ⟨⟨s', rest'⟩, hs, heq⟩ := Option.map_eq_some_iff.1 h
    obtain ⟨rfl, rfl⟩ := Prod.mk.inj heq
    rw [List.cons_append, List.cons_append, quoted, ih hs]
    rfl
  | case3 cs hescape =>
    obtain ⟨rfl, rfl⟩ := Prod.mk.inj (Option.some.inj h)
    rw [List.cons_append, quoted, if_pos rfl]
    · rfl
    · rintro c' cs' rfl -
      exact hquote rfl
  | case4 => simp at h
  | case5 c cs hescape hc hslash ih =>
    obtain ⟨⟨s', rest'⟩, hs, heq⟩ := Option.map_eq_some_iff.1 h
    obtain ⟨rfl, rfl⟩ := Prod.mk.inj heq
    rw [List.cons_append, quoted, if_neg hc, if_neg hslash, ih hs]
    · rfl
    · rintro c' cs' rfl -
      exact hslash rfl

theorem scanQuoted_resume {quote : Char} {t : Token} (hquote : quote ≠ '\\')
    (h : scanQuoted position quote (u ++ r) = .ok (t, r)) :
    scanQuoted position quote (u ++ r') = .ok (t, r') := by
  obtain ⟨used, hused, halone⟩ := scanQuoted_takes h
  obtain rfl := List.append_cancel_right hused
  replace halone : scanQuoted position quote u = .ok (t, []) := halone position
  unfold scanQuoted at halone ⊢
  split at halone
  · rename_i s rest hquoted
    obtain ⟨rfl, rfl⟩ := Prod.mk.inj (Except.ok.inj halone)
    rw [quoted_append hquote hquoted]
  · cases halone

theorem braced_resume {name : String} (h : braced position (u ++ r) = .ok (name, r)) :
    braced position (u ++ r') = .ok (name, r') := by
  have hopen : ∀ c ∈ (u ++ r).takeWhile (· != '\x7d'), (c != '\x7d') = true := fun _ =>
    List.mem_takeWhile_imp
  have hsplit : (u ++ r).takeWhile (· != '\x7d') ++ (u ++ r).dropWhile (· != '\x7d') = u ++ r :=
    List.takeWhile_append_dropWhile
  have hstops := stops_dropWhile (· != '\x7d') (u ++ r)
  generalize (u ++ r).takeWhile (· != '\x7d') = name at hopen hsplit
  cases hrest : (u ++ r).dropWhile (· != '\x7d') with
  | nil =>
    rw [braced, hrest] at h
    cases h
  | cons c rest =>
    obtain rfl : c = '\x7d' := by simpa [hrest] using hstops c
    rw [hrest] at hsplit
    rw [← hsplit, braced_closed hopen] at h
    split at h
    · cases h
    · rename_i hname
      obtain ⟨rfl, rfl⟩ := Prod.mk.inj (Except.ok.inj h)
      rw [← List.singleton_append, ← List.append_assoc] at hsplit
      rw [← List.append_cancel_right hsplit, List.append_assoc, List.singleton_append,
        braced_closed hopen, if_neg hname]

theorem scanNumber_resume {t : Token} (h : scanNumber (u ++ r) = (t, r)) (hfollows : Follows r r') :
    scanNumber (u ++ r') = (t, r') ∨ placesOf r = [] ∧ placesOf r' ≠ [] ∧
      (scanNumber (u ++ r')).2.length < r'.length := by
  by_cases hplaces : placesOf ((u ++ r).dropWhile Char.isDigit) = []
  · rw [scanNumber_whole hplaces] at h
    obtain ⟨rfl, hrest⟩ := Prod.mk.inj h
    obtain ⟨hu, htake, hdrop⟩ := resume_dropWhile rfl hrest hfollows
    rw [hrest] at hplaces
    by_cases hplaces' : placesOf r' = []
    · left
      rw [scanNumber_whole (by rwa [hdrop]), htake, hdrop, hu]
    · right
      obtain ⟨q, rfl⟩ := exists_of_placesOf_ne_nil hplaces'
      rw [scanNumber_places hdrop hplaces']
      refine ⟨hplaces, hplaces', ?_⟩
      exact Nat.lt_succ_of_le (List.dropWhile_sublist _).length_le
  · left
    obtain ⟨q, hq⟩ := exists_of_placesOf_ne_nil hplaces
    rw [hq] at hplaces
    rw [scanNumber_places hq hplaces] at h
    obtain ⟨rfl, hrest⟩ := Prod.mk.inj h
    have hdigits : ∀ c ∈ (u ++ r).takeWhile Char.isDigit, c.isDigit = true := fun _ =>
      List.mem_takeWhile_imp
    have hsplit : (u ++ r).takeWhile Char.isDigit ++ (u ++ r).dropWhile Char.isDigit = u ++ r :=
      List.takeWhile_append_dropWhile
    have hsplit' : q.takeWhile Char.isDigit ++ q.dropWhile Char.isDigit = q :=
      List.takeWhile_append_dropWhile
    generalize (u ++ r).takeWhile Char.isDigit = whole at hdigits hsplit ⊢
    change q.takeWhile Char.isDigit ≠ [] at hplaces
    generalize q.takeWhile Char.isDigit = places at hplaces hsplit' ⊢
    rw [hrest] at hsplit'
    subst hsplit'
    obtain ⟨-, htake, hdrop⟩ := resume_dropWhile rfl hrest hfollows
    rw [hq, ← List.cons_append, ← List.append_assoc] at hsplit
    rw [← List.append_cancel_right hsplit, List.append_assoc, List.cons_append]
    have hpoint : Stops Char.isDigit ('.' :: (places ++ r')) := by
      rintro c ⟨⟩
      rfl
    rw [scanNumber_places (hpoint.dropWhile_append hdigits) (by rwa [htake]),
      hpoint.takeWhile_append hdigits, htake, hdrop]

theorem scanNode_resume {t : Token} (h : scanNode position (u ++ r) = .ok (t, r))
    (hfollows : Follows r r') : scanNode position (u ++ r') = .ok (t, r') := by
  generalize hall : u ++ r = all at h
  unfold scanNode at h
  split at h
  · rename_i rest
    obtain ⟨name, hname, rfl⟩ := map_eq_ok h
    obtain ⟨used, rfl, -⟩ := braced_takes hname
    obtain rfl : u = '\x7b' :: used := List.append_cancel_right hall
    rw [List.cons_append, scanNode, braced_resume hname]
    rfl
  · split at h
    · cases h
    · rename_i hname
      obtain ⟨rfl, hrest⟩ := Prod.mk.inj (Except.ok.inj h)
      subst hall
      obtain ⟨hu, htake, hdrop⟩ := resume_dropWhile (by decide) hrest hfollows
      rw [hu] at hname ⊢
      unfold scanNode
      split
      · -- a brace is no part of a name
        rename_i rest hbrace
        obtain ⟨c, u, rfl⟩ := List.exists_cons_of_ne_nil fun hnil => hname (List.isEmpty_iff.2 hnil)
        obtain rfl : c = '\x7b' := (List.cons.inj hbrace).1
        have hmem : '\x7b' ∈ ('\x7b' :: u ++ r').takeWhile isNameChar := by
          rw [htake]
          exact List.mem_cons_self
        exact absurd (List.mem_takeWhile_imp hmem) (by decide)
      · rw [htake, hdrop, if_neg hname]

theorem Follows.ne_cons {c : Char} (hc : c ≠ ' ') (h : Follows r r')
    (hr : ∀ rest, r = c :: rest → False) : ∀ rest, r' = c :: rest → False := by
  rintro rest rfl
  obtain hblank | hhead := h c rfl
  · exact hc hblank
  · obtain ⟨rest', hrest⟩ := List.head?_eq_some_iff.1 hhead
    exact hr rest' hrest

/-- A token is read again from its characters, unless it is a numeral that goes on. -/
theorem scan_resume {c : Char} {t : Token} (h : scan position (c :: (u ++ r)) = .ok (t, r))
    (hfollows : Follows r r') :
    scan position (c :: (u ++ r')) = .ok (t, r') ∨ placesOf r = [] ∧ placesOf r' ≠ [] ∧
      ∃ t' rest, scan position (c :: (u ++ r')) = .ok (t', rest) ∧ rest.length < r'.length := by
  generalize hall : c :: (u ++ r) = all at h
  unfold scan at h
  split at h
  all_goals try obtain ⟨rfl, hcs⟩ := List.cons.inj hall
  -- signs that are tokens of their own, with one character and with two
  all_goals try
    obtain ⟨rfl, rfl⟩ := Prod.mk.inj (Except.ok.inj h)
    obtain rfl : u = [] := List.append_cancel_right hcs
    exact .inl rfl
  all_goals try
    obtain ⟨rfl, rfl⟩ := Prod.mk.inj (Except.ok.inj h)
    obtain rfl : u = [_] := List.append_cancel_right hcs
    exact .inl rfl
  · cases hall
  · obtain ⟨name, hname, rfl⟩ := map_eq_ok h
    subst hcs
    left
    rw [scan, braced_resume hname]
    rfl
  · subst hcs
    exact .inl (scanNode_resume h hfollows)
  -- a sign that another sign could go on with
  · rename_i hequal
    obtain ⟨rfl, rfl⟩ := Prod.mk.inj (Except.ok.inj h)
    obtain rfl : u = [] := List.append_cancel_right hcs
    left
    rw [List.nil_append, scan]
    exact hfollows.ne_cons (by decide) hequal
  · cases h
  · rename_i hequal
    obtain ⟨rfl, rfl⟩ := Prod.mk.inj (Except.ok.inj h)
    obtain rfl : u = [] := List.append_cancel_right hcs
    left
    rw [List.nil_append, scan]
    exact hfollows.ne_cons (by decide) hequal
  · rename_i hequal hgreater
    obtain ⟨rfl, rfl⟩ := Prod.mk.inj (Except.ok.inj h)
    obtain rfl : u = [] := List.append_cancel_right hcs
    left
    rw [List.nil_append, scan]
    · exact hfollows.ne_cons (by decide) hequal
    · exact hfollows.ne_cons (by decide) hgreater
  · subst hcs
    exact .inl (scanQuoted_resume (by decide) h)
  · subst hcs
    exact .inl (scanQuoted_resume (by decide) h)
  · subst hcs
    split at h
    · rename_i hname
      obtain ⟨rfl, hrest⟩ := Prod.mk.inj (Except.ok.inj h)
      rw [← List.cons_append] at hrest ⊢
      obtain ⟨hu, htake, hdrop⟩ := resume_dropWhile (by decide) hrest hfollows
      left
      rw [List.cons_append, scan_word hname, ← List.cons_append, ← List.cons_append, hu, htake,
        hdrop]
    · split at h
      · rename_i hdigit
        rw [scan_number hdigit, ← List.cons_append]
        obtain hsame | ⟨hplaces, hplaces', hlonger⟩ :=
          @scanNumber_resume (c :: u) r r' t (Except.ok.inj h) hfollows
        · exact .inl (congrArg _ hsame)
        · exact .inr ⟨hplaces, hplaces', _, _, rfl, hlonger⟩
      · cases h

end Lexer

/-! ## Places in a sequence -/

namespace Lexemes

/-- A token starts at the offset, or the text ends there. -/
def Stands : Lexemes → Token → Nat → Prop
  | nil p, t, position => t = .endOfInput ∧ position = p
  | fault _, _, _ => False
  | cons start u rest, t, position => t = u ∧ position = start ∨ rest.Stands t position

/-- The tokens that start before the offset. -/
def before (position : Nat) : Lexemes → List Token
  | cons start t rest =>
    if start < position then t :: rest.before position else rest.before position
  | _ => []

/-- Each token starts before what comes next. -/
def Ordered : Lexemes → Prop
  | cons start _ rest => start < rest.position ∧ rest.Ordered
  | _ => True

variable {s rest : Lexemes} {ts : List Token}

theorem Ordered.before_eq_nil (h : s.Ordered) {position : Nat} (hposition : position ≤ s.position) :
    s.before position = [] := by
  induction s with
  | nil => rfl
  | fault => rfl
  | cons start t rest ih =>
    have hstart : position ≤ start := hposition
    rw [before, if_neg (Nat.not_lt.2 hstart)]
    exact ih h.2 (hstart.trans h.1.le)

theorem Ordered.position_le (h : s.Ordered) (hpasses : s.Passes ts rest) :
    s.position ≤ rest.position := by
  induction hpasses with
  | refl => exact le_rfl
  | cons _ ih => exact h.1.le.trans (ih h.2)

/-- What is passed on the way to a place is what stands before it. -/
theorem Ordered.before_eq (h : s.Ordered) (hpasses : s.Passes ts rest) :
    s.before rest.position = ts := by
  induction hpasses with
  | refl => exact h.before_eq_nil le_rfl
  | cons hpasses ih =>
    rw [before, if_pos (h.1.trans_le (h.2.position_le hpasses)), ih h.2]

theorem Passes.eq_of_nil (h : s.Passes [] rest) : s = rest := by
  cases h
  rfl

theorem Passes.eq_cons {t : Token} (h : s.Passes (t :: ts) rest) :
    ∃ start next, s = .cons start t next ∧ next.Passes ts rest := by
  cases h with
  | cons h => exact ⟨_, _, rfl, h⟩

theorem Passes.leads (h : s.Passes ts rest) (hrest : ¬rest.Faulty) : s.Leads ts rest := by
  induction h with
  | refl => exact .refl _
  | cons h ih =>
    refine .cons (fun hfaulty => ?_) (ih hrest)
    cases h with
    | refl => exact hrest hfaulty
    | cons => exact hfaulty

end Lexemes

namespace Lexer

theorem Segments.ordered {calls : Nat} {before after : List Char} {s : Lexemes}
    (h : Segments calls before after s) : s.Ordered ∧ before.length ≤ s.position := by
  induction h with
  | nil => exact ⟨trivial, by simp [Lexemes.position]⟩
  | fault hblanks hcall hlow =>
    rw [List.length_append] at hlow
    exact ⟨trivial, (Nat.le_add_right _ _).trans hlow⟩
  | cons hblanks hlexeme ht hcall halone hrest ih =>
    obtain ⟨hordered, hnext⟩ := ih
    have hpositive := List.length_pos_iff.2 hlexeme
    rw [List.length_append] at hnext
    refine ⟨⟨by omega, hordered⟩, ?_⟩
    simp [Lexemes.position]

/-! ## A sequence of tokens -/

variable {fuel position : Nat} {cs r r' : List Char} {ts : List Token} {s : Lexemes}

/-- What is read from a text that starts with no blank. -/
inductive Opening (position : Nat) (cs : List Char) : Lexemes → Prop
  | nil (h : cs = []) : Opening position cs (.nil position)
  | fault {e : SyntaxError} {c : Char} {rest : List Char} (h : cs = c :: rest)
      (hscan : scan position cs = .error e) : Opening position cs (.fault e)
  | cons {t : Token} {c : Char} {used rest : List Char} {fuel : Nat} (h : cs = c :: (used ++ rest))
      (hscan : scan position cs = .ok (t, rest)) (hfuel : rest.length < fuel) :
      Opening position cs (.cons position t (lexemes fuel (position + (c :: used).length) rest))

theorem lexemes_nil : lexemes fuel position [] = .nil position := by
  cases fuel <;> simp [lexemes]

theorem opening_lexemes (hfuel : cs.length < fuel) (hstops : Stops Text.isBlank cs) :
    Opening position cs (lexemes fuel position cs) := by
  obtain ⟨fuel, rfl⟩ := Nat.exists_eq_add_one_of_ne_zero (Nat.ne_zero_of_lt hfuel)
  cases cs with
  | nil =>
    rw [lexemes_nil]
    exact .nil rfl
  | cons c cs =>
    have hblank : Text.isBlank c = false := hstops c rfl
    cases hscan : scan position (c :: cs) with
    | error e =>
      rw [lexemes_fault hblank hscan]
      exact .fault rfl hscan
    | ok result =>
      obtain ⟨t, rest⟩ := result
      obtain ⟨used, rfl, -⟩ := scan_takes hscan
      have htaken : (c :: (used ++ rest)).length - rest.length = (c :: used).length := by
        simp only [List.length_append, List.length_cons]
        omega
      rw [lexemes_cons hblank hscan, htaken]
      simp only [List.length_append, List.length_cons] at hfuel
      exact .cons rfl hscan (by omega)

theorem le_of_stands {t : Token} {place : Nat} (h : (lexemes fuel position cs).Stands t place) :
    position ≤ place := by
  induction fuel generalizing position cs with
  | zero => exact h.2.ge
  | succ fuel ih =>
    rw [lexemes] at h
    split at h
    · exact (Nat.le_add_right _ _).trans h.2.ge
    · split at h
      · exact h.elim
      · obtain ⟨-, rfl⟩ | h := h
        · exact Nat.le_add_right _ _
        · have := ih h
          omega

/-- Another text with the same front: its tokens are read up to the place where the texts part, or a
numeral goes on across it. -/
def Parts (position : Nat) (kept : List Char) (ts : List Token) (r r' : List Char) : Prop :=
  ∀ fuel, (kept ++ r').length < fuel →
    (∃ fuel', r'.length < fuel' ∧
        (lexemes fuel position (kept ++ r')).Passes ts (lexemes fuel' (position + kept.length) r') ∧
        ∀ t, (lexemes fuel position (kept ++ r')).Stands t (position + kept.length) →
          (lexemes fuel' (position + kept.length) r').Stands t (position + kept.length)) ∨
      placesOf r = [] ∧ placesOf r' ≠ [] ∧
        ∀ t, ¬(lexemes fuel position (kept ++ r')).Stands t (position + kept.length)

theorem placesOf_append (hfollows : Follows r r') {u : List Char} (h : placesOf (u ++ r) = [])
    (h' : placesOf (u ++ r') ≠ []) : u = [] := by
  obtain ⟨q, hq⟩ := exists_of_placesOf_ne_nil h'
  cases u with
  | nil => rfl
  | cons c u =>
    obtain ⟨rfl, rfl⟩ := List.cons.inj hq
    change (u ++ r).takeWhile Char.isDigit = [] at h
    change (u ++ r').takeWhile Char.isDigit ≠ [] at h'
    refine (h' ?_).elim
    have hstops : Stops Char.isDigit (u ++ r) := fun c hc => by
      obtain ⟨rest, hrest⟩ := List.head?_eq_some_iff.1 hc
      by_contra hdigit
      rw [hrest, List.takeWhile_cons_of_pos (by simpa using hdigit)] at h
      cases h
    exact ((hfollows.append u).stops rfl hstops).takeWhile_eq_nil

theorem Parts.nil {blanks : List Char} (hblanks : ∀ b ∈ blanks, Text.isBlank b = true) :
    Parts position blanks [] r r' := by
  intro fuel hfuel
  left
  obtain ⟨fuel, rfl⟩ := Nat.exists_eq_add_one_of_ne_zero (Nat.ne_zero_of_lt hfuel)
  rw [List.length_append] at hfuel
  rw [lexemes_skip hblanks]
  exact ⟨fuel + 1, by omega, .refl _, fun _ h => h⟩

theorem Parts.cons {blanks used kept : List Char} {c : Char} {t : Token}
    (hblanks : ∀ b ∈ blanks, Text.isBlank b = true) (hfollows : Follows r r')
    (hscan : scan (position + blanks.length) (c :: (used ++ (kept ++ r))) = .ok (t, kept ++ r))
    (h : Parts (position + blanks.length + (c :: used).length) kept ts r r') :
    Parts position (blanks ++ (c :: used ++ kept)) (t :: ts) r r' := by
  intro fuel hfuel
  obtain ⟨fuel, rfl⟩ := Nat.exists_eq_add_one_of_ne_zero (Nat.ne_zero_of_lt hfuel)
  have hblank : Text.isBlank c = false := isBlank_of_scan hscan
  have hlength : position + (blanks ++ (c :: used ++ kept)).length =
      position + blanks.length + (c :: used).length + kept.length := by
    simp only [List.length_append]
    omega
  have hpositive :
      position + blanks.length < position + blanks.length + (c :: used).length := by simp
  rw [hlength, List.append_assoc, lexemes_skip hblanks, List.append_assoc, List.cons_append]
  obtain hsame | ⟨hplaces, hplaces', t', rest, hlonger, hrest⟩ :=
    scan_resume hscan (hfollows.append kept)
  · have htaken :
        (c :: (used ++ (kept ++ r'))).length - (kept ++ r').length = (c :: used).length := by
      simp only [List.length_append, List.length_cons]
      omega
    rw [lexemes_cons hblank hsame, htaken]
    obtain ⟨fuel', hfuel', hpasses, hstands⟩ | ⟨hplaces, hplaces', hnone⟩ := h fuel (by
      simp only [List.length_append, List.length_cons] at hfuel ⊢
      omega)
    · left
      refine ⟨fuel', hfuel', .cons hpasses, ?_⟩
      rintro u (⟨-, hplace⟩ | hu)
      · omega
      · exact hstands u hu
    · right
      refine ⟨hplaces, hplaces', ?_⟩
      rintro u (⟨-, hplace⟩ | hu)
      · omega
      · exact hnone u hu
  · right
    obtain rfl := placesOf_append hfollows hplaces hplaces'
    rw [lexemes_cons hblank hlonger]
    refine ⟨hplaces, hplaces', ?_⟩
    rintro u (⟨-, hplace⟩ | hu)
    · simp at hplace
    · have hle := le_of_stands hu
      simp only [List.length_append, List.length_cons, List.length_nil,
        List.nil_append] at hle hrest
      omega

/-- The characters of the tokens that are passed. -/
theorem lexemes_passes (h : (lexemes fuel position cs).Passes ts s) (hfuel : cs.length < fuel) :
    ∃ kept r fuel', cs = kept ++ r ∧ r.length < fuel' ∧
      s = lexemes fuel' (position + kept.length) r ∧ Stops Text.isBlank r ∧
      ∀ r', Follows r r' → Parts position kept ts r r' := by
  induction ts generalizing fuel position cs with
  | nil =>
    obtain ⟨fuel, rfl⟩ := Nat.exists_eq_add_one_of_ne_zero (Nat.ne_zero_of_lt hfuel)
    obtain ⟨blanks, rest, rfl, hblanks, hfirst⟩ := exists_blanks cs
    rw [List.length_append] at hfuel
    rw [lexemes_skip hblanks] at h
    exact ⟨blanks, rest, fuel + 1, rfl, by omega, h.eq_of_nil.symm, hfirst,
      fun r' _ => .nil hblanks⟩
  | cons t ts ih =>
    obtain ⟨fuel, rfl⟩ := Nat.exists_eq_add_one_of_ne_zero (Nat.ne_zero_of_lt hfuel)
    obtain ⟨blanks, rest, rfl, hblanks, hfirst⟩ := exists_blanks cs
    rw [List.length_append] at hfuel
    rw [lexemes_skip hblanks] at h
    obtain ⟨start, next, heq, hpasses⟩ := h.eq_cons
    have hopening : Opening (position + blanks.length) rest
        (lexemes (fuel + 1) (position + blanks.length) rest) := opening_lexemes (by omega) hfirst
    rw [heq] at hopening
    cases hopening with
    | @cons _ c used _ _ hrest hscan hroom =>
      subst hrest
      obtain ⟨kept, r, fuel', rfl, hfuel', hs, hstops, hparts⟩ := ih hpasses hroom
      refine ⟨blanks ++ (c :: used ++ kept), r, fuel', by simp, hfuel', ?_, hstops, ?_⟩
      · rw [hs]
        congr 1
        simp only [List.length_append, List.length_cons]
        omega
      · exact fun r' hfollows => .cons hblanks hfollows hscan (hparts r' hfollows)

end Lexer

end FormulaPipeline
