import FormulaPipeline.Proofs.Formula.Lexemes
import Mathlib.Data.List.TakeWhile

/-!
# What a scanner takes

A scanner that gives a token has taken some characters from the front, and from these alone it gives
the same token, wherever they stand. A scanner that fails points at one of its characters.
-/

namespace FormulaPipeline.Lexer

/-- A scanner takes the characters that stand before the rest, and gives the same for them alone at
every offset. -/
def Takes {α : Type} (f : Nat → List Char → Scan α) (cs : List Char) (a : α) (rest : List Char) :
    Prop :=
  ∃ used, cs = used ++ rest ∧ ∀ position, f position used = .ok (a, [])

variable {position : Nat} {cs rest : List Char}

theorem map_eq_error {α β : Type} {r : Scan α} {g : α → β} {e : SyntaxError}
    (h : r.map (fun (a, rest) => (g a, rest)) = .error e) : r = .error e := by
  cases r with
  | error e' => exact congrArg _ (Except.error.inj h)
  | ok result => simp [Except.map] at h

/-! ## Quoted texts -/

theorem quoted_takes {quote : Char} {s : List Char} (h : quoted quote cs = some (s, rest)) :
    ∃ used, cs = used ++ rest ∧ quoted quote used = some (s, []) := by
  fun_induction quoted quote cs generalizing s with
  | case1 => simp at h
  | case2 c cs ih =>
    obtain ⟨⟨s', rest'⟩, hs, heq⟩ := Option.map_eq_some_iff.1 h
    obtain ⟨rfl, rfl⟩ := Prod.mk.inj heq
    obtain ⟨used, rfl, halone⟩ := ih hs
    exact ⟨'\\' :: c :: used, rfl, by rw [quoted, halone]; rfl⟩
  | case3 cs hescape =>
    obtain ⟨rfl, rfl⟩ := Prod.mk.inj (Option.some.inj h)
    refine ⟨[quote], rfl, ?_⟩
    rw [quoted, if_pos rfl]
    simp
  | case4 => simp at h
  | case5 c cs hescape hquote hslash ih =>
    obtain ⟨⟨s', rest'⟩, hs, heq⟩ := Option.map_eq_some_iff.1 h
    obtain ⟨rfl, rfl⟩ := Prod.mk.inj heq
    obtain ⟨used, rfl, halone⟩ := ih hs
    refine ⟨c :: used, rfl, ?_⟩
    rw [quoted, if_neg hquote, if_neg hslash, halone]
    · rfl
    · rintro c' cs' rfl -
      exact hslash rfl

theorem scanQuoted_takes {quote : Char} {t : Token}
    (h : scanQuoted position quote cs = .ok (t, rest)) :
    Takes (scanQuoted · quote) cs t rest := by
  unfold scanQuoted at h
  split at h
  · rename_i s rest' hquoted
    obtain ⟨rfl, rfl⟩ := Prod.mk.inj (Except.ok.inj h)
    obtain ⟨used, hused, halone⟩ := quoted_takes hquoted
    exact ⟨used, hused, fun p => by simp only [scanQuoted, halone]⟩
  · simp at h

theorem scanQuoted_fault {quote : Char} {e : SyntaxError}
    (h : scanQuoted position quote cs = .error e) : e.position = position := by
  unfold scanQuoted at h
  split at h
  · simp at h
  · exact Except.error.inj h ▸ rfl

/-! ## Names -/

theorem dropWhile_takeWhile {α : Type} (p : α → Bool) (xs : List α) :
    (xs.takeWhile p).dropWhile p = [] :=
  List.dropWhile_eq_nil_iff.2 fun _ => List.mem_takeWhile_imp

theorem braced_takes {name : String} (h : braced position cs = .ok (name, rest)) :
    Takes braced cs name rest := by
  unfold braced at h
  split at h
  · simp at h
  · rename_i c rest' hrest
    have hclose : c = '\x7d' := by
      have hhead := List.head?_dropWhile_not (· != '\x7d') cs
      simpa [hrest] using hhead
    subst hclose
    have hused : cs = (cs.takeWhile (· != '\x7d') ++ ['\x7d']) ++ rest' := by
      rw [List.append_assoc, List.singleton_append, ← hrest, List.takeWhile_append_dropWhile]
    have hopen : ∀ c ∈ cs.takeWhile (· != '\x7d'), (c != '\x7d') = true := fun _ =>
      List.mem_takeWhile_imp
    dsimp only at h
    split at h
    · simp at h
    · rename_i hname
      obtain ⟨rfl, rfl⟩ := Prod.mk.inj (Except.ok.inj h)
      refine ⟨_, hused, fun p => ?_⟩
      rw [braced, List.dropWhile_append_of_pos hopen, List.takeWhile_append_of_pos hopen]
      simp [hname]

theorem braced_fault {e : SyntaxError} (h : braced position cs = .error e) :
    e.position = position := by
  unfold braced at h
  split at h
  · exact Except.error.inj h ▸ rfl
  · dsimp only at h
    split at h
    · exact Except.error.inj h ▸ rfl
    · simp at h

theorem scanNode_takes {t : Token} (h : scanNode position cs = .ok (t, rest)) :
    Takes scanNode cs t rest := by
  unfold scanNode at h
  split at h
  · obtain ⟨name, hname, rfl⟩ := map_eq_ok h
    obtain ⟨used, rfl, halone⟩ := braced_takes hname
    exact ⟨'\x7b' :: used, rfl, fun p => by rw [scanNode, halone]; rfl⟩
  · split at h
    · simp at h
    · rename_i hname
      obtain ⟨rfl, rfl⟩ := Prod.mk.inj (Except.ok.inj h)
      refine ⟨cs.takeWhile isNameChar, List.takeWhile_append_dropWhile.symm, fun p => ?_⟩
      unfold scanNode
      split
      · -- a brace is no part of a name
        rename_i hbrace
        have hmem : '\x7b' ∈ cs.takeWhile isNameChar := hbrace ▸ List.mem_cons_self
        exact absurd (List.mem_takeWhile_imp hmem) (by decide)
      · rw [List.takeWhile_idem, if_neg hname, dropWhile_takeWhile]

theorem scanNode_fault {e : SyntaxError} (h : scanNode position cs = .error e) :
    position ≤ e.position ∧ e.position ≤ position + cs.length := by
  unfold scanNode at h
  split at h
  · rw [braced_fault (map_eq_error h), List.length_cons]
    omega
  · split at h
    · obtain rfl := Except.error.inj h
      exact ⟨le_rfl, Nat.le_add_right _ _⟩
    · simp at h

/-! ## Numerals -/

/-- The token of digits without places. -/
def wholeToken (digits : List Char) : Token :=
  match Integer.ofInt? (Nat.ofDigitChars 10 digits 0) with
  | some n => .int n
  | none => .float (Binary64.ofDecimal false (Nat.ofDigitChars 10 digits 0) 0)

/-- The digits after a point. -/
def placesOf : List Char → List Char
  | '.' :: rest => rest.takeWhile Char.isDigit
  | _ => []

theorem exists_of_placesOf_ne_nil (h : placesOf cs ≠ []) : ∃ r, cs = '.' :: r := by
  unfold placesOf at h
  split at h
  · exact ⟨_, rfl⟩
  · exact (h rfl).elim

theorem scanNumber_whole (h : placesOf (cs.dropWhile Char.isDigit) = []) :
    scanNumber cs = (wholeToken (cs.takeWhile Char.isDigit), cs.dropWhile Char.isDigit) := by
  fun_cases scanNumber cs with
  | case1 whole rest places hempty n hn => rw [wholeToken, hn]
  | case2 whole rest places hempty hn => rw [wholeToken, hn]
  | case3 whole rest places hempty => exact (hempty (List.isEmpty_iff.2 h)).elim

theorem scanNumber_places {r : List Char} (h : cs.dropWhile Char.isDigit = '.' :: r)
    (hplaces : r.takeWhile Char.isDigit ≠ []) :
    scanNumber cs = (.float (Binary64.ofDecimal false
      (Nat.ofDigitChars 10 (cs.takeWhile Char.isDigit ++ r.takeWhile Char.isDigit) 0)
      (-(r.takeWhile Char.isDigit).length)), r.dropWhile Char.isDigit) := by
  have hrest : r.drop (r.takeWhile Char.isDigit).length = r.dropWhile Char.isDigit := by
    have hsplit : r.takeWhile Char.isDigit ++ r.dropWhile Char.isDigit = r :=
      List.takeWhile_append_dropWhile
    calc r.drop (r.takeWhile Char.isDigit).length
      _ = (r.takeWhile Char.isDigit ++ r.dropWhile Char.isDigit).drop
          (r.takeWhile Char.isDigit).length := by rw [hsplit]
      _ = r.dropWhile Char.isDigit := List.drop_left
  simp [scanNumber, h, hplaces, hrest, Nat.add_comm 1]

theorem scanNumber_takes (cs : List Char) :
    ∃ fraction, cs = (cs.takeWhile Char.isDigit ++ fraction) ++ (scanNumber cs).2 ∧
      scanNumber (cs.takeWhile Char.isDigit ++ fraction) = ((scanNumber cs).1, []) := by
  by_cases h : placesOf (cs.dropWhile Char.isDigit) = []
  · refine ⟨[], ?_, ?_⟩
    · rw [scanNumber_whole h, List.append_nil, List.takeWhile_append_dropWhile]
    · rw [scanNumber_whole h, List.append_nil,
        scanNumber_whole (by rw [dropWhile_takeWhile]; rfl), dropWhile_takeWhile,
        List.takeWhile_idem]
  · obtain ⟨r, hrest⟩ := exists_of_placesOf_ne_nil h
    have hplaces : r.takeWhile Char.isDigit ≠ [] := by rwa [hrest] at h
    have hdigits : ∀ c ∈ cs.takeWhile Char.isDigit, c.isDigit = true := fun _ =>
      List.mem_takeWhile_imp
    have hpoint : Char.isDigit '.' = false := rfl
    refine ⟨'.' :: r.takeWhile Char.isDigit, ?_, ?_⟩
    · rw [scanNumber_places hrest hplaces, List.append_assoc, List.cons_append,
        List.takeWhile_append_dropWhile, ← hrest, List.takeWhile_append_dropWhile]
    · rw [scanNumber_places hrest hplaces, scanNumber_places (r := r.takeWhile Char.isDigit)]
      · simp [List.takeWhile_append_of_pos hdigits, hpoint, dropWhile_takeWhile,
          List.takeWhile_idem]
      · rw [List.dropWhile_append_of_pos hdigits, List.dropWhile_cons_of_neg (by simp [hpoint])]
      · rwa [List.takeWhile_idem]

/-! ## Tokens -/

/-- The characters that do not begin a name or a numeral but have a meaning of their own. -/
def signs : List Char :=
  ['\x7b', '#', '.', ',', '+', '-', '*', '/', '%', '^', '=', '!', '>', '<', '"', '\'', '(', ')',
    '[', ']']

theorem scan_other {c : Char} (h : c ∉ signs) (cs : List Char) :
    scan position (c :: cs) =
      if isNameStart c then
        .ok (wordToken (String.ofList ((c :: cs).takeWhile isNameChar)),
          (c :: cs).dropWhile isNameChar)
      else if c.isDigit then .ok (scanNumber (c :: cs))
      else .error ⟨.unexpectedCharacter c, position⟩ := by
  rw [scan]
  all_goals
    intros
    subst_vars
    exact h (by decide)

theorem not_mem_signs {p : Char → Bool} (hsigns : signs.all (! p ·) = true) {c : Char}
    (h : p c = true) : c ∉ signs := fun hc => by
  have hc := List.all_eq_true.1 hsigns c hc
  simp [h] at hc

theorem scan_word {c : Char} (h : isNameStart c = true) (cs : List Char) :
    scan position (c :: cs) = .ok (wordToken (String.ofList ((c :: cs).takeWhile isNameChar)),
      (c :: cs).dropWhile isNameChar) := by
  rw [scan_other (not_mem_signs (by decide) h), if_pos h]

theorem isNameChar_of_isNameStart {c : Char} (h : isNameStart c = true) : isNameChar c = true := by
  simp only [isNameStart, isNameChar, Text.isAlphabetic, Text.isAlphanumeric,
    Bool.or_eq_true] at h ⊢
  refine h.imp_left fun halpha => ?_
  split
  · rw [if_pos ‹_›] at halpha
    exact Bool.or_eq_true _ _ ▸ .inl halpha
  · rw [if_neg ‹_›] at halpha
    exact Bool.or_eq_true _ _ ▸ .inl halpha

theorem isNameStart_of_isDigit {c : Char} (h : c.isDigit = true) : isNameStart c = false := by
  have hrange : 48 ≤ c.toNat ∧ c.toNat ≤ 57 := by
    simpa [Char.isDigit, UInt32.le_iff_toNat_le] using h
  have hupper : c.isUpper = false := by
    change decide (c.val ≥ 65 ∧ c.val ≤ 90) = false
    simp [UInt32.le_iff_toNat_le]
    omega
  have hlower : c.isLower = false := by
    change (decide (c.val ≥ 97) && decide (c.val ≤ 122)) = false
    simp [UInt32.le_iff_toNat_le]
    omega
  have halpha : c.isAlpha = false := Bool.or_eq_false_iff.2 ⟨hupper, hlower⟩
  have hunderscore : c ≠ '_' := fun hc => absurd (hc ▸ h) (by decide)
  rw [isNameStart, Text.isAlphabetic, if_pos (by omega), halpha, decide_eq_false hunderscore,
    Bool.or_false]

theorem scan_number {c : Char} (h : c.isDigit = true) (cs : List Char) :
    scan position (c :: cs) = .ok (scanNumber (c :: cs)) := by
  rw [scan_other (not_mem_signs (by decide) h), isNameStart_of_isDigit h,
    if_neg (by simp), if_pos h]

theorem scan_word_takes {c : Char} (h : isNameStart c = true) (cs : List Char) :
    Takes (fun p cs => scan p (c :: cs)) cs
      (wordToken (String.ofList ((c :: cs).takeWhile isNameChar)))
      ((c :: cs).dropWhile isNameChar) := by
  have hc : isNameChar c = true := isNameChar_of_isNameStart h
  refine ⟨cs.takeWhile isNameChar, ?_, fun p => ?_⟩
  · rw [List.dropWhile_cons_of_pos hc, List.takeWhile_append_dropWhile]
  · dsimp only
    rw [scan_word h, List.takeWhile_cons_of_pos hc, List.takeWhile_cons_of_pos hc,
      List.takeWhile_idem, List.dropWhile_cons_of_pos hc, dropWhile_takeWhile]

theorem scan_number_takes {c : Char} (h : c.isDigit = true) (cs : List Char) :
    Takes (fun p cs => scan p (c :: cs)) cs (scanNumber (c :: cs)).1 (scanNumber (c :: cs)).2 := by
  obtain ⟨fraction, hused, halone⟩ := scanNumber_takes (c :: cs)
  rw [List.takeWhile_cons_of_pos h] at hused halone
  exact ⟨_, (List.cons.inj hused).2, fun p => (scan_number h _).trans (congrArg _ halone)⟩

/-- A token is read from the characters that it takes alone. -/
theorem scan_takes {c : Char} {t : Token} (h : scan position (c :: cs) = .ok (t, rest)) :
    Takes (fun p cs => scan p (c :: cs)) cs t rest := by
  generalize hall : c :: cs = all at h
  unfold scan at h
  split at h
  all_goals try obtain ⟨rfl, rfl⟩ := List.cons.inj hall
  -- signs that are tokens of their own, with one character and with two
  all_goals try
    obtain ⟨rfl, rfl⟩ := Prod.mk.inj (Except.ok.inj h)
    exact ⟨[], rfl, fun p => rfl⟩
  all_goals try
    obtain ⟨rfl, rfl⟩ := Prod.mk.inj (Except.ok.inj h)
    exact ⟨[_], rfl, fun p => rfl⟩
  · cases hall
  · obtain ⟨name, hname, rfl⟩ := map_eq_ok h
    obtain ⟨used, hused, halone⟩ := braced_takes hname
    exact ⟨used, hused, fun p => by dsimp only; rw [scan, halone]; rfl⟩
  · exact scanNode_takes h
  · cases h
  · exact scanQuoted_takes h
  · exact scanQuoted_takes h
  · split at h
    · rename_i hname
      obtain ⟨rfl, rfl⟩ := Prod.mk.inj (Except.ok.inj h)
      exact scan_word_takes hname cs
    · split at h
      · rename_i hdigit
        have hnumber := scan_number_takes hdigit cs
        rwa [Except.ok.inj h] at hnumber
      · cases h

/-- A fault stands at one of the characters that are read. -/
theorem scan_fault {c : Char} {e : SyntaxError} (h : scan position (c :: cs) = .error e) :
    position ≤ e.position ∧ e.position < position + (c :: cs).length := by
  have hfirst : position < position + (c :: cs).length := by simp
  generalize hall : c :: cs = all at h
  unfold scan at h
  split at h
  all_goals try obtain ⟨rfl, rfl⟩ := List.cons.inj hall
  all_goals try cases h
  · rw [braced_fault (map_eq_error h)]
    exact ⟨le_rfl, hfirst⟩
  · obtain ⟨hlow, hhigh⟩ := scanNode_fault h
    exact ⟨hlow, Nat.lt_succ_of_le hhigh⟩
  · exact ⟨le_rfl, hfirst⟩
  · rw [scanQuoted_fault h]
    exact ⟨le_rfl, hfirst⟩
  · rw [scanQuoted_fault h]
    exact ⟨le_rfl, hfirst⟩
  · split at h
    · cases h
    · split at h
      · cases h
      · obtain rfl := Except.error.inj h
        exact ⟨le_rfl, hfirst⟩

end FormulaPipeline.Lexer
