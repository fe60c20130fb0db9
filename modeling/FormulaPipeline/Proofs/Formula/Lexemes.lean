import FormulaPipeline.Formula.Lexer

/-!
# Sequences of tokens

What a reader of tokens passes on its way. Readers go from one token to the next and stop at a
fault, so between two places there are tokens only.
-/

namespace FormulaPipeline

namespace Lexemes

/-- No fault stands at the end. -/
def Complete : Lexemes → Prop
  | nil _ => True
  | fault _ => False
  | cons _ _ rest => rest.Complete

instance decidableComplete : ∀ s : Lexemes, Decidable s.Complete
  | nil _ => inferInstanceAs (Decidable True)
  | fault _ => inferInstanceAs (Decidable False)
  | cons _ _ rest => decidableComplete rest

/-- A fault comes first. -/
def Faulty : Lexemes → Prop
  | fault _ => True
  | _ => False

/-- The tokens between two places, with no fault behind any of them. -/
inductive Leads : Lexemes → List Token → Lexemes → Prop
  | refl (s : Lexemes) : Leads s [] s
  | cons {start : Nat} {t : Token} {rest last : Lexemes} {ts : List Token} (hsound : ¬rest.Faulty)
      (h : Leads rest ts last) : Leads (.cons start t rest) (t :: ts) last

theorem check_eq_ok_iff {s rest : Lexemes} : s.check = .ok rest ↔ ¬s.Faulty ∧ s = rest := by
  cases s <;> simp [check, Faulty]

/-- A token other than the end of input is passed by going on. -/
theorem leads_of_advance {s rest : Lexemes} {t : Token} (htoken : s.token = t)
    (ht : t ≠ .endOfInput) (h : s.advance = .ok rest) : s.Leads [t] rest := by
  cases s with
  | nil => exact (ht htoken.symm).elim
  | fault => exact (ht htoken.symm).elim
  | cons start first next =>
    obtain ⟨hsound, rfl⟩ := check_eq_ok_iff.1 h
    obtain rfl : first = t := htoken
    exact .cons hsound (.refl next)

theorem leads_nil_iff {s rest : Lexemes} : s.Leads [] rest ↔ s = rest := by
  constructor
  · rintro ⟨⟩
    rfl
  · rintro rfl
    exact .refl s

theorem leads_cons_iff {s rest : Lexemes} {t : Token} {ts : List Token} :
    s.Leads (t :: ts) rest ↔ ∃ next, s.Leads [t] next ∧ next.Leads ts rest := by
  constructor
  · rintro (_ | ⟨hsound, h⟩)
    exact ⟨_, .cons hsound (.refl _), h⟩
  · rintro ⟨next, _ | ⟨hsound, hnext⟩, h⟩
    obtain rfl := leads_nil_iff.1 hnext
    exact .cons hsound h

theorem leads_append_iff {s rest : Lexemes} {ts us : List Token} :
    s.Leads (ts ++ us) rest ↔ ∃ mid, s.Leads ts mid ∧ mid.Leads us rest := by
  induction ts generalizing s with
  | nil => simp [leads_nil_iff]
  | cons t ts ih =>
    rw [List.cons_append, leads_cons_iff]
    constructor
    · rintro ⟨next, hnext, h⟩
      obtain ⟨mid, hmid, hrest⟩ := ih.1 h
      exact ⟨mid, leads_cons_iff.2 ⟨next, hnext, hmid⟩, hrest⟩
    · rintro ⟨mid, h, hrest⟩
      obtain ⟨next, hnext, hmid⟩ := leads_cons_iff.1 h
      exact ⟨next, hnext, ih.2 ⟨mid, hmid, hrest⟩⟩

namespace Leads

variable {s mid rest : Lexemes} {t : Token} {ts us : List Token}

theorem trans (h : s.Leads ts mid) (h' : mid.Leads us rest) : s.Leads (ts ++ us) rest :=
  leads_append_iff.2 ⟨mid, h, h'⟩

theorem token_eq (h : s.Leads (t :: ts) rest) : s.token = t := by
  obtain _ | ⟨-, -⟩ := h
  rfl

theorem advance_eq (h : s.Leads [t] rest) : s.advance = .ok rest := by
  obtain _ | ⟨hsound, h⟩ := h
  obtain rfl := leads_nil_iff.1 h
  exact check_eq_ok_iff.2 ⟨hsound, rfl⟩

theorem length_eq (h : s.Leads ts rest) : s.length = ts.length + rest.length := by
  induction h with
  | refl => simp
  | cons hsound h ih =>
    simp only [Lexemes.length, List.length_cons, ih]
    omega

theorem length_le (h : s.Leads ts rest) : rest.length ≤ s.length := by
  rw [h.length_eq]
  exact Nat.le_add_left _ _

theorem length_lt (h : s.Leads (t :: ts) rest) : rest.length < s.length := by
  rw [h.length_eq, List.length_cons]
  omega

theorem tokens_eq (h : s.Leads ts rest) : s.tokens = ts ++ rest.tokens := by
  induction h with
  | refl => rfl
  | cons hsound h ih => rw [Lexemes.tokens, ih, List.cons_append]

theorem complete_iff (h : s.Leads ts rest) : s.Complete ↔ rest.Complete := by
  induction h with
  | refl => rfl
  | cons hsound h ih => exact ih

theorem not_faulty (h : s.Leads ts rest) (hs : ¬s.Faulty) : ¬rest.Faulty := by
  induction h with
  | refl => exact hs
  | cons hsound h ih => exact ih hsound

end Leads

def ofTokens : List Token → Lexemes
  | [] => .nil 0
  | t :: ts => .cons 0 t (ofTokens ts)

theorem leads_ofTokens (ts : List Token) : (ofTokens ts).Leads ts (.nil 0) := by
  induction ts with
  | nil => exact .refl _
  | cons t ts ih =>
    refine .cons (fun hfault => ?_) ih
    cases ts <;> exact hfault

/-- A sequence without a fault leads through all of its tokens to its end. -/
theorem Complete.leads {s : Lexemes} (h : s.Complete) :
    ∃ position, s.Leads s.tokens (.nil position) := by
  induction s with
  | nil position => exact ⟨position, .refl _⟩
  | fault e => exact h.elim
  | cons start t rest ih =>
    obtain ⟨position, hrest⟩ := ih h
    refine ⟨position, .cons (fun hfault => ?_) hrest⟩
    cases rest <;> simp_all [Complete, Faulty]

/-- Where a reader sees the end of input, it has passed all tokens and there is no fault. -/
theorem Leads.to_end {s rest : Lexemes} {ts : List Token} (h : s.Leads ts rest) (hs : ¬s.Faulty)
    (hend : rest.token = .endOfInput) (htokens : .endOfInput ∉ s.tokens) :
    s.Complete ∧ s.tokens = ts := by
  rw [h.complete_iff, h.tokens_eq]
  cases rest with
  | nil position => simp [Complete, tokens]
  | fault e => exact (h.not_faulty hs trivial).elim
  | cons start t rest =>
    obtain rfl : t = .endOfInput := hend
    simp [h.tokens_eq, tokens] at htokens

end Lexemes

namespace Lexer

theorem wordToken_ne_endOfInput (name : String) : wordToken name ≠ .endOfInput := by
  unfold wordToken
  split <;> simp

theorem scanNumber_ne_endOfInput (cs : List Char) : (scanNumber cs).1 ≠ .endOfInput := by
  simp only [scanNumber]
  split
  all_goals split
  all_goals try split
  all_goals simp_all

theorem map_eq_ok {α β : Type} {r : Scan α} {g : α → β} {b : β} {rest : List Char}
    (h : r.map (fun (a, rest) => (g a, rest)) = .ok (b, rest)) :
    ∃ a, r = .ok (a, rest) ∧ g a = b := by
  cases r with
  | error e => simp [Except.map] at h
  | ok result =>
    obtain ⟨a, rest'⟩ := result
    obtain ⟨rfl, rfl⟩ := Prod.mk.inj (Except.ok.inj h)
    exact ⟨a, rfl, rfl⟩

theorem map_ne_endOfInput {α : Type} {r : Scan α} {f : α → Token} (hf : ∀ a, f a ≠ .endOfInput)
    {t : Token} {rest : List Char}
    (h : r.map (fun (a, rest) => (f a, rest)) = .ok (t, rest)) : t ≠ .endOfInput := by
  obtain ⟨a, -, rfl⟩ := map_eq_ok h
  exact hf a

theorem scanQuoted_ne_endOfInput {position : Nat} {quote : Char} {cs rest : List Char} {t : Token}
    (h : scanQuoted position quote cs = .ok (t, rest)) : t ≠ .endOfInput := by
  unfold scanQuoted at h
  split at h
  · obtain ⟨rfl, -⟩ := Prod.mk.inj (Except.ok.inj h)
    simp
  · simp at h

theorem scanNode_ne_endOfInput {position : Nat} {cs rest : List Char} {t : Token}
    (h : scanNode position cs = .ok (t, rest)) : t ≠ .endOfInput := by
  unfold scanNode at h
  split at h
  · exact map_ne_endOfInput (by simp) h
  · split at h
    · simp at h
    · obtain ⟨rfl, -⟩ := Prod.mk.inj (Except.ok.inj h)
      simp

/-- Only the end of the text is read as the end of input. -/
theorem scan_ne_endOfInput {position : Nat} {c : Char} {cs rest : List Char} {t : Token}
    (h : scan position (c :: cs) = .ok (t, rest)) : t ≠ .endOfInput := by
  unfold scan at h
  split at h
  -- signs, which are tokens of their own
  all_goals try
    obtain ⟨rfl, -⟩ := Prod.mk.inj (Except.ok.inj h)
    simp
  · contradiction
  · exact map_ne_endOfInput (by simp) h
  · exact scanNode_ne_endOfInput h
  · simp at h
  · exact scanQuoted_ne_endOfInput h
  · exact scanQuoted_ne_endOfInput h
  · split at h
    · obtain ⟨rfl, -⟩ := Prod.mk.inj (Except.ok.inj h)
      exact wordToken_ne_endOfInput _
    · split at h
      · have ht : (scanNumber _).1 = t := congrArg Prod.fst (Except.ok.inj h)
        exact ht ▸ scanNumber_ne_endOfInput _
      · simp at h

/-- Blanks in front only move the offset. -/
theorem lexemes_skip {fuel position : Nat} {blanks cs : List Char}
    (hblanks : ∀ b ∈ blanks, Text.isBlank b = true) :
    lexemes (fuel + 1) position (blanks ++ cs) =
      lexemes (fuel + 1) (position + blanks.length) cs := by
  rw [lexemes, lexemes, List.takeWhile_append_of_pos hblanks, List.dropWhile_append_of_pos hblanks,
    List.length_append, Nat.add_assoc]

theorem lexemes_cons {fuel position : Nat} {c : Char} {cs rest : List Char} {token : Token}
    (hblank : Text.isBlank c = false) (hscan : scan position (c :: cs) = .ok (token, rest)) :
    lexemes (fuel + 1) position (c :: cs) = .cons position token
      (lexemes fuel (position + ((c :: cs).length - rest.length)) rest) := by
  rw [lexemes]
  simp only [List.takeWhile_cons, List.dropWhile_cons, hblank, Bool.false_eq_true, if_false,
    List.length_nil, Nat.add_zero, hscan]

theorem lexemes_fault {fuel position : Nat} {c : Char} {cs : List Char} {e : SyntaxError}
    (hblank : Text.isBlank c = false) (hscan : scan position (c :: cs) = .error e) :
    lexemes (fuel + 1) position (c :: cs) = .fault e := by
  rw [lexemes]
  simp only [List.takeWhile_cons, List.dropWhile_cons, hblank, Bool.false_eq_true, if_false,
    List.length_nil, Nat.add_zero, hscan]

theorem endOfInput_notMem_lexemes (fuel position : Nat) (cs : List Char) :
    .endOfInput ∉ (lexemes fuel position cs).tokens := by
  induction fuel generalizing position cs with
  | zero => simp [lexemes, Lexemes.tokens]
  | succ fuel ih =>
    rw [lexemes]
    split
    · simp [Lexemes.tokens]
    · rename_i c cs' _
      cases hscan : scan (position + (cs.takeWhile Text.isBlank).length) (c :: cs') with
      | error e => simp [Lexemes.tokens]
      | ok result =>
        obtain ⟨t, rest⟩ := result
        simp only [Lexemes.tokens, List.mem_cons, not_or]
        exact ⟨(scan_ne_endOfInput hscan).symm, ih _ _⟩

end Lexer

end FormulaPipeline
