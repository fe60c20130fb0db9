import FormulaPipeline.Proofs.Formula.Arguments
import FormulaPipeline.Proofs.Spelling

/-!
# How parsers end

A parser takes a phrase, or it is stuck at a token, or the text is cut off by a fault. What it has
taken can be completed in all three cases, and in the first two it has looked at no more than the
next token.
-/

namespace FormulaPipeline

namespace Lexemes

/-- The tokens between two places; a fault may stand at the second one. -/
inductive Passes : Lexemes → List Token → Lexemes → Prop
  | refl (s : Lexemes) : Passes s [] s
  | cons {start : Nat} {t : Token} {rest last : Lexemes} {ts : List Token}
      (h : Passes rest ts last) : Passes (.cons start t rest) (t :: ts) last

variable {s mid rest : Lexemes} {t : Token} {ts us : List Token}

theorem Passes.trans (h : s.Passes ts mid) (h' : mid.Passes us rest) :
    s.Passes (ts ++ us) rest := by
  induction h with
  | refl => exact h'
  | cons _ ih => exact .cons (ih h')

theorem Leads.passes (h : s.Leads ts rest) : s.Passes ts rest := by
  induction h with
  | refl => exact .refl _
  | cons _ _ ih => exact .cons ih

/-- A token that cannot be passed has a fault behind it. -/
theorem passes_of_advance {e : SyntaxError} (htoken : s.token = t) (ht : t ≠ .endOfInput)
    (h : s.advance = .error e) : s.Passes [t] (.fault e) := by
  cases s with
  | nil => exact (ht htoken.symm).elim
  | fault => exact (ht htoken.symm).elim
  | cons start first next =>
    obtain rfl : first = t := htoken
    cases next with
    | fault e' =>
      obtain rfl : e' = e := Except.error.inj h
      exact .cons (.refl _)
    | nil => cases h
    | cons => cases h

/-- Before the same tokens and the same next token stands the same token. -/
theorem Leads.token_congr {s' rest' : Lexemes} (h : s.Leads ts rest) (h' : s'.Leads ts rest')
    (htoken : rest'.token = rest.token) : s'.token = s.token := by
  cases ts with
  | nil => rwa [leads_nil_iff.1 h, leads_nil_iff.1 h']
  | cons t ts => rw [h.token_eq, h'.token_eq]

end Lexemes

namespace Grammar

variable {α β : Type} {R : Rule α} {ts us : List Token}

/-- The tokens can be completed to a phrase, by tokens that can be written. -/
def Viable (R : Rule α) (ts : List Token) : Prop :=
  ∃ us a, (∀ u ∈ us, u.Writable) ∧ R (ts ++ us) a

/-- What completes the tokens to a phrase. -/
def After (R : Rule α) (ts : List Token) : Rule α := fun us a => R (ts ++ us) a

theorem after_after : After (After R ts) us = After R (ts ++ us) := by
  funext vs a
  rw [After, After, After, List.append_assoc]

theorem viable_of_phrase {a : α} (h : R ts a) : Viable R ts :=
  ⟨[], a, by simp, by rwa [List.append_nil]⟩

theorem viable_after_iff : Viable (After R ts) us ↔ Viable R (ts ++ us) := by
  simp only [Viable, After, List.append_assoc]

theorem Viable.of_append (h : Viable R (ts ++ us)) (hus : ∀ u ∈ us, u.Writable) : Viable R ts := by
  obtain ⟨vs, a, hvs, hphrase⟩ := h
  refine ⟨us ++ vs, a, List.forall_mem_append.2 ⟨hus, hvs⟩, ?_⟩
  rwa [← List.append_assoc]

/-- What begins a phrase begins what every such phrase begins. -/
theorem Viable.bind {T : Rule β} (h : Viable R ts) (hR : ∀ {ts a}, R ts a → Viable T ts) :
    Viable T ts := by
  obtain ⟨us, a, hus, hphrase⟩ := h
  exact (hR hphrase).of_append hus

end Grammar

namespace Parser

open Grammar

variable {α β : Type} {p q : Parser α} {R : Rule α} {s : Lexemes} {t : Token}

/-- How a parser for a rule ends on a sequence. Where it takes a phrase or is stuck it does the same
on every sequence with the same tokens up to that place and the same token there. -/
inductive Ending (p : Parser α) (R : Rule α) (s : Lexemes) : Prop
  | phrase {ts : List Token} {a : α} {rest : Lexemes} (hleads : s.Leads ts rest) (hphrase : R ts a)
      (hsame : ∀ {s' rest'}, s'.Leads ts rest' → rest'.token = rest.token → p s' = .ok (a, rest'))
  | stuck {ts : List Token} {rest : Lexemes} (fault : SyntaxFault) (hleads : s.Leads ts rest)
      (hviable : Viable R ts)
      (hsame : ∀ {s' rest'}, s'.Leads ts rest' → rest'.token = rest.token →
        p s' = .error ⟨fault, rest'.position⟩)
  | cut {ts : List Token} {e : SyntaxError} (hpasses : s.Passes ts (.fault e))
      (hviable : Viable R ts) (hfault : p s = .error e)

namespace Ending

theorem sound (h : Ending p R s) {a : α} {rest : Lexemes} (hp : p s = .ok (a, rest)) :
    ∃ ts, s.Leads ts rest ∧ R ts a := by
  cases h with
  | phrase hleads hphrase hsame =>
    rw [hsame hleads rfl] at hp
    obtain ⟨rfl, rfl⟩ := Prod.mk.inj (Except.ok.inj hp)
    exact ⟨_, hleads, hphrase⟩
  | stuck fault hleads hviable hsame =>
    rw [hsame hleads rfl] at hp
    cases hp
  | cut hpasses hviable hfault =>
    rw [hfault] at hp
    cases hp

theorem length_le (h : Ending p R s) {a : α} {rest : Lexemes} (hp : p s = .ok (a, rest)) :
    rest.length ≤ s.length := by
  obtain ⟨ts, hleads, -⟩ := h.sound hp
  exact hleads.length_le

theorem mono {T : Rule α} (h : Ending p R s) (hR : ∀ {ts a}, R ts a → T ts a) : Ending p T s := by
  have hviable {ts : List Token} (hts : Viable R ts) : Viable T ts :=
    hts.bind fun h => viable_of_phrase (hR h)
  cases h with
  | phrase hleads hphrase hsame => exact .phrase hleads (hR hphrase) hsame
  | stuck fault hleads hstuck hsame => exact .stuck fault hleads (hviable hstuck) hsame
  | cut hpasses hcut hfault => exact .cut hpasses (hviable hcut) hfault

/-- Only the first token decides which parser it is. -/
theorem congr (hsame : ∀ s', s'.token = s.token → p s' = q s') (h : Ending q R s) :
    Ending p R s := by
  cases h with
  | phrase hleads hphrase hq =>
    refine .phrase hleads hphrase fun h' htoken => ?_
    rw [hsame _ (hleads.token_congr h' htoken), hq h' htoken]
  | stuck fault hleads hviable hq =>
    refine .stuck fault hleads hviable fun h' htoken => ?_
    rw [hsame _ (hleads.token_congr h' htoken), hq h' htoken]
  | cut hpasses hviable hq => exact .cut hpasses hviable (by rw [hsame s rfl, hq])

theorem ite {c : Token} (hp : s.token = c → Ending p R s) (hq : s.token ≠ c → Ending q R s) :
    Ending (fun s => if s.token = c then p s else q s) R s := by
  by_cases hc : s.token = c
  · exact (hp hc).congr fun s' hs' => if_pos (hs'.trans hc)
  · exact (hq hc).congr fun s' hs' => if_neg (hs'.trans_ne hc)

theorem pure {a : α} (h : R [] a) : Ending (fun s => Except.ok (a, s)) R s := by
  refine .phrase (.refl s) h fun h' _ => ?_
  rw [Lexemes.leads_nil_iff.1 h']

theorem fail (fault : SyntaxFault) (h : Viable R []) : Ending (Parser.fail fault) R s := by
  refine .stuck fault (.refl s) h fun h' _ => ?_
  rw [Lexemes.leads_nil_iff.1 h']
  rfl

theorem unexpected (place : Place) (h : Viable R []) : Ending (Parser.unexpected place) R s :=
  congr (fun s' hs' => by rw [Parser.unexpected, hs']) (.fail _ h)

/-- A parser that has come to a place goes on from there as another one. -/
theorem follow {mid : Lexemes} {ts : List Token} (hleads : s.Leads ts mid)
    (hsame : ∀ {s' mid'}, s'.Leads ts mid' → mid'.token = mid.token → p s' = q mid')
    (h : Ending q (After R ts) mid) : Ending p R s := by
  cases h with
  | phrase hleads' hphrase hq =>
    refine .phrase (hleads.trans hleads') hphrase fun h' htoken => ?_
    obtain ⟨mid', hfirst, hlast⟩ := Lexemes.leads_append_iff.1 h'
    rw [hsame hfirst (hleads'.token_congr hlast htoken), hq hlast htoken]
  | stuck fault hleads' hstuck hq =>
    refine .stuck fault (hleads.trans hleads') (viable_after_iff.1 hstuck) fun h' htoken => ?_
    obtain ⟨mid', hfirst, hlast⟩ := Lexemes.leads_append_iff.1 h'
    rw [hsame hfirst (hleads'.token_congr hlast htoken), hq hlast htoken]
  | cut hpasses hcut hfault =>
    refine .cut (hleads.passes.trans hpasses) (viable_after_iff.1 hcut) ?_
    rw [hsame hleads rfl, hfault]

/-- A parser that goes on after another one takes up what the first one left. -/
theorem bind {f : α × Lexemes → Except SyntaxError (β × Lexemes)} {T : Rule β} (h : Ending p R s)
    (hviable : ∀ {ts a}, R ts a → Viable T ts)
    (hnext : ∀ {ts a rest}, s.Leads ts rest → R ts a →
      Ending (fun s => f (a, s)) (After T ts) rest) :
    Ending (fun s => p s >>= f) T s := by
  cases h with
  | stuck fault hleads hstuck hsame =>
    exact .stuck fault hleads (hstuck.bind hviable) fun h' htoken => by rw [hsame h' htoken]; rfl
  | cut hpasses hcut hfault =>
    exact .cut hpasses (hcut.bind hviable) (by rw [hfault]; rfl)
  | phrase hleads hphrase hsame =>
    exact follow hleads (fun h' htoken => bind_ok (hsame h' htoken)) (hnext hleads hphrase)

/-- A parser that makes something of a phrase. -/
theorem map {f : α × Lexemes → Except SyntaxError (β × Lexemes)} {g : α → β} {T : Rule β}
    (h : Ending p R s) (hf : ∀ a s, f (a, s) = .ok (g a, s)) (hT : ∀ {ts a}, R ts a → T ts (g a)) :
    Ending (fun s => p s >>= f) T s := by
  refine h.bind (fun h => viable_of_phrase (hT h)) fun {ts a rest} _ h => ?_
  simp only [hf]
  refine .pure ?_
  rw [After, List.append_nil]
  exact hT h

theorem advance {f : Parser α} (htoken : s.token = t) (ht : t ≠ .endOfInput)
    (hviable : Viable R [t]) (hnext : ∀ {rest}, s.Leads [t] rest → Ending f (After R [t]) rest) :
    Ending (fun s => s.advance >>= f) R s := by
  cases hadvance : s.advance with
  | error e =>
    exact .cut (Lexemes.passes_of_advance htoken ht hadvance) hviable (by rw [hadvance]; rfl)
  | ok next =>
    have hskip := Lexemes.leads_of_advance htoken ht hadvance
    exact follow hskip (fun h' _ => bind_ok h'.advance_eq) (hnext hskip)

/-- A token that is a phrase alone. -/
theorem taken {a : α} (htoken : s.token = t) (ht : t ≠ .endOfInput) (h : R [t] a)
    (hp : ∀ s', s'.token = t → p s' = (do return (a, ← s'.advance))) : Ending p R s :=
  congr (fun s' hs' => hp s' (hs'.trans htoken))
    (.advance htoken ht (viable_of_phrase h) fun _ => .pure h)

theorem expect {f : Parser α} (ht : t ≠ .endOfInput) (hwritable : t.Writable)
    (hviable : Viable R [t]) (hnext : ∀ {rest}, s.Leads [t] rest → Ending f (After R [t]) rest) :
    Ending (fun s => Parser.expect t s >>= f) R s := by
  by_cases htoken : s.token = t
  · refine congr (fun s' hs' => ?_) (.advance htoken ht hviable hnext)
    rw [Parser.expect, if_pos (hs'.trans htoken)]
  · have hnone : Viable R [] := Viable.of_append hviable (by simpa using hwritable)
    refine congr (fun s' hs' => ?_) (.fail (.expected t s.token) hnone)
    rw [Parser.expect, if_neg (hs'.trans_ne htoken), hs']
    rfl

/-- A last token that must stand here. -/
theorem closed {a : α} (ht : t ≠ .endOfInput) (hwritable : t.Writable) (h : R [t] a) :
    Ending (fun s => do return (a, ← Parser.expect t s)) R s :=
  .expect ht hwritable (viable_of_phrase h) fun _ => .pure h

/-- A phrase with a last token that must stand behind it. -/
theorem enclosed {f : α × Lexemes → Except SyntaxError (β × Lexemes)} {g : α → β} {T : Rule β}
    (h : Ending p R s) (last : Token) (hlast : last ≠ .endOfInput) (hwritable : last.Writable)
    (hf : ∀ a s, f (a, s) = do return (g a, ← Parser.expect last s))
    (hT : ∀ {ts a}, R ts a → T (ts ++ [last]) (g a)) : Ending (fun s => p s >>= f) T s := by
  refine h.bind (fun {ts a} h => ⟨[last], g a, by simpa using hwritable, hT h⟩)
    fun {ts a rest} _ h => ?_
  simp only [hf]
  exact .closed hlast hwritable (hT h)

end Ending

end Parser

end FormulaPipeline
