import FormulaPipeline.Proofs.Formula.Diagnosis
import FormulaPipeline.Proofs.Formula.Resuming
import FormulaPipeline.Proofs.Pipeline.Values

/-!
# Faults are found at the earliest place

What stands before the place of a fault is the beginning of a formula, and a token that is out of
place there ends no other beginning. What comes after that token has no influence on the fault.
-/

namespace FormulaPipeline

/-- The faults of characters; the others are faults of tokens. -/
def SyntaxFault.IsLexical : SyntaxFault → Prop
  | unterminatedText | unterminatedReference | emptyReference | missingName | loneExclamation
  | unexpectedCharacter _ => True
  | unexpected .. | expected .. | tooDeep => False

instance SyntaxFault.decidableIsLexical (fault : SyntaxFault) : Decidable fault.IsLexical := by
  cases fault <;> dsimp only [IsLexical] <;> infer_instance

namespace Lexer

variable {position : Nat} {cs : List Char} {e : SyntaxError}

theorem isLexical_of_braced (h : braced position cs = .error e) : e.fault.IsLexical := by
  unfold braced at h
  split at h
  · exact Except.error.inj h ▸ trivial
  · dsimp only at h
    split at h
    · exact Except.error.inj h ▸ trivial
    · cases h

theorem isLexical_of_scanQuoted {quote : Char} (h : scanQuoted position quote cs = .error e) :
    e.fault.IsLexical := by
  unfold scanQuoted at h
  split at h
  · cases h
  · exact Except.error.inj h ▸ trivial

theorem isLexical_of_scan (h : scan position cs = .error e) : e.fault.IsLexical := by
  unfold scan at h
  split at h
  all_goals try cases h
  · exact isLexical_of_braced (map_eq_error h)
  · unfold scanNode at h
    split at h
    · exact isLexical_of_braced (map_eq_error h)
    · split at h
      · exact Except.error.inj h ▸ trivial
      · cases h
  · trivial
  · exact isLexical_of_scanQuoted h
  · exact isLexical_of_scanQuoted h
  · split at h
    · cases h
    · split at h
      · cases h
      · exact Except.error.inj h ▸ trivial

theorem isLexical_of_passes {fuel : Nat} {ts : List Token}
    (h : (lexemes fuel position cs).Passes ts (.fault e)) (hfuel : cs.length < fuel) :
    e.fault.IsLexical := by
  obtain ⟨kept, r, fuel', -, hfuel', heq, hstops, -⟩ := lexemes_passes h hfuel
  have hopening : Opening (position + kept.length) r (lexemes fuel' (position + kept.length) r) :=
    opening_lexemes hfuel' hstops
  rw [← heq] at hopening
  cases hopening with
  | fault hcs hscan => exact isLexical_of_scan (hcs ▸ hscan)

/-- The first token of a text that starts with no blank is read from its first characters. -/
theorem exists_scan {fuel : Nat} (hfuel : cs.length < fuel) (hstops : Stops Text.isBlank cs)
    (hsound : ¬(lexemes fuel position cs).Faulty) :
    (lexemes fuel position cs).position = position ∧
      ∃ used after, cs = used ++ after ∧ (used = [] → cs = []) ∧
        scan position cs = .ok ((lexemes fuel position cs).token, after) := by
  have hopening : Opening position cs (lexemes fuel position cs) := opening_lexemes hfuel hstops
  generalize lexemes fuel position cs = s at hopening hsound ⊢
  cases hopening with
  | nil hcs =>
    subst hcs
    exact ⟨rfl, [], [], rfl, fun _ => rfl, rfl⟩
  | fault => exact (hsound trivial).elim
  | @cons _ c used rest _ hcs hscan => exact ⟨rfl, c :: used, rest, hcs, by simp, hscan⟩

/-- A token that stands at the first character is the first one. -/
theorem token_of_stands {fuel : Nat} {t : Token} (hfuel : cs.length < fuel)
    (hstops : Stops Text.isBlank cs) (h : (lexemes fuel position cs).Stands t position) :
    (lexemes fuel position cs).token = t ∧ (lexemes fuel position cs).position = position ∧
      ¬(lexemes fuel position cs).Faulty := by
  have hopening : Opening position cs (lexemes fuel position cs) := opening_lexemes hfuel hstops
  generalize lexemes fuel position cs = s at hopening h ⊢
  cases hopening with
  | nil => exact ⟨h.1.symm, rfl, id⟩
  | fault => exact h.elim
  | cons =>
    obtain ⟨rfl, -⟩ | hlater := h
    · exact ⟨rfl, rfl, id⟩
    · have hle := le_of_stands hlater
      simp at hle

/-- The end of the input stands at the end of the text. -/
theorem eq_of_stands_endOfInput {fuel place : Nat} (hfuel : cs.length < fuel)
    (h : (lexemes fuel position cs).Stands .endOfInput place) : place = position + cs.length := by
  induction hlength : cs.length using Nat.strong_induction_on generalizing fuel position cs with
  | _ length ih =>
    obtain ⟨fuel, rfl⟩ := Nat.exists_eq_add_one_of_ne_zero (Nat.ne_zero_of_lt hfuel)
    obtain ⟨blanks, rest, rfl, hblanks, hfirst⟩ := exists_blanks cs
    rw [List.length_append] at hfuel hlength
    rw [lexemes_skip hblanks] at h
    have hopening : Opening (position + blanks.length) rest
        (lexemes (fuel + 1) (position + blanks.length) rest) := opening_lexemes (by omega) hfirst
    generalize lexemes (fuel + 1) (position + blanks.length) rest = s at hopening h
    cases hopening with
    | nil hrest =>
      subst hrest
      rw [h.2, ← hlength, List.length_nil, Nat.add_zero]
    | fault => exact h.elim
    | cons hrest hscan hroom =>
      subst hrest
      simp only [List.length_append, List.length_cons] at hlength
      obtain ⟨ht, -⟩ | hlater := h
      · exact (scan_ne_endOfInput hscan ht.symm).elim
      · rw [ih _ (by omega) hroom hlater rfl]
        simp only [List.length_cons]
        omega

theorem ordered_ofText (text : String) : (Lexemes.ofText text).Ordered := by
  obtain ⟨calls, -, hsegments⟩ := segments_lexemes [] text.toList (Nat.lt_succ_self _)
  exact hsegments.ordered.1

end Lexer

namespace Parser

open Grammar

/-- The reader is stuck at a place: what it has passed begins a formula, and it is stuck in the same
way in every sequence with the same tokens up to the place and the same token there. -/
structure Stuck (s : Lexemes) (e : SyntaxError) (ts : List Token) (rest : Lexemes) : Prop where
  leads : s.Leads ts rest
  sound : ¬rest.Faulty
  position_eq : e.position = rest.position
  viable : Viable AnyFormula ts
  same : ∀ {s' rest'}, s'.Leads ts rest' → ¬rest'.Faulty → rest'.token = rest.token →
    formula s' = .error ⟨e.fault, rest'.position⟩

/-- A sequence that is refused begins a formula up to a fault of characters or up to a place where
the reader is stuck. -/
theorem formula_eq_error {s : Lexemes} {e : SyntaxError} (h : formula s = .error e) :
    (∃ ts, s.Passes ts (.fault e) ∧ Viable AnyFormula ts) ∨ ∃ ts rest, Stuck s e ts rest := by
  by_cases hfaulty : s.Faulty
  · left
    cases s with
    | fault e' =>
      obtain rfl : e' = e := Except.error.inj h
      exact ⟨[], .refl _, viable_anyFormula⟩
    | nil => exact hfaulty.elim
    | cons => exact hfaulty.elim
  · have hformula {s : Lexemes} (hs : ¬s.Faulty) : formula s = _ :=
      bind_ok (Lexemes.check_eq_ok_iff.2 ⟨hs, rfl⟩)
    rw [hformula hfaulty] at h
    cases @ending_formula s with
    | phrase hleads hphrase hsame => cases (hsame hleads rfl).symm.trans h
    | cut hpasses hviable hfault =>
      obtain rfl := Except.error.inj (hfault.symm.trans h)
      exact .inl ⟨_, hpasses, hviable⟩
    | stuck fault hleads hviable hsame =>
      obtain rfl := Except.error.inj ((hsame hleads rfl).symm.trans h)
      refine .inr ⟨_, _, hleads, hleads.not_faulty hfaulty, rfl, hviable, ?_⟩
      intro s' rest' hleads' hsound htoken
      have hs' : ¬s'.Faulty := by
        cases hleads' with
        | refl => exact hsound
        | cons => exact fun hfaulty => hfaulty
      rw [hformula hs']
      exact hsame hleads' htoken

end Parser

namespace Lexemes

open Grammar

theorem Complete.not_faulty {s : Lexemes} (h : s.Complete) : ¬s.Faulty := by
  intro hfaulty
  cases s with
  | nil => exact hfaulty
  | fault => exact h
  | cons => exact hfaulty

/-- What begins a formula is the beginning of the tokens of one, and a text can be written for
it. -/
theorem exists_formula {text : String} {ts : List Token} {s : Lexemes}
    (h : (ofText text).Passes ts s) (hviable : Viable AnyFormula ts) :
    ∃ formula x, ts <+: (ofText formula).tokens ∧ (ofText formula).Complete ∧
      AnyFormula (ofText formula).tokens x := by
  obtain ⟨us, x, hus, hx⟩ := hviable
  obtain ⟨kept, r, -, -, -, -, -, hparts⟩ := Lexer.lexemes_passes h (Nat.lt_succ_self _)
  let written := us.map fun u => (Quote.double, u)
  have hwritten : ∀ p ∈ written, p.2.Writable := by simpa [written] using hus
  have hseparated := Lexer.separated_following written
  let text := kept ++ Lexer.following written
  obtain ⟨fuel, hfuel, hpasses, -⟩ | ⟨-, hplaces, -⟩ :=
    hparts _ hseparated.follows (text.length + 1) (Nat.lt_succ_self _)
  · obtain ⟨htokens, hcomplete⟩ := @Lexer.lexemes_following (0 + kept.length) _ _ hwritten hfuel
    rw [List.map_map, Function.comp_def, List.map_id'] at htokens
    generalize Lexer.lexemes fuel (0 + kept.length) _ = last at hpasses htokens hcomplete
    have hleads : (ofText (String.ofList text)).Leads ts last := by
      rw [ofText, String.toList_ofList]
      exact hpasses.leads hcomplete.not_faulty
    have hall : (ofText (String.ofList text)).tokens = ts ++ us := by rw [hleads.tokens_eq, htokens]
    refine ⟨String.ofList text, x, ?_, hleads.complete_iff.2 hcomplete, hall ▸ hx⟩
    rw [hall]
    exact List.prefix_append ts us
  · refine (hplaces ?_).elim
    obtain hnil | ⟨rest, hcons⟩ := hseparated.eq_nil_or_cons
    · rw [hnil]
      rfl
    · rw [hcons]
      rfl

theorem stands_self {s : Lexemes} (h : ¬s.Faulty) : s.Stands s.token s.position := by
  cases s with
  | nil => exact ⟨rfl, rfl⟩
  | fault => exact (h trivial).elim
  | cons => exact .inl ⟨rfl, rfl⟩

theorem Leads.stands {s rest : Lexemes} {ts : List Token} {t : Token} {position : Nat}
    (h : s.Leads ts rest) (hrest : rest.Stands t position) : s.Stands t position := by
  induction h with
  | refl => exact hrest
  | cons _ _ ih => exact .inr (ih hrest)

/-- The place after the tokens with which a sequence begins. -/
theorem Complete.leads_of_begins {s : Lexemes} {ts : List Token} {t : Token} (h : s.Complete)
    (hfront : ts ++ [t] <+: s.tokens ++ [.endOfInput]) :
    ∃ rest, s.Leads ts rest ∧ rest.Complete ∧ rest.token = t := by
  induction ts generalizing s with
  | nil =>
    refine ⟨s, .refl s, h, ?_⟩
    cases s with
    | nil => exact (List.cons_prefix_cons.1 hfront).1.symm
    | fault => exact h.elim
    | cons start u rest => exact (List.cons_prefix_cons.1 hfront).1.symm
  | cons u ts ih =>
    cases s with
    | nil =>
      have hlength := hfront.length_le
      simp [tokens] at hlength
    | fault => exact h.elim
    | cons start v rest =>
      obtain ⟨rfl, hnext⟩ := List.cons_prefix_cons.1 hfront
      have hrest : rest.Complete := h
      obtain ⟨last, hleads, hlast⟩ := ih hrest hnext
      exact ⟨last, .cons hrest.not_faulty hleads, hlast⟩

end Lexemes

/-- A fault of tokens at the token with which `kept` ends, or at the end of the text. -/
structure SyntaxError.StuckAt (e : SyntaxError) (text : String) (t : Token)
    (kept after : List Char) : Prop where
  text_eq : text.toList = kept ++ after
  /-- The place of the fault is the start of the token. -/
  stands : (Lexemes.ofText text).Stands t e.position
  /-- The token is read there, and it is the last one in the part of the text that is kept. -/
  scan_eq : Lexer.scan e.position (text.toList.drop e.position) = .ok (t, after)
  /-- No formula begins with the tokens in front of the place and this one. -/
  refused : ∀ other, (Lexemes.ofText text).before e.position ++ [t] <+:
    (Lexemes.ofText other).tokens ++ [.endOfInput] → ∀ p, Pipeline.ofFormula other ≠ .ok p
  /-- What comes after the token has no influence on the fault. -/
  same : ∀ other, (Lexemes.ofText (String.ofList (kept ++ other))).Stands t e.position →
    Pipeline.ofFormula (String.ofList (kept ++ other)) = .error e

namespace Pipeline

theorem ofFormula_eq_error_iff {text : String} {e : SyntaxError} :
    Pipeline.ofFormula text = .error e ↔ Parser.formula (Lexemes.ofText text) = .error e := by
  unfold Pipeline.ofFormula Expr.parse
  cases Parser.formula (Lexemes.ofText text) <;> simp [Except.map]

section Stuck

variable {text : String} {e : SyntaxError} {ts : List Token} {rest : Lexemes}
  (hstuck : Parser.Stuck (Lexemes.ofText text) e ts rest)
include hstuck

theorem refused_of_stuck (other : String)
    (hfront : (Lexemes.ofText text).before e.position ++ [rest.token] <+:
      (Lexemes.ofText other).tokens ++ [.endOfInput]) (p : Pipeline) :
    Pipeline.ofFormula other ≠ .ok p := by
  intro hok
  obtain ⟨x, ⟨hcomplete, -⟩, -⟩ := ofFormula_eq_ok_iff.1 hok
  rw [hstuck.position_eq, (Lexer.ordered_ofText text).before_eq hstuck.leads.passes] at hfront
  obtain ⟨last, hleads, hlast, htoken⟩ := hcomplete.leads_of_begins hfront
  cases hok.symm.trans (ofFormula_eq_error_iff.2 (hstuck.same hleads hlast.not_faulty htoken))

/-- Another text with the same front and the same token behind it has the same fault. -/
theorem same_of_stuck {front used after other : List Char} {fuel : Nat}
    (htext : text.toList = front ++ (used ++ after)) (hempty : used = [] → used ++ after = [])
    (hrest : rest = Lexer.lexemes fuel (0 + front.length) (used ++ after))
    (hplace : e.position = 0 + front.length) (hstops : Lexer.Stops Text.isBlank (used ++ after))
    (hparts : ∀ r, Lexer.Follows (used ++ after) r → Lexer.Parts 0 front ts (used ++ after) r)
    (hother : (Lexemes.ofText (String.ofList (front ++ (used ++ other)))).Stands rest.token
      e.position) :
    Pipeline.ofFormula (String.ofList (front ++ (used ++ other))) = .error e := by
  cases used with
  | nil =>
    rw [List.nil_append] at hempty hother ⊢
    obtain rfl : after = [] := hempty rfl
    have htoken : rest.token = .endOfInput := by
      rw [hrest, List.append_nil, Lexer.lexemes_nil]
      rfl
    rw [htoken, hplace, Lexemes.ofText, String.toList_ofList] at hother
    have hend := Lexer.eq_of_stands_endOfInput (Nat.lt_succ_self _) hother
    rw [List.length_append] at hend
    obtain rfl : other = [] := List.length_eq_zero_iff.1 (by omega)
    rw [List.append_nil] at htext
    rw [← htext, String.ofList_toList, ofFormula_eq_error_iff,
      hstuck.same hstuck.leads hstuck.sound rfl, ← hstuck.position_eq]
  | cons c used =>
    rw [hplace, Lexemes.ofText, String.toList_ofList] at hother
    obtain ⟨fuel', hfuel', hpasses, hstands⟩ | ⟨-, -, hnone⟩ :=
      hparts (c :: used ++ other) (fun d hd => .inr hd) _ (Nat.lt_succ_self _)
    · obtain ⟨htoken, hstart, hsound⟩ :=
        Lexer.token_of_stands hfuel' (fun d hd => hstops d hd) (hstands _ hother)
      have hformula := hstuck.same (hpasses.leads hsound) hsound htoken
      rw [hstart, ← hplace] at hformula
      rw [ofFormula_eq_error_iff, Lexemes.ofText, String.toList_ofList]
      exact hformula
    · exact (hnone _ hother).elim

theorem exists_stuckAt : ∃ t kept after, e.StuckAt text t kept after := by
  obtain ⟨front, r, fuel, htext, hfuel, hrest, hstops, hparts⟩ :=
    Lexer.lexemes_passes hstuck.leads.passes (Nat.lt_succ_self _)
  obtain ⟨hstart, used, after, rfl, hempty, hscan⟩ :=
    Lexer.exists_scan hfuel hstops (hrest ▸ hstuck.sound)
  rw [← hrest] at hstart hscan
  have hplace : e.position = 0 + front.length := hstuck.position_eq.trans hstart
  refine ⟨rest.token, front ++ used, after, ⟨?_, ?_, ?_, ?_, ?_⟩⟩
  · rw [htext, List.append_assoc]
  · rw [hstuck.position_eq]
    exact hstuck.leads.stands (Lexemes.stands_self hstuck.sound)
  · have hdrop : text.toList.drop e.position = used ++ after := by
      rw [htext, hplace, Nat.zero_add, List.drop_left]
    rw [hdrop, hplace]
    exact hscan
  · exact refused_of_stuck hstuck
  · intro other hother
    rw [List.append_assoc] at hother ⊢
    exact same_of_stuck hstuck htext hempty hrest hplace hstops hparts hother

end Stuck

/-- A text that does not compile has its fault at the earliest place. The tokens before the place
are the beginning of a formula, and where the fault is none of characters, it is that of the token
there. -/
theorem ofFormula_error_earliest {text : String} {e : SyntaxError}
    (h : Pipeline.ofFormula text = .error e) :
    (∃ formula x, (Lexemes.ofText text).before e.position <+: (Lexemes.ofText formula).tokens ∧
      (Lexemes.ofText formula).Complete ∧ Grammar.AnyFormula (Lexemes.ofText formula).tokens x) ∧
    (¬e.fault.IsLexical → ∃ t kept after, e.StuckAt text t kept after) := by
  rw [ofFormula_eq_error_iff] at h
  obtain ⟨ts, hpasses, hviable⟩ | ⟨ts, rest, hstuck⟩ := Parser.formula_eq_error h
  · have hbefore : (Lexemes.ofText text).before e.position = ts :=
      (Lexer.ordered_ofText text).before_eq hpasses
    refine ⟨hbefore ▸ Lexemes.exists_formula hpasses hviable, fun hfault => ?_⟩
    exact (hfault (Lexer.isLexical_of_passes hpasses (Nat.lt_succ_self _))).elim
  · have hbefore : (Lexemes.ofText text).before e.position = ts :=
      hstuck.position_eq ▸ (Lexer.ordered_ofText text).before_eq hstuck.leads.passes
    exact ⟨hbefore ▸ Lexemes.exists_formula hstuck.leads.passes hstuck.viable,
      fun _ => exists_stuckAt hstuck⟩

/-- The character that no token starts with is never reached. -/
theorem ofFormula_error_earliest_of_group :
    let e : SyntaxError := ⟨.unexpected .closeParen .expression, 5⟩
    Pipeline.ofFormula "(1 + ) $" = .error e ∧ ¬e.fault.IsLexical ∧
      ∃ t kept after, e.StuckAt "(1 + ) $" t kept after :=
  ⟨rfl, by decide, (ofFormula_error_earliest rfl).2 (by decide)⟩

end Pipeline

end FormulaPipeline
