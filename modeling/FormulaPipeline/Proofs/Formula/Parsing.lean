import FormulaPipeline.Proofs.Formula.Arguments

/-!
# Parsing is derivation

Each parser of expressions reads the rule of its level, given that the parsers of the next level do.
By induction on the nesting, a text is parsed to an expression exactly when its tokens are a formula
that stands for it.
-/

namespace FormulaPipeline

namespace Grammar

/-! ## First tokens -/

/-- A phrase can start here that is no negation. -/
def StartsPower (t : Token) : Prop := t ≠ .minus ∧ t ≠ .closeParen

theorem startsWith_primary {R : Rule Expr} : StartsWith (Primary R) StartsPower := by
  rintro _ _ (⟨⟨⟩⟩ | _ | _ | _ | _ | _)
  all_goals exact ⟨_, _, rfl, by simp [StartsPower]⟩

theorem startsWith_postfix {R : Rule Expr} : StartsWith (Postfix R) StartsPower := by
  intro ts e h
  induction h with
  | primary h => exact startsWith_primary _ _ h
  | property _ _ ih | aggregation _ _ _ _ ih | method _ _ _ _ ih =>
    obtain ⟨t, us, rfl, ht⟩ := ih
    exact ⟨t, _, List.cons_append, ht⟩

theorem startsWith_power {R operand : Rule Expr} : StartsWith (Power R operand) StartsPower := by
  rintro _ _ (h | ⟨h, -⟩)
  · exact startsWith_postfix _ _ h
  · obtain ⟨t, us, rfl, ht⟩ := startsWith_postfix _ _ h
    exact ⟨t, _, List.cons_append, ht⟩

theorem startsWith_unary {operand : Rule Expr} : StartsWith (Unary operand) (· ≠ .closeParen) := by
  rintro _ _ (h | h)
  · exact ⟨_, _, rfl, by simp⟩
  · obtain ⟨t, us, rfl, ht⟩ := startsWith_power _ _ h
    exact ⟨t, us, rfl, ht.2⟩

theorem StartsWith.leftAssociative {op : Token → BinaryOp → Prop} {R : Rule Expr}
    {P : Token → Prop} (hstart : StartsWith R P) : StartsWith (LeftAssociative op R) P := by
  intro ts e h
  induction h with
  | single h => exact hstart _ _ h
  | snoc _ _ _ ih =>
    obtain ⟨t, us, rfl, ht⟩ := ih
    exact ⟨t, _, List.cons_append, ht⟩

theorem StartsWith.comparison {R : Rule Expr} {P : Token → Prop} (hstart : StartsWith R P) :
    StartsWith (Comparison R) P := by
  rintro _ _ (h | ⟨h, -, -⟩)
  · exact hstart.leftAssociative.leftAssociative _ _ h
  · obtain ⟨t, us, rfl, ht⟩ := hstart.leftAssociative.leftAssociative _ _ h
    exact ⟨t, _, List.cons_append, ht⟩

theorem startsWith_operand (nesting : Nat) : StartsWith (Operand nesting) (· ≠ .closeParen) := by
  cases nesting with
  | zero => exact fun _ _ h => h.elim
  | succ nesting => exact startsWith_unary

end Grammar

namespace Parser

open Grammar

variable {s rest : Lexemes}

/-! ## Primary phrases -/

/-- A reference with the filter that follows it. -/
theorem filtered_eq_ok {f : Option Condition → Expr} {e : Expr}
    (h : (do
      let (filter, s) ← optionalFilter s
      return (f filter, s)) = Except.ok (e, rest)) :
    ∃ ts filter, s.Leads ts rest ∧ OptionalFilter ts filter ∧ f filter = e := by
  obtain ⟨⟨filter, next⟩, hfilter, h⟩ := bind_eq_ok_iff.1 h
  obtain ⟨rfl, rfl⟩ := Prod.mk.inj (Except.ok.inj h)
  obtain ⟨ts, hleads, hfilter⟩ := reads_optionalFilter.sound hfilter
  exact ⟨ts, filter, hleads, hfilter, rfl⟩

section Suffixes

variable {expression : Parser Expr} {R : Rule Expr} (hexpression : Reads expression R EndsFormula)
  (hstart : StartsWith R (· ≠ .closeParen))
include hexpression hstart

theorem reads_primary : Reads (primary expression) (Primary R) EndsPrimary where
  sound := by
    intro s e rest h
    unfold primary at h
    generalize htoken : s.token = t at h
    cases t
    case float | int | text | bool | null =>
      obtain ⟨hleads, rfl⟩ := leads_of_taken htoken (by simp) h
      exact ⟨_, hleads, .literal (by constructor)⟩
    case field name =>
      obtain ⟨s₁, hadvance, h⟩ := bind_eq_ok_iff.1 h
      have hname := Lexemes.leads_of_advance htoken (by simp) hadvance
      obtain ⟨ts, filter, hleads, hfilter, rfl⟩ := filtered_eq_ok h
      exact ⟨_, hname.trans hleads, .field name hfilter⟩
    case node name =>
      obtain ⟨s₁, hadvance, h⟩ := bind_eq_ok_iff.1 h
      have hname := Lexemes.leads_of_advance htoken (by simp) hadvance
      obtain ⟨ts, filter, hleads, hfilter, rfl⟩ := filtered_eq_ok h
      exact ⟨_, hname.trans hleads, .node name hfilter⟩
    case word name =>
      obtain ⟨s₁, hadvance, h⟩ := bind_eq_ok_iff.1 h
      have hname := Lexemes.leads_of_advance htoken (by simp) hadvance
      split at h
      · obtain ⟨⟨args, s₂⟩, hargs, h⟩ := bind_eq_ok_iff.1 h
        obtain ⟨rfl, rfl⟩ := Prod.mk.inj (Except.ok.inj h)
        obtain ⟨ts, hleads, hargs⟩ := (reads_callArguments hexpression hstart).sound hargs
        exact ⟨_, hname.trans hleads, .call name hargs⟩
      · obtain ⟨ts, filter, hleads, hfilter, rfl⟩ := filtered_eq_ok h
        exact ⟨_, hname.trans hleads, .word name hfilter⟩
    case openParen =>
      obtain ⟨s₁, hadvance, h⟩ := bind_eq_ok_iff.1 h
      obtain ⟨⟨e', s₂⟩, hgroup, h⟩ := bind_eq_ok_iff.1 h
      have hopen := Lexemes.leads_of_advance htoken (by simp) hadvance
      obtain ⟨ts, hleads, hphrase⟩ := hexpression.sound hgroup
      obtain ⟨hclose, rfl⟩ := (closed_eq_ok_iff (by simp)).1 h
      exact ⟨_, hopen.trans (hleads.trans hclose), .group hphrase⟩
    all_goals simp [unexpected, fail] at h
  complete := by
    intro s ts e rest hphrase hleads hend
    unfold primary
    cases hphrase with
    | literal h =>
      rw [hleads.token_eq]
      cases h <;> exact taken_of_leads _ hleads
    | field name hfilter =>
      obtain ⟨s₁, hname, hleads⟩ := Lexemes.leads_cons_iff.1 hleads
      rw [hname.token_eq]
      dsimp only
      rw [bind_ok hname.advance_eq, bind_ok (reads_optionalFilter.complete hfilter hleads hend.1)]
      rfl
    | node name hfilter =>
      obtain ⟨s₁, hname, hleads⟩ := Lexemes.leads_cons_iff.1 hleads
      rw [hname.token_eq]
      dsimp only
      rw [bind_ok hname.advance_eq, bind_ok (reads_optionalFilter.complete hfilter hleads hend.1)]
      rfl
    | call name hargs =>
      obtain ⟨s₁, hname, hleads⟩ := Lexemes.leads_cons_iff.1 hleads
      have hopen : s₁.token = .openParen := by cases hargs <;> exact hleads.token_eq
      rw [hname.token_eq]
      dsimp only
      rw [bind_ok hname.advance_eq, if_pos hopen,
        bind_ok ((reads_callArguments hexpression hstart).complete hargs hleads trivial)]
      rfl
    | word name hfilter =>
      obtain ⟨s₁, hname, hleads⟩ := Lexemes.leads_cons_iff.1 hleads
      have hopen : s₁.token ≠ .openParen := by
        obtain _ | ⟨⟨⟩⟩ := hfilter
        · rw [Lexemes.leads_nil_iff.1 hleads]
          exact hend.2
        all_goals simp [hleads.token_eq]
      rw [hname.token_eq]
      dsimp only
      rw [bind_ok hname.advance_eq, if_neg hopen,
        bind_ok (reads_optionalFilter.complete hfilter hleads hend.1)]
      rfl
    | group hphrase =>
      obtain ⟨s₁, hopen, hleads⟩ := Lexemes.leads_cons_iff.1 hleads
      obtain ⟨s₂, hleads, hclose⟩ := Lexemes.leads_append_iff.1 hleads
      rw [hopen.token_eq]
      dsimp only
      rw [bind_ok hopen.advance_eq, bind_ok (hexpression.complete hphrase hleads
        (endsFormula_of_mem (by simp [hclose.token_eq])))]
      exact (closed_eq_ok_iff (by simp)).2 ⟨hclose, rfl⟩

/-! ## Suffixes -/

omit hexpression hstart in
theorem memberName_eq_ok_iff {name : String} :
    memberName s = .ok (name, rest) ↔ ∃ t, Name t name ∧ s.Leads [t] rest := by
  unfold memberName
  constructor
  · intro h
    split at h
    · rename_i name htoken
      obtain ⟨hleads, rfl⟩ := leads_of_taken htoken (by simp) h
      exact ⟨_, .word name, hleads⟩
    · rename_i name htoken
      obtain ⟨hleads, rfl⟩ := leads_of_taken htoken (by simp) h
      exact ⟨_, .field name, hleads⟩
    · simp [unexpected, fail] at h
  · rintro ⟨t, ⟨⟩, hleads⟩
    all_goals
      simp only [hleads.token_eq]
      exact taken_of_leads _ hleads

/-- What follows a dot and a name makes a longer phrase of what stands in front of the dot. -/
theorem member_sound {start : Lexemes} {ts : List Token} {t : Token} {receiver e : Expr}
    {name : String} (hreceiver : Postfix R ts receiver) (hname : Name t name)
    (hleads : start.Leads (ts ++ [.dot, t]) s)
    (h : member expression receiver name s = .ok (e, rest)) :
    ∃ us, start.Leads us rest ∧ Postfix R us e := by
  unfold member at h
  split at h
  · split at h
    · rename_i mode hmode
      obtain ⟨⟨⟨property, separator⟩, next⟩, hargs, h⟩ := bind_eq_ok_iff.1 h
      obtain ⟨rfl, rfl⟩ := Prod.mk.inj (Except.ok.inj h)
      obtain ⟨us, hleads', hargs⟩ := reads_aggregationArguments.sound hargs
      refine ⟨ts ++ .dot :: t :: us, ?_, .aggregation hreceiver hname ?_ hargs⟩
      · simpa using hleads.trans hleads'
      · exact aggregationOfName?_eq_some_iff.1 hmode
    · rename_i hmode
      obtain ⟨⟨args, next⟩, hargs, h⟩ := bind_eq_ok_iff.1 h
      obtain ⟨rfl, rfl⟩ := Prod.mk.inj (Except.ok.inj h)
      obtain ⟨us, hleads', hargs⟩ := (reads_callArguments hexpression hstart).sound hargs
      refine ⟨ts ++ .dot :: t :: us, ?_, .method hreceiver hname ?_ hargs⟩
      · simpa using hleads.trans hleads'
      · exact aggregationOfName?_eq_none_iff.1 hmode
  · obtain ⟨rfl, rfl⟩ := Prod.mk.inj (Except.ok.inj h)
    exact ⟨_, hleads, .property hreceiver hname⟩

theorem members_sound (fuel : Nat) {start : Lexemes} {ts : List Token} {receiver e : Expr}
    (hreceiver : Postfix R ts receiver) (hleads : start.Leads ts s)
    (h : members expression fuel receiver s = .ok (e, rest)) :
    ∃ us, start.Leads us rest ∧ Postfix R us e := by
  induction fuel generalizing s ts receiver with
  | zero =>
    obtain ⟨rfl, rfl⟩ := Prod.mk.inj (Except.ok.inj h)
    exact ⟨ts, hleads, hreceiver⟩
  | succ fuel ih =>
    unfold members at h
    split at h
    · rename_i hdot
      obtain ⟨s₁, hadvance, h⟩ := bind_eq_ok_iff.1 h
      obtain ⟨⟨name, s₂⟩, hname, h⟩ := bind_eq_ok_iff.1 h
      obtain ⟨⟨e', s₃⟩, hmember, h⟩ := bind_eq_ok_iff.1 h
      obtain ⟨t, hname, hleadsName⟩ := memberName_eq_ok_iff.1 hname
      have hskip := Lexemes.leads_of_advance hdot (by simp) hadvance
      obtain ⟨us, hleads', hphrase⟩ := member_sound hexpression hstart hreceiver hname
        (hleads.trans (hskip.trans hleadsName)) hmember
      exact ih hphrase hleads' h
    · obtain ⟨rfl, rfl⟩ := Prod.mk.inj (Except.ok.inj h)
      exact ⟨ts, hleads, hreceiver⟩

omit hexpression hstart in
/-- On a suffix the loop goes on from the phrase that the suffix completes. -/
theorem members_of_member {fuel : Nat} {receiver e : Expr} {t : Token} {name : String}
    {s₁ s₂ : Lexemes} (hdot : s.Leads [.dot] s₁) (hname : Name t name) (ht : s₁.Leads [t] s₂)
    (hmember : member expression receiver name s₂ = .ok (e, rest)) :
    members expression (fuel + 1) receiver s = members expression fuel e rest := by
  rw [members, if_pos hdot.token_eq, bind_ok hdot.advance_eq,
    bind_ok (memberName_eq_ok_iff.2 ⟨t, hname, ht⟩)]
  exact bind_ok hmember

omit hexpression hstart in
/-- The loop is at a phrase with enough rounds for what follows. -/
theorem postfixed_reaches_member {fuel : Nat} {receiver e : Expr} {t : Token} {name : String}
    {start s₁ s₂ : Lexemes} {us : List Token} (hfuel : s.length < fuel)
    (hreach : postfixed expression start = members expression fuel receiver s)
    (hdot : s.Leads [.dot] s₁) (hname : Name t name) (ht : s₁.Leads [t] s₂)
    (hrest : s₂.Leads us rest) (hmember : member expression receiver name s₂ = .ok (e, rest)) :
    ∃ fuel, rest.length < fuel ∧ postfixed expression start = members expression fuel e rest := by
  have h₁ := hdot.length_lt
  have h₂ := ht.length_lt
  have h₃ := hrest.length_le
  obtain ⟨k, rfl⟩ := Nat.exists_eq_add_of_lt hfuel
  refine ⟨s.length + k, by omega, ?_⟩
  rw [hreach, members_of_member hdot hname ht hmember]

theorem postfixed_reaches {ts : List Token} {e : Expr} (hphrase : Postfix R ts e)
    (hleads : s.Leads ts rest) (hend : EndsPrimary rest.token) :
    ∃ fuel, rest.length < fuel ∧ postfixed expression s = members expression fuel e rest := by
  induction hphrase generalizing rest with
  | primary hprimary =>
    refine ⟨rest.length + 1, Nat.lt_succ_self _, ?_⟩
    exact bind_ok ((reads_primary hexpression hstart).complete hprimary hleads hend)
  | property hreceiver hname ih =>
    obtain ⟨s₁, hleads, hsuffix⟩ := Lexemes.leads_append_iff.1 hleads
    obtain ⟨s₂, hdot, ht⟩ := Lexemes.leads_cons_iff.1 hsuffix
    obtain ⟨fuel, hfuel, hreach⟩ := ih hleads (by simp [hdot.token_eq, EndsPrimary])
    refine postfixed_reaches_member hfuel hreach hdot hname ht (.refl rest) ?_
    rw [member, if_neg hend.2]
    rfl
  | aggregation hreceiver hname hmode hargs ih =>
    obtain ⟨s₁, hleads, hsuffix⟩ := Lexemes.leads_append_iff.1 hleads
    obtain ⟨s₂, hdot, hsuffix⟩ := Lexemes.leads_cons_iff.1 hsuffix
    obtain ⟨s₃, ht, hsuffix⟩ := Lexemes.leads_cons_iff.1 hsuffix
    obtain ⟨fuel, hfuel, hreach⟩ := ih hleads (by simp [hdot.token_eq, EndsPrimary])
    refine postfixed_reaches_member hfuel hreach hdot hname ht hsuffix ?_
    have hopen : s₃.token = .openParen := by cases hargs; exact hsuffix.token_eq
    rw [member, if_pos hopen, aggregationOfName?_eq_some_iff.2 hmode]
    exact bind_ok (reads_aggregationArguments.complete hargs hsuffix trivial)
  | method hreceiver hname hmode hargs ih =>
    obtain ⟨s₁, hleads, hsuffix⟩ := Lexemes.leads_append_iff.1 hleads
    obtain ⟨s₂, hdot, hsuffix⟩ := Lexemes.leads_cons_iff.1 hsuffix
    obtain ⟨s₃, ht, hsuffix⟩ := Lexemes.leads_cons_iff.1 hsuffix
    obtain ⟨fuel, hfuel, hreach⟩ := ih hleads (by simp [hdot.token_eq, EndsPrimary])
    refine postfixed_reaches_member hfuel hreach hdot hname ht hsuffix ?_
    have hopen : s₃.token = .openParen := by cases hargs <;> exact hsuffix.token_eq
    rw [member, if_pos hopen, aggregationOfName?_eq_none_iff.2 hmode]
    exact bind_ok ((reads_callArguments hexpression hstart).complete hargs hsuffix trivial)

theorem reads_postfixed : Reads (postfixed expression) (Postfix R) EndsPostfix where
  sound := by
    intro s e rest h
    obtain ⟨⟨first, s₁⟩, hfirst, h⟩ := bind_eq_ok_iff.1 h
    obtain ⟨ts, hleads, hphrase⟩ := (reads_primary hexpression hstart).sound hfirst
    exact members_sound hexpression hstart _ (.primary hphrase) hleads h
  complete := by
    intro s ts e rest hphrase hleads hend
    obtain ⟨fuel, hfuel, hreach⟩ := postfixed_reaches hexpression hstart hphrase hleads hend.1
    obtain ⟨k, rfl⟩ := Nat.exists_eq_add_of_lt hfuel
    rw [hreach, members, if_neg hend.2]
    rfl

theorem reads_power {operand : Parser Expr} {O : Rule Expr}
    (hoperand : Reads operand O EndsOperand) :
    Reads (power expression operand) (Power R O) EndsOperand where
  sound := by
    intro s e rest h
    obtain ⟨⟨base, s₁⟩, hbase, h⟩ := bind_eq_ok_iff.1 h
    obtain ⟨ts, hleads, hbase⟩ := (reads_postfixed hexpression hstart).sound hbase
    dsimp only at h
    split at h
    · rename_i hcaret
      obtain ⟨s₂, hadvance, h⟩ := bind_eq_ok_iff.1 h
      obtain ⟨⟨exponent, s₃⟩, hexponent, h⟩ := bind_eq_ok_iff.1 h
      obtain ⟨rfl, rfl⟩ := Prod.mk.inj (Except.ok.inj h)
      obtain ⟨us, hleads', hexponent⟩ := hoperand.sound hexponent
      have hskip := Lexemes.leads_of_advance hcaret (by simp) hadvance
      exact ⟨_, hleads.trans (hskip.trans hleads'), .power hbase hexponent⟩
    · obtain ⟨rfl, rfl⟩ := Prod.mk.inj (Except.ok.inj h)
      exact ⟨ts, hleads, .base hbase⟩
  complete := by
    intro s ts e rest hphrase hleads hend
    unfold power
    cases hphrase with
    | base hbase =>
      rw [bind_ok ((reads_postfixed hexpression hstart).complete hbase hleads hend.1)]
      dsimp only
      rw [if_neg hend.2]
      rfl
    | power hbase hexponent =>
      obtain ⟨s₁, hleads, hrest⟩ := Lexemes.leads_append_iff.1 hleads
      obtain ⟨s₂, hcaret, hrest⟩ := Lexemes.leads_cons_iff.1 hrest
      rw [bind_ok ((reads_postfixed hexpression hstart).complete hbase hleads
        (by simp [hcaret.token_eq, EndsPostfix, EndsPrimary]))]
      dsimp only
      rw [if_pos hcaret.token_eq, bind_ok hcaret.advance_eq,
        bind_ok (hoperand.complete hexponent hrest hend)]
      rfl

end Suffixes

/-! ## Binary operators -/

section Chains

variable {op? : Token → Option BinaryOp} {op : Token → BinaryOp → Prop} {operand : Parser Expr}
  {O : Rule Expr} {Ends : Token → Prop}

theorem chain_sound (hop : ∀ t o, op? t = some o ↔ op t o) (hnot : ∀ o, ¬op .endOfInput o)
    (hoperand : Reads operand O Ends) (fuel : Nat) {start : Lexemes} {ts : List Token}
    {left e : Expr} (hleft : LeftAssociative op O ts left) (hleads : start.Leads ts s)
    (h : chain op? operand fuel left s = .ok (e, rest)) :
    ∃ us, start.Leads us rest ∧ LeftAssociative op O us e := by
  induction fuel generalizing s ts left with
  | zero =>
    obtain ⟨rfl, rfl⟩ := Prod.mk.inj (Except.ok.inj h)
    exact ⟨ts, hleads, hleft⟩
  | succ fuel ih =>
    unfold chain at h
    split at h
    · rename_i o ho
      obtain ⟨s₁, hadvance, h⟩ := bind_eq_ok_iff.1 h
      obtain ⟨⟨right, s₂⟩, hright, h⟩ := bind_eq_ok_iff.1 h
      obtain ⟨us, hleads', hright⟩ := hoperand.sound hright
      rw [hop] at ho
      have hskip := Lexemes.leads_of_advance rfl (fun hend => hnot o (hend ▸ ho)) hadvance
      exact ih (.snoc hleft ho hright) (hleads.trans (hskip.trans hleads')) h
    · obtain ⟨rfl, rfl⟩ := Prod.mk.inj (Except.ok.inj h)
      exact ⟨ts, hleads, hleft⟩

/-- After a phrase the loop is left with enough rounds for what follows. -/
theorem leftAssociative_reaches (hop : ∀ t o, op? t = some o ↔ op t o)
    (hends : ∀ t o, op t o → Ends t) (hoperand : Reads operand O Ends) {ts : List Token} {e : Expr}
    (hphrase : LeftAssociative op O ts e) (hleads : s.Leads ts rest) (hend : Ends rest.token) :
    ∃ fuel, rest.length < fuel ∧
      leftAssociative op? operand s = chain op? operand fuel e rest := by
  -- a derivation grows at its right end, and so does the phrase that the loop holds
  induction hphrase generalizing rest with
  | single h =>
    refine ⟨rest.length + 1, Nat.lt_succ_self _, ?_⟩
    exact bind_ok (hoperand.complete h hleads hend)
  | snoc hleft ho hright ih =>
    obtain ⟨s₁, hleads, hrest⟩ := Lexemes.leads_append_iff.1 hleads
    obtain ⟨s₂, hsign, hrest⟩ := Lexemes.leads_cons_iff.1 hrest
    have hsignEnds : Ends s₁.token := hends _ _ (hsign.token_eq ▸ ho)
    obtain ⟨fuel, hfuel, hreach⟩ := ih hleads hsignEnds
    have h₁ := hsign.length_lt
    have h₂ := hrest.length_le
    obtain ⟨k, rfl⟩ := Nat.exists_eq_add_of_lt hfuel
    refine ⟨s₁.length + k, by omega, ?_⟩
    rw [hreach, chain, hsign.token_eq, (hop _ _).2 ho]
    dsimp only
    rw [bind_ok hsign.advance_eq, bind_ok (hoperand.complete hright hrest hend)]

theorem reads_leftAssociative (hop : ∀ t o, op? t = some o ↔ op t o)
    (hnot : ∀ o, ¬op .endOfInput o) (hends : ∀ t o, op t o → Ends t)
    (hoperand : Reads operand O Ends) :
    Reads (leftAssociative op? operand) (LeftAssociative op O)
      fun t => Ends t ∧ ∀ o, ¬op t o where
  sound := by
    intro s e rest h
    obtain ⟨⟨left, s₁⟩, hleft, h⟩ := bind_eq_ok_iff.1 h
    obtain ⟨ts, hleads, hleft⟩ := hoperand.sound hleft
    exact chain_sound hop hnot hoperand _ (.single hleft) hleads h
  complete := by
    intro s ts e rest hphrase hleads hend
    obtain ⟨fuel, hfuel, hreach⟩ := leftAssociative_reaches hop hends hoperand hphrase hleads hend.1
    obtain ⟨k, rfl⟩ := Nat.exists_eq_add_of_lt hfuel
    have hnone : op? rest.token = none := by
      rw [Option.eq_none_iff_forall_ne_some]
      exact fun o ho => hend.2 o ((hop _ _).1 ho)
    rw [hreach, chain, hnone]
    rfl

end Chains

theorem reads_sum {operand : Parser Expr} {O : Rule Expr} (hoperand : Reads operand O EndsOperand) :
    Reads (leftAssociative additiveOp? (leftAssociative multiplicativeOp? operand))
      (LeftAssociative Additive (LeftAssociative Multiplicative O)) EndsSum := by
  have hproduct : Reads (leftAssociative multiplicativeOp? operand)
      (LeftAssociative Multiplicative O) EndsProduct := by
    refine reads_leftAssociative (fun _ _ => multiplicativeOp?_eq_some_iff) ?_ ?_ hoperand
    · rintro o ⟨⟩
    · rintro t o ⟨⟩ <;> simp [EndsOperand, EndsPostfix, EndsPrimary]
  refine reads_leftAssociative (fun _ _ => additiveOp?_eq_some_iff) ?_ ?_ hproduct
  · rintro o ⟨⟩
  · rintro t o ⟨⟩
    all_goals
      refine ⟨by simp [EndsOperand, EndsPostfix, EndsPrimary], ?_⟩
      rintro o ⟨⟩

theorem reads_comparison {operand : Parser Expr} {O : Rule Expr}
    (hoperand : Reads operand O EndsOperand) :
    Reads (comparison operand) (Comparison O) EndsFormula where
  sound := by
    intro s e rest h
    obtain ⟨⟨left, s₁⟩, hleft, h⟩ := bind_eq_ok_iff.1 h
    obtain ⟨ts, hleads, hleft⟩ := (reads_sum hoperand).sound hleft
    dsimp only at h
    split at h
    · rename_i o ho
      obtain ⟨s₂, hadvance, h⟩ := bind_eq_ok_iff.1 h
      obtain ⟨⟨right, s₃⟩, hright, h⟩ := bind_eq_ok_iff.1 h
      obtain ⟨rfl, rfl⟩ := Prod.mk.inj (Except.ok.inj h)
      obtain ⟨us, hleads', hright⟩ := (reads_sum hoperand).sound hright
      rw [comparisonOp?_eq_some_iff] at ho
      have hsign : s₁.token ≠ .endOfInput := by
        intro hend
        rw [hend] at ho
        cases ho
      have hskip := Lexemes.leads_of_advance rfl hsign hadvance
      exact ⟨_, hleads.trans (hskip.trans hleads'), .comparison hleft ho hright⟩
    · obtain ⟨rfl, rfl⟩ := Prod.mk.inj (Except.ok.inj h)
      exact ⟨ts, hleads, .sum hleft⟩
  complete := by
    intro s ts e rest hphrase hleads hend
    unfold comparison
    cases hphrase with
    | sum h =>
      have hnone : comparisonOp? rest.token = none := by
        rw [Option.eq_none_iff_forall_ne_some]
        exact fun o ho => hend.2 o (comparisonOp?_eq_some_iff.1 ho)
      dsimp only
      rw [bind_ok ((reads_sum hoperand).complete h hleads hend.1)]
      dsimp only
      rw [hnone]
      rfl
    | comparison hleft ho hright =>
      obtain ⟨s₁, hleads, hrest⟩ := Lexemes.leads_append_iff.1 hleads
      obtain ⟨s₂, hsign, hrest⟩ := Lexemes.leads_cons_iff.1 hrest
      have hends : EndsSum s₁.token := by
        rw [hsign.token_eq]
        cases ho
        all_goals
          refine ⟨⟨by simp [EndsOperand, EndsPostfix, EndsPrimary], ?_⟩, ?_⟩
          all_goals rintro o ⟨⟩
      dsimp only
      rw [bind_ok ((reads_sum hoperand).complete hleft hleads hends)]
      dsimp only
      rw [hsign.token_eq, comparisonOp?_eq_some_iff.2 ho]
      dsimp only
      rw [bind_ok hsign.advance_eq, bind_ok ((reads_sum hoperand).complete hright hrest hend.1)]
      rfl

/-! ## Nesting -/

theorem reads_operand (nesting : Nat) : Reads (operand nesting) (Operand nesting) EndsOperand := by
  induction nesting with
  | zero =>
    exact
      { sound := fun h => by simp [operand, fail] at h
        complete := fun h => h.elim }
  | succ nesting ih =>
    have hpower : Reads (power (comparison (operand nesting)) (operand nesting))
        (Power (Comparison (Operand nesting)) (Operand nesting)) EndsOperand :=
      reads_power (reads_comparison ih) (startsWith_operand nesting).comparison ih
    refine
      { sound := fun {s e rest} h => ?_
        complete := fun {s ts e rest} hphrase hleads hend => ?_ }
    · rw [operand] at h
      split at h
      · rename_i hminus
        obtain ⟨s₁, hadvance, h⟩ := bind_eq_ok_iff.1 h
        obtain ⟨⟨e', s₂⟩, hoperand, h⟩ := bind_eq_ok_iff.1 h
        obtain ⟨rfl, rfl⟩ := Prod.mk.inj (Except.ok.inj h)
        obtain ⟨ts, hleads, hphrase⟩ := ih.sound hoperand
        have hsign := Lexemes.leads_of_advance hminus (by simp) hadvance
        exact ⟨_, hsign.trans hleads, .negate hphrase⟩
      · obtain ⟨ts, hleads, hphrase⟩ := hpower.sound h
        exact ⟨ts, hleads, .power hphrase⟩
    · rw [operand]
      obtain hphrase | hphrase := hphrase
      · obtain ⟨s₁, hsign, hleads⟩ := Lexemes.leads_cons_iff.1 hleads
        rw [if_pos hsign.token_eq, bind_ok hsign.advance_eq,
          bind_ok (ih.complete hphrase hleads hend)]
        rfl
      · rw [if_neg (startsWith_power.token hphrase hleads).1]
        exact hpower.complete hphrase hleads hend

/-- The grammar is unambiguous: a sequence of tokens is a formula for one expression only. -/
theorem formula_unique {nesting : Nat} {ts : List Token} {e e' : Expr}
    (h : Formula nesting ts e) (h' : Formula nesting ts e') : e = e' := by
  have hreads := reads_comparison (reads_operand nesting)
  have hend : EndsFormula (Lexemes.nil 0).token := endsFormula_of_mem (by simp [Lexemes.token])
  have hparse := hreads.complete h (Lexemes.leads_ofTokens ts) hend
  have hparse' := hreads.complete h' (Lexemes.leads_ofTokens ts) hend
  exact congrArg Prod.fst (Except.ok.inj (hparse.symm.trans hparse'))

/-- A formula is read exactly when all tokens are a formula of the grammar, and the end of the text
comes after them. -/
theorem formula_eq_ok_iff (htokens : .endOfInput ∉ s.tokens) {e : Expr} :
    (∃ rest, formula s = .ok (e, rest)) ↔
      s.Complete ∧ Formula maxNesting s.tokens e := by
  have hreads := reads_comparison (reads_operand maxNesting)
  constructor
  · rintro ⟨rest, h⟩
    obtain ⟨s', hcheck, h⟩ := bind_eq_ok_iff.1 h
    obtain ⟨hsound, rfl⟩ := Lexemes.check_eq_ok_iff.1 hcheck
    obtain ⟨⟨e', last⟩, hcomparison, h⟩ := bind_eq_ok_iff.1 h
    obtain ⟨ts, hleads, hphrase⟩ := hreads.sound hcomparison
    dsimp only at h
    split at h
    · rename_i hend
      obtain ⟨rfl, rfl⟩ := Prod.mk.inj (Except.ok.inj h)
      obtain ⟨hcomplete, rfl⟩ := hleads.to_end hsound hend htokens
      exact ⟨hcomplete, hphrase⟩
    · simp [unexpected, fail] at h
  · rintro ⟨hcomplete, hphrase⟩
    obtain ⟨position, hleads⟩ := hcomplete.leads
    refine ⟨.nil position, ?_⟩
    have hsound : ¬s.Faulty := by
      intro hfault
      cases s <;> simp_all [Lexemes.Complete, Lexemes.Faulty]
    unfold formula
    rw [bind_ok (Lexemes.check_eq_ok_iff.2 ⟨hsound, rfl⟩),
      bind_ok (hreads.complete hphrase hleads (endsFormula_of_mem (by simp [Lexemes.token])))]
    rfl

end Parser

namespace Expr

open Grammar

/-- A text is parsed to an expression exactly when it lexes completely and its tokens are a formula
that stands for the expression, with operands nested no deeper than the parser allows. -/
theorem parse_eq_ok_iff (text : String) (e : Expr) :
    parse text = .ok e ↔ (Lexemes.ofText text).Complete ∧
      Formula Parser.maxNesting (Lexemes.ofText text).tokens e := by
  have htokens : Token.endOfInput ∉ (Lexemes.ofText text).tokens :=
    Lexer.endOfInput_notMem_lexemes _ _ _
  rw [← Parser.formula_eq_ok_iff htokens, parse]
  cases Parser.formula (Lexemes.ofText text) with
  | error fault => simp [Except.map]
  | ok result =>
    obtain ⟨e', rest⟩ := result
    simp [Except.map]

/-- A number in groups, one inside the other. -/
def grouped (n : Nat) : String :=
  String.ofList (List.replicate n '(' ++ '1' :: List.replicate n ')')

def groupedTokens (n : Nat) : List Token :=
  List.replicate n .openParen ++ .int 1 :: List.replicate n .closeParen

theorem anyFormula_groupedTokens (n : Nat) :
    AnyFormula (groupedTokens n) (.literal (.int 1) .number) := by
  refine .sum (.single (.single ?_))
  induction n with
  | zero => exact .unary (.power (.base (.primary (.literal (.int 1)))))
  | succ n ih =>
    have hgroup := Primary.group (Comparison.sum (.single (.single ih)))
    rw [groupedTokens, List.append_assoc, List.cons_append, ← List.replicate_succ',
      ← List.cons_append, ← List.replicate_succ] at hgroup
    exact .unary (.power (.base (.primary hgroup)))

/-- Without a bound the grammar has more formulas than are parsed: a number in too many groups. -/
theorem parse_refuses_deep_groups :
    (Lexemes.ofText (grouped 64)).Complete ∧
      AnyFormula (Lexemes.ofText (grouped 64)).tokens (.literal (.int 1) .number) ∧
      ∀ e, parse (grouped 64) ≠ .ok e := by
  have htokens : (Lexemes.ofText (grouped 64)).tokens = groupedTokens 64 := by decide +kernel
  have hrefused : (parse (grouped 64)).isOk = false := by decide +kernel
  refine ⟨by decide +kernel, htokens ▸ anyFormula_groupedTokens 64, fun e he => ?_⟩
  rw [he] at hrefused
  cases hrefused

end Expr

end FormulaPipeline
