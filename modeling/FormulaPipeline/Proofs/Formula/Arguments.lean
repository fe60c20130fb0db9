import FormulaPipeline.Proofs.Formula.Reading

/-!
# Reading arguments

The lists between parentheses: the expressions of a call, and the property and the separator of an
aggregation.
-/

namespace FormulaPipeline

namespace Grammar

/-- Every phrase has a first token, which satisfies `P`. -/
def StartsWith {α : Type} (R : Rule α) (P : Token → Prop) : Prop :=
  ∀ ts a, R ts a → ∃ t us, ts = t :: us ∧ P t

theorem StartsWith.token {α : Type} {R : Rule α} {P : Token → Prop} (hstart : StartsWith R P)
    {ts : List Token} {a : α} (h : R ts a) {s rest : Lexemes} (hleads : s.Leads ts rest) :
    P s.token := by
  obtain ⟨t, us, rfl, ht⟩ := hstart ts a h
  rw [hleads.token_eq]
  exact ht

theorem StartsWith.expressions {R : Rule Expr} {P : Token → Prop} (hstart : StartsWith R P) :
    StartsWith (Expressions R) P := by
  rintro _ _ (h | ⟨h, -⟩)
  · exact hstart _ _ h
  · obtain ⟨t, us, rfl, ht⟩ := hstart _ _ h
    exact ⟨t, _, List.cons_append, ht⟩

/-! ## What may follow a phrase -/

def EndsPrimary (t : Token) : Prop := t ≠ .openBracket ∧ t ≠ .openParen

def EndsPostfix (t : Token) : Prop := EndsPrimary t ∧ t ≠ .dot

def EndsOperand (t : Token) : Prop := EndsPostfix t ∧ t ≠ .caret

def EndsProduct (t : Token) : Prop := EndsOperand t ∧ ∀ o, ¬Multiplicative t o

def EndsSum (t : Token) : Prop := EndsProduct t ∧ ∀ o, ¬Additive t o

def EndsFormula (t : Token) : Prop := EndsSum t ∧ ∀ o, ¬Comparative t o

theorem endsFormula_of_mem {t : Token} (ht : t ∈ [Token.comma, .closeParen, .endOfInput]) :
    EndsFormula t := by
  simp only [List.mem_cons, List.not_mem_nil, or_false] at ht
  rcases ht with rfl | rfl | rfl
  all_goals
    refine ⟨⟨⟨by simp [EndsOperand, EndsPostfix, EndsPrimary], ?_⟩, ?_⟩, ?_⟩
    all_goals rintro o ⟨⟩

/-! ## The items of an aggregation, one after the other -/

/-- What is known of the property and the separator, before and after one item. -/
inductive Item : Option String × Option String → Token → Option String × Option String → Prop
  | property {t : Token} {name : String} {separator : Option String} (h : Name t name) :
      Item (none, separator) t (some name, separator)
  | separator {property : Option String} (s : String) :
      Item (property, none) (.text s) (property, some s)

inductive Items : Option String × Option String → Rule (Option String × Option String)
  | none (known : Option String × Option String) : Items known [] known
  | last {known next : Option String × Option String} {t : Token} (h : Item known t next) :
      Items known [t] next
  | more {known next result : Option String × Option String} {t : Token} {ts : List Token}
      (h : Item known t next) (hrest : Items next ts result) :
      Items known (t :: .comma :: ts) result

theorem Item.not_both {property separator : String} {t : Token}
    {next : Option String × Option String} : ¬Item (some property, some separator) t next := by
  rintro ⟨⟩

theorem Item.ne_endOfInput {known next : Option String × Option String} {t : Token}
    (h : Item known t next) : t ≠ .endOfInput := by
  obtain ⟨⟨⟩⟩ | ⟨⟩ := h <;> simp

theorem Item.ne_closeParen {known next : Option String × Option String} {t : Token}
    (h : Item known t next) : t ≠ .closeParen := by
  obtain ⟨⟨⟩⟩ | ⟨⟩ := h <;> simp

/-- After a property and a separator there is no room for more. -/
theorem Items.trailing {property separator : String} {ts : List Token}
    {result : Option String × Option String} (h : Items (some property, some separator) ts result) :
    ts = [] ∧ result = (some property, some separator) := by
  cases h with
  | none => exact ⟨rfl, rfl⟩
  | last h => exact (Item.not_both h).elim
  | more h => exact (Item.not_both h).elim

theorem Items.nil_of_closeParen {known result : Option String × Option String} {ts : List Token}
    (h : Items known ts result) {s rest : Lexemes} (hleads : s.Leads (ts ++ [.closeParen]) rest)
    (hclose : s.token = .closeParen) : ts = [] ∧ result = known := by
  cases h with
  | none => exact ⟨rfl, rfl⟩
  | last h => exact (h.ne_closeParen (hleads.token_eq.symm.trans hclose)).elim
  | more h => exact (h.ne_closeParen (hleads.token_eq.symm.trans hclose)).elim

theorem items_iff {ts : List Token} {result : Option String × Option String} :
    Items (none, none) ts result ↔ AggregationItems ts result := by
  constructor
  · rintro (_ | ⟨⟨hname⟩ | ⟨s⟩⟩ | ⟨⟨hname⟩ | ⟨s⟩, hrest⟩)
    · exact .none
    · exact .property hname .none
    · exact .separator s .none
    · obtain _ | ⟨⟨⟩⟩ | ⟨⟨⟩, hrest⟩ := hrest
      · exact .property hname .comma
      · exact .propertyFirst _ hname .none
      · obtain ⟨rfl, rfl⟩ := hrest.trailing
        exact .propertyFirst _ hname .comma
    · obtain _ | ⟨⟨hname⟩⟩ | ⟨⟨hname⟩, hrest⟩ := hrest
      · exact .separator s .comma
      · exact .separatorFirst s hname .none
      · obtain ⟨rfl, rfl⟩ := hrest.trailing
        exact .separatorFirst s hname .comma
  · rintro (_ | ⟨hname, ⟨⟩⟩ | ⟨s, ⟨⟩⟩ | ⟨s, hname, ⟨⟩⟩ | ⟨s, hname, ⟨⟩⟩)
    · exact .none _
    · exact .last (.property hname)
    · exact .more (.property hname) (.none _)
    · exact .last (.separator s)
    · exact .more (.separator s) (.none _)
    · exact .more (.property hname) (.last (.separator s))
    · exact .more (.property hname) (.more (.separator s) (.none _))
    · exact .more (.separator s) (.last (.property hname))
    · exact .more (.separator s) (.more (.property hname) (.none _))

end Grammar

namespace Parser

open Grammar

variable {s rest : Lexemes}

/-! ## Arguments of calls -/

section Calls

variable {expression : Parser Expr} {R : Rule Expr} (hexpression : Reads expression R EndsFormula)
include hexpression

theorem arguments_sound (fuel : Nat) {es : List Expr}
    (h : arguments expression fuel s = .ok (es, rest)) :
    ∃ ts, s.Leads ts rest ∧ Expressions R ts es := by
  induction fuel generalizing s es with
  | zero => simp [arguments, fail] at h
  | succ fuel ih =>
    obtain ⟨⟨first, s₁⟩, hfirst, h⟩ := bind_eq_ok_iff.1 h
    obtain ⟨ts, hleads, hphrase⟩ := hexpression.sound hfirst
    dsimp only at h
    split at h
    · rename_i hcomma
      obtain ⟨s₂, hadvance, h⟩ := bind_eq_ok_iff.1 h
      obtain ⟨⟨others, s₃⟩, hothers, h⟩ := bind_eq_ok_iff.1 h
      obtain ⟨rfl, rfl⟩ := Prod.mk.inj (Except.ok.inj h)
      obtain ⟨us, hleads', hphrases⟩ := ih hothers
      have hskip := Lexemes.leads_of_advance hcomma (by simp) hadvance
      exact ⟨_, hleads.trans (hskip.trans hleads'), .cons hphrase hphrases⟩
    · obtain ⟨rfl, rfl⟩ := Prod.mk.inj (Except.ok.inj h)
      exact ⟨ts, hleads, .single hphrase⟩

theorem arguments_complete {ts : List Token} {es : List Expr} (hphrases : Expressions R ts es)
    (hleads : s.Leads ts rest) (hend : EndsFormula rest.token) (hcomma : rest.token ≠ .comma)
    {fuel : Nat} (hfuel : s.length < fuel) : arguments expression fuel s = .ok (es, rest) := by
  induction hphrases generalizing s fuel with
  | single hphrase =>
    obtain ⟨k, rfl⟩ := Nat.exists_eq_add_of_lt hfuel
    rw [arguments, bind_ok (hexpression.complete hphrase hleads hend)]
    dsimp only
    rw [if_neg hcomma]
    rfl
  | cons hphrase hphrases ih =>
    obtain ⟨k, rfl⟩ := Nat.exists_eq_add_of_lt hfuel
    obtain ⟨s₁, hfirst, hleads⟩ := Lexemes.leads_append_iff.1 hleads
    obtain ⟨s₂, hskip, hleads⟩ := Lexemes.leads_cons_iff.1 hleads
    have h₁ := hfirst.length_le
    have h₂ := hskip.length_lt
    have hlength : s₂.length < s.length + k := by omega
    rw [arguments, bind_ok (hexpression.complete hphrase hfirst
      (endsFormula_of_mem (by simp [hskip.token_eq])))]
    dsimp only
    rw [if_pos hskip.token_eq, bind_ok hskip.advance_eq, bind_ok (ih hleads hlength)]
    rfl

theorem reads_callArguments (hstart : StartsWith R (· ≠ .closeParen)) :
    Reads (callArguments expression) (Arguments R) fun _ => True where
  sound := by
    intro s es rest h
    obtain ⟨s₁, hopen, h⟩ := bind_eq_ok_iff.1 h
    rw [expect_eq_ok_iff (by simp)] at hopen
    split at h
    · rename_i hclose
      obtain ⟨hleads, rfl⟩ := leads_of_taken hclose (by simp) h
      exact ⟨_, hopen.trans hleads, .none⟩
    · obtain ⟨⟨args, s₂⟩, hargs, h⟩ := bind_eq_ok_iff.1 h
      obtain ⟨ts, hleads, hphrases⟩ := arguments_sound hexpression _ hargs
      obtain ⟨hclose, rfl⟩ := (closed_eq_ok_iff (by simp)).1 h
      exact ⟨_, hopen.trans (hleads.trans hclose), .some hphrases⟩
  complete := by
    rintro s ts es rest hphrases hleads -
    unfold callArguments
    obtain _ | hphrases := hphrases
    · obtain ⟨s₁, hopen, hclose⟩ := Lexemes.leads_cons_iff.1 hleads
      rw [bind_ok ((expect_eq_ok_iff (by simp)).2 hopen), if_pos hclose.token_eq]
      exact taken_of_leads _ hclose
    · obtain ⟨s₁, hopen, hleads⟩ := Lexemes.leads_cons_iff.1 hleads
      obtain ⟨s₂, hleads, hclose⟩ := Lexemes.leads_append_iff.1 hleads
      have hfirst : s₁.token ≠ .closeParen := hstart.expressions.token hphrases hleads
      have hend : s₂.token = .closeParen := hclose.token_eq
      rw [bind_ok ((expect_eq_ok_iff (by simp)).2 hopen), if_neg hfirst,
        bind_ok (arguments_complete hexpression hphrases hleads
          (endsFormula_of_mem (by simp [hend])) (by simp [hend]) (Nat.lt_succ_self _))]
      exact (closed_eq_ok_iff (by simp)).2 ⟨hclose, rfl⟩

end Calls

/-! ## Arguments of aggregations -/

/-- What comes after an item: a comma and more, or the end. -/
theorem aggregationLoop_item {fuel : Nat} {property separator : Option String}
    {next : Option String × Option String} (h : Item (property, separator) s.token next) :
    aggregationLoop (fuel + 1) property separator s = (do
      let s ← s.advance
      if s.token = .comma then aggregationLoop fuel next.1 next.2 (← s.advance)
      else if s.token = .closeParen then aggregationLoop fuel next.1 next.2 s
      else unexpected .aggregation s) := by
  generalize htoken : s.token = t at h
  rw [aggregationLoop, htoken]
  cases h with
  | property hname => cases hname <;> rfl
  | separator text => cases property <;> rfl

theorem item_of_aggregationLoop {fuel : Nat} {property separator : Option String}
    {result : Option String × Option String}
    (h : aggregationLoop fuel property separator s = .ok (result, rest))
    (hclose : s.token ≠ .closeParen) : ∃ next, Item (property, separator) s.token next := by
  cases fuel with
  | zero => simp [aggregationLoop, fail] at h
  | succ fuel =>
    rw [aggregationLoop, if_neg hclose] at h
    dsimp only at h
    split at h
    · rename_i htoken
      rw [htoken]
      exact ⟨_, .property (.word _)⟩
    · rename_i htoken
      rw [htoken]
      exact ⟨_, .property (.field _)⟩
    · rename_i htoken
      rw [htoken]
      exact ⟨_, .separator _⟩
    · simp [unexpected, fail, bind, Except.bind] at h

theorem aggregationLoop_sound (fuel : Nat) {property separator : Option String}
    {result : Option String × Option String}
    (h : aggregationLoop fuel property separator s = .ok (result, rest)) :
    ∃ ts, s.Leads (ts ++ [.closeParen]) rest ∧ Items (property, separator) ts result := by
  induction fuel generalizing s property separator with
  | zero => simp [aggregationLoop, fail] at h
  | succ fuel ih =>
    by_cases hclose : s.token = .closeParen
    · rw [aggregationLoop, if_pos hclose] at h
      obtain ⟨hleads, rfl⟩ := leads_of_taken hclose (by simp) h
      exact ⟨[], hleads, .none _⟩
    · obtain ⟨next, hitem⟩ := item_of_aggregationLoop h hclose
      rw [aggregationLoop_item hitem] at h
      obtain ⟨s₁, hadvance, h⟩ := bind_eq_ok_iff.1 h
      have htake := Lexemes.leads_of_advance rfl hitem.ne_endOfInput hadvance
      split at h
      · rename_i hcomma
        obtain ⟨s₂, hadvance', h⟩ := bind_eq_ok_iff.1 h
        have hskip := Lexemes.leads_of_advance hcomma (by simp) hadvance'
        obtain ⟨ts, hleads, hitems⟩ := ih h
        exact ⟨_ :: .comma :: ts, htake.trans (hskip.trans hleads), .more hitem hitems⟩
      · split at h
        · rename_i hend
          obtain ⟨ts, hleads, hitems⟩ := ih h
          obtain ⟨rfl, rfl⟩ := hitems.nil_of_closeParen hleads hend
          exact ⟨[_], htake.trans hleads, .last hitem⟩
        · simp [unexpected, fail] at h

theorem aggregationLoop_of_closed (property separator : Option String)
    (hleads : s.Leads [.closeParen] rest) {fuel : Nat} (hfuel : 0 < fuel) :
    aggregationLoop fuel property separator s = .ok ((property, separator), rest) := by
  obtain ⟨k, rfl⟩ := Nat.exists_eq_add_of_lt hfuel
  rw [aggregationLoop, if_pos hleads.token_eq]
  exact taken_of_leads _ hleads

theorem aggregationLoop_complete {known result : Option String × Option String} {ts : List Token}
    (hitems : Items known ts result) (hleads : s.Leads (ts ++ [.closeParen]) rest) {fuel : Nat}
    (hfuel : s.length < fuel) :
    aggregationLoop fuel known.1 known.2 s = .ok (result, rest) := by
  induction hitems generalizing s fuel with
  | none known => exact aggregationLoop_of_closed _ _ hleads (Nat.zero_lt_of_lt hfuel)
  | last hitem =>
    obtain ⟨k, rfl⟩ := Nat.exists_eq_add_of_lt hfuel
    obtain ⟨s₁, htake, hclose⟩ := Lexemes.leads_cons_iff.1 hleads
    have hend : s₁.token = .closeParen := hclose.token_eq
    have hlength := htake.length_lt
    rw [aggregationLoop_item (htake.token_eq ▸ hitem), bind_ok htake.advance_eq,
      if_neg (by simp [hend]), if_pos hend]
    exact aggregationLoop_of_closed _ _ hclose (by omega)
  | more hitem hitems ih =>
    obtain ⟨k, rfl⟩ := Nat.exists_eq_add_of_lt hfuel
    obtain ⟨s₁, htake, hleads⟩ := Lexemes.leads_cons_iff.1 hleads
    obtain ⟨s₂, hskip, hleads⟩ := Lexemes.leads_cons_iff.1 hleads
    have h₁ := htake.length_lt
    have h₂ := hskip.length_lt
    rw [aggregationLoop_item (htake.token_eq ▸ hitem), bind_ok htake.advance_eq,
      if_pos hskip.token_eq, bind_ok hskip.advance_eq]
    exact ih hleads (by omega)

theorem reads_aggregationArguments :
    Reads aggregationArguments AggregationArguments fun _ => True where
  sound := by
    intro s result rest h
    obtain ⟨s₁, hopen, h⟩ := bind_eq_ok_iff.1 h
    rw [expect_eq_ok_iff (by simp)] at hopen
    obtain ⟨ts, hleads, hitems⟩ := aggregationLoop_sound _ h
    exact ⟨_, hopen.trans hleads, .items (items_iff.1 hitems)⟩
  complete := by
    rintro s _ result rest ⟨hitems⟩ hleads -
    obtain ⟨s₁, hopen, hleads⟩ := Lexemes.leads_cons_iff.1 hleads
    unfold aggregationArguments
    rw [bind_ok ((expect_eq_ok_iff (by simp)).2 hopen)]
    exact aggregationLoop_complete (items_iff.2 hitems) hleads (Nat.lt_succ_self _)

end Parser

end FormulaPipeline
