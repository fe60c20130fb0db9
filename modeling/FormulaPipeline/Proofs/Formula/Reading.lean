import FormulaPipeline.Formula.Parser
import FormulaPipeline.Proofs.Formula.Grammar
import FormulaPipeline.Proofs.Formula.Lexemes

/-!
# Reading phrases

A parser reads a rule when it takes phrases of the rule only, and takes every phrase of the rule
after which no token stands that could continue it.
-/

namespace FormulaPipeline

theorem bind_eq_ok_iff {ε α β : Type} {x : Except ε α} {f : α → Except ε β} {b : β} :
    (x >>= f) = .ok b ↔ ∃ a, x = .ok a ∧ f a = .ok b := by
  cases x <;> simp [bind, Except.bind]

theorem bind_ok {ε α β : Type} {x : Except ε α} {f : α → Except ε β} {a : α} (h : x = .ok a) :
    (x >>= f) = f a := by
  rw [h]
  rfl

/-- What a parser takes and gives, in front of a token that ends the phrase. -/
structure Reads {α : Type} (p : Parser α) (R : Rule α) (Ends : Token → Prop) : Prop where
  sound : ∀ {s a rest}, p s = .ok (a, rest) → ∃ ts, s.Leads ts rest ∧ R ts a
  complete : ∀ {s ts a rest}, R ts a → s.Leads ts rest → Ends rest.token → p s = .ok (a, rest)

namespace Parser

open Grammar

variable {s rest : Lexemes}

/-! ## Single tokens -/

/-- Going on from a token with a result. -/
theorem leads_of_taken {α : Type} {a b : α} {t : Token} (htoken : s.token = t)
    (ht : t ≠ .endOfInput) (h : (do return (a, ← s.advance)) = Except.ok (b, rest)) :
    s.Leads [t] rest ∧ a = b := by
  obtain ⟨next, hadvance, hresult⟩ := bind_eq_ok_iff.1 h
  obtain ⟨rfl, rfl⟩ := Prod.mk.inj (Except.ok.inj hresult)
  exact ⟨Lexemes.leads_of_advance htoken ht hadvance, rfl⟩

theorem taken_of_leads {α : Type} (a : α) {t : Token} (h : s.Leads [t] rest) :
    (do return (a, ← s.advance)) = Except.ok (ε := SyntaxError) (a, rest) :=
  bind_ok h.advance_eq

theorem expect_eq_ok_iff {wanted : Token} (hwanted : wanted ≠ .endOfInput) :
    expect wanted s = .ok rest ↔ s.Leads [wanted] rest := by
  unfold expect
  constructor
  · intro h
    split at h
    · rename_i htoken
      exact Lexemes.leads_of_advance htoken hwanted h
    · simp [fail] at h
  · intro h
    rw [if_pos h.token_eq, h.advance_eq]

/-- A last token, with what stands in front of it. -/
theorem closed_eq_ok_iff {α : Type} {a b : α} {wanted : Token} (hwanted : wanted ≠ .endOfInput) :
    (do return (a, ← expect wanted s)) = Except.ok (b, rest) ↔ s.Leads [wanted] rest ∧ a = b := by
  rw [bind_eq_ok_iff]
  constructor
  · rintro ⟨next, hclose, hresult⟩
    obtain ⟨rfl, rfl⟩ := Prod.mk.inj (Except.ok.inj hresult)
    exact ⟨(expect_eq_ok_iff hwanted).1 hclose, rfl⟩
  · rintro ⟨hclose, rfl⟩
    exact ⟨rest, (expect_eq_ok_iff hwanted).2 hclose, rfl⟩

theorem multiplicativeOp?_eq_some_iff {t : Token} {o : BinaryOp} :
    multiplicativeOp? t = some o ↔ Multiplicative t o := by
  constructor
  · intro h
    cases t <;> simp only [multiplicativeOp?, Option.some.injEq, reduceCtorEq] at h
    all_goals subst h; constructor
  · rintro ⟨⟩ <;> rfl

theorem additiveOp?_eq_some_iff {t : Token} {o : BinaryOp} :
    additiveOp? t = some o ↔ Additive t o := by
  constructor
  · intro h
    cases t <;> simp only [additiveOp?, Option.some.injEq, reduceCtorEq] at h
    all_goals subst h; constructor
  · rintro ⟨⟩ <;> rfl

theorem comparisonOp?_eq_some_iff {t : Token} {o : BinaryOp} :
    comparisonOp? t = some o ↔ Comparative t o := by
  constructor
  · intro h
    cases t <;> simp only [comparisonOp?, Option.some.injEq, reduceCtorEq] at h
    all_goals subst h; constructor
  · rintro ⟨⟩ <;> rfl

/-! ## Words -/

/-- Where no two values share a word, a value is found under its word. -/
theorem ofWord?_eq_some_iff {α : Type} {all : List α} {word : α → String}
    (hword : ∀ a ∈ all, ∀ b ∈ all, word a = word b → a = b) {name : String} {a : α} :
    ofWord? all word name = some a ↔ a ∈ all ∧ word a = name := by
  constructor
  · intro h
    exact ⟨List.mem_of_find?_eq_some h, by simpa using List.find?_some h⟩
  · rintro ⟨ha, rfl⟩
    obtain ⟨b, hb⟩ : ∃ b, ofWord? all word (word a) = some b := by
      rw [← Option.isSome_iff_exists, ofWord?, List.find?_isSome]
      exact ⟨a, ha, by simp⟩
    have hsame : word b = word a := by simpa using List.find?_some hb
    rw [hb, hword b (List.mem_of_find?_eq_some hb) a ha hsame]

theorem testOfName?_eq_some_iff {name : String} {test : Test} :
    Test.ofName? name = some test ↔
      test ∈ Test.named ∧ Text.asciiLower name = Text.asciiLower test.word := by
  rw [Test.ofName?, ofWord?_eq_some_iff (by decide), eq_comm (a := Text.asciiLower name)]

theorem aggregationOfName?_eq_some_iff {name : String} {mode : Aggregation} :
    Aggregation.ofName? name = some mode ↔ NamesAggregation name mode := by
  rw [Aggregation.ofName?, ofWord?_eq_some_iff (by decide), NamesAggregation, eq_comm]
  exact and_iff_right (by cases mode <;> decide)

theorem aggregationOfName?_eq_none_iff {name : String} :
    Aggregation.ofName? name = none ↔ ∀ mode, ¬NamesAggregation name mode := by
  simp only [← aggregationOfName?_eq_some_iff, Option.eq_none_iff_forall_ne_some]

theorem comparisonTest?_eq_some_iff {t : Token} {test : Test} :
    comparisonTest? t = some test ↔ FilterTest t test := by
  constructor
  · intro h
    cases t <;> simp only [comparisonTest?, Option.some.injEq, reduceCtorEq] at h
    case word name =>
      obtain ⟨htest, hname⟩ := testOfName?_eq_some_iff.1 h
      exact .word htest hname
    all_goals subst h; constructor
  · rintro (_ | _ | _ | _ | _ | _ | ⟨htest, hname⟩)
    case word => exact testOfName?_eq_some_iff.2 ⟨htest, hname⟩
    all_goals rfl

/-! ## Filters -/

theorem filterField_eq_ok_iff {field : String} :
    filterField s = .ok (field, rest) ↔ ∃ t, FilterField t field ∧ s.Leads [t] rest := by
  unfold filterField
  constructor
  · intro h
    split at h
    · rename_i name htoken
      obtain ⟨hleads, rfl⟩ := leads_of_taken htoken (by simp) h
      exact ⟨_, .name (.word name), hleads⟩
    · rename_i name htoken
      obtain ⟨hleads, rfl⟩ := leads_of_taken htoken (by simp) h
      exact ⟨_, .text name, hleads⟩
    · rename_i name htoken
      obtain ⟨hleads, rfl⟩ := leads_of_taken htoken (by simp) h
      exact ⟨_, .name (.field name), hleads⟩
    · simp [unexpected, fail] at h
  · rintro ⟨t, ⟨⟨⟩⟩ | ⟨⟩, hleads⟩
    all_goals
      simp only [hleads.token_eq]
      exact taken_of_leads _ hleads

theorem filterTest_eq_ok_iff {test : Test} :
    filterTest s = .ok (test, rest) ↔ ∃ t, FilterTest t test ∧ s.Leads [t] rest := by
  unfold filterTest
  constructor
  · intro h
    split at h
    · rename_i found htest
      have hgrammar := comparisonTest?_eq_some_iff.1 htest
      have hend : s.token ≠ .endOfInput := by
        intro hend
        rw [hend] at hgrammar
        cases hgrammar
      obtain ⟨hleads, rfl⟩ := leads_of_taken rfl hend h
      exact ⟨_, hgrammar, hleads⟩
    · simp [unexpected, fail] at h
  · rintro ⟨t, htest, hleads⟩
    rw [hleads.token_eq, comparisonTest?_eq_some_iff.2 htest]
    exact taken_of_leads _ hleads

theorem reads_filterValue : Reads filterValue FilterValue fun _ => True where
  sound := by
    intro s value rest h
    unfold filterValue at h
    split at h
    · rename_i hminus
      obtain ⟨next, hadvance, h⟩ := bind_eq_ok_iff.1 h
      have hsign := Lexemes.leads_of_advance hminus (by simp) hadvance
      split at h
      · rename_i n htoken
        obtain ⟨hleads, rfl⟩ := leads_of_taken htoken (by simp) h
        exact ⟨_, Lexemes.leads_cons_iff.2 ⟨next, hsign, hleads⟩, .negatedInt n⟩
      · rename_i x htoken
        obtain ⟨hleads, rfl⟩ := leads_of_taken htoken (by simp) h
        exact ⟨_, Lexemes.leads_cons_iff.2 ⟨next, hsign, hleads⟩, .negatedFloat x⟩
      · simp [unexpected, fail] at h
    · generalize htoken : s.token = t at h
      cases t
      case int | float | text | bool | null | word =>
        obtain ⟨hleads, rfl⟩ := leads_of_taken htoken (by simp) h
        exact ⟨_, hleads, by constructor⟩
      all_goals simp [unexpected, fail] at h
  complete := by
    rintro s ts value rest hvalue hleads -
    unfold filterValue
    cases hvalue with
    | negatedInt | negatedFloat =>
      obtain ⟨next, hsign, hnumber⟩ := Lexemes.leads_cons_iff.1 hleads
      rw [if_pos hsign.token_eq, bind_ok hsign.advance_eq, hnumber.token_eq]
      exact taken_of_leads _ hnumber
    | int | float | text | bool | null | word =>
      rw [if_neg (by simp [hleads.token_eq]), hleads.token_eq]
      exact taken_of_leads _ hleads

theorem reads_filter : Reads filter Filter fun _ => True where
  sound := by
    intro s condition rest h
    obtain ⟨s₁, hopen, h⟩ := bind_eq_ok_iff.1 h
    obtain ⟨⟨field, s₂⟩, hfield, h⟩ := bind_eq_ok_iff.1 h
    obtain ⟨⟨test, s₃⟩, htest, h⟩ := bind_eq_ok_iff.1 h
    rw [expect_eq_ok_iff (by simp)] at hopen
    obtain ⟨t, hfield, hleadsField⟩ := filterField_eq_ok_iff.1 hfield
    obtain ⟨u, htest, hleadsTest⟩ := filterTest_eq_ok_iff.1 htest
    have hfront := hopen.trans (hleadsField.trans hleadsTest)
    dsimp only at h
    split at h
    · rename_i hbinary
      obtain ⟨⟨value, s₄⟩, hvalue, h⟩ := bind_eq_ok_iff.1 h
      obtain ⟨vs, hleadsValue, hvalue⟩ := reads_filterValue.sound hvalue
      obtain ⟨hclose, rfl⟩ := (closed_eq_ok_iff (by simp)).1 h
      exact ⟨_, hfront.trans (hleadsValue.trans hclose), .binary hfield htest hbinary hvalue⟩
    · rename_i hunary
      obtain ⟨hclose, rfl⟩ := (closed_eq_ok_iff (by simp)).1 h
      exact ⟨_, hfront.trans hclose, .unary hfield htest (by simpa using hunary)⟩
  complete := by
    rintro s ts condition rest hfilter hleads -
    unfold filter
    cases hfilter with
    | unary hfield htest hunary =>
      obtain ⟨s₁, hopen, hleads⟩ := Lexemes.leads_cons_iff.1 hleads
      obtain ⟨s₂, hleadsField, hleads⟩ := Lexemes.leads_cons_iff.1 hleads
      obtain ⟨s₃, hleadsTest, hclose⟩ := Lexemes.leads_cons_iff.1 hleads
      rw [bind_ok ((expect_eq_ok_iff (by simp)).2 hopen),
        bind_ok (filterField_eq_ok_iff.2 ⟨_, hfield, hleadsField⟩)]
      dsimp only
      rw [bind_ok (filterTest_eq_ok_iff.2 ⟨_, htest, hleadsTest⟩)]
      dsimp only
      rw [if_neg (by simp [hunary])]
      exact (closed_eq_ok_iff (by simp)).2 ⟨hclose, rfl⟩
    | binary hfield htest hbinary hvalue =>
      obtain ⟨s₁, hopen, hleads⟩ := Lexemes.leads_cons_iff.1 hleads
      obtain ⟨s₂, hleadsField, hleads⟩ := Lexemes.leads_cons_iff.1 hleads
      obtain ⟨s₃, hleadsTest, hleads⟩ := Lexemes.leads_cons_iff.1 hleads
      obtain ⟨s₄, hleadsValue, hclose⟩ := Lexemes.leads_append_iff.1 hleads
      rw [bind_ok ((expect_eq_ok_iff (by simp)).2 hopen),
        bind_ok (filterField_eq_ok_iff.2 ⟨_, hfield, hleadsField⟩)]
      dsimp only
      rw [bind_ok (filterTest_eq_ok_iff.2 ⟨_, htest, hleadsTest⟩)]
      dsimp only
      rw [if_pos hbinary, bind_ok (reads_filterValue.complete hvalue hleadsValue trivial)]
      exact (closed_eq_ok_iff (by simp)).2 ⟨hclose, rfl⟩

theorem reads_optionalFilter : Reads optionalFilter OptionalFilter (· ≠ .openBracket) where
  sound := by
    intro s condition? rest h
    unfold optionalFilter at h
    split at h
    · obtain ⟨⟨condition, next⟩, hfilter, h⟩ := bind_eq_ok_iff.1 h
      obtain ⟨rfl, rfl⟩ := Prod.mk.inj (Except.ok.inj h)
      obtain ⟨ts, hleads, hfilter⟩ := reads_filter.sound hfilter
      exact ⟨ts, hleads, .some hfilter⟩
    · obtain ⟨rfl, rfl⟩ := Prod.mk.inj (Except.ok.inj h)
      exact ⟨[], .refl s, .none⟩
  complete := by
    intro s ts condition? rest hfilter hleads hend
    unfold optionalFilter
    cases hfilter with
    | none =>
      obtain rfl := Lexemes.leads_nil_iff.1 hleads
      rw [if_neg hend]
      rfl
    | some hfilter =>
      have hopen : s.token = .openBracket := by cases hfilter <;> exact hleads.token_eq
      rw [if_pos hopen, bind_ok (reads_filter.complete hfilter hleads trivial)]
      rfl

end Parser

end FormulaPipeline
