import FormulaPipeline.Proofs.Formula.Ending

/-!
# Every parser ends early

Each parser is followed through its code: where it stops at a token or at a fault, what it has taken
can still be completed. Its loops have a round for every token, so they never run out of rounds.
-/

namespace FormulaPipeline

namespace Parser

open Grammar

variable {s : Lexemes}

/-! ## Filters -/

/-- One token that stands for something. -/
def Single {α : Type} (P : Token → α → Prop) : Rule α := fun ts a => ∃ t, ts = [t] ∧ P t a

/-- A parser that takes one token of a kind, and does not take any other. -/
theorem ending_single {α : Type} {p : Parser α} {P : Token → α → Prop} (place : Place)
    (htake : ∀ {s a}, P s.token a → p s = (do return (a, ← s.advance)))
    (hrefuse : ∀ {s}, (∀ a, ¬P s.token a) → p s = unexpected place s)
    (hend : ∀ a, ¬P .endOfInput a) {t : Token} {a : α} (ht : t.Writable) (hphrase : P t a) :
    Ending p (Single P) s := by
  by_cases htoken : ∃ a, P s.token a
  · obtain ⟨b, hb⟩ := htoken
    have hne : s.token ≠ .endOfInput := fun h => hend b (h ▸ hb)
    exact .taken rfl hne ⟨_, rfl, hb⟩ fun s' hs' => htake (hs'.symm ▸ hb)
  · have hviable : Viable (Single P) [] := ⟨[t], a, by simpa using ht, t, rfl, hphrase⟩
    refine .congr (fun s' hs' => hrefuse fun b hb => htoken ⟨b, ?_⟩) (.unexpected place hviable)
    rwa [hs'] at hb

theorem ending_filterField : Ending filterField (Single FilterField) s := by
  refine ending_single .filterField ?_ ?_ ?_ (t := .text "") (by decide) (.text "")
  · intro s name h
    generalize htoken : s.token = t at h
    simp only [filterField, htoken]
    obtain ⟨⟨⟩⟩ | ⟨⟩ := h <;> rfl
  · intro s h
    unfold filterField
    split
    · rename_i name htoken
      exact (h name (htoken ▸ .name (.word name))).elim
    · rename_i name htoken
      exact (h name (htoken ▸ .text name)).elim
    · rename_i name htoken
      exact (h name (htoken ▸ .name (.field name))).elim
    · rfl
  · rintro name ⟨⟨⟩⟩

theorem ending_filterTest : Ending filterTest (Single FilterTest) s := by
  refine ending_single .filterOperator ?_ ?_ ?_ (t := .equal) trivial .equal
  · intro s test h
    rw [filterTest, comparisonTest?_eq_some_iff.2 h]
  · intro s h
    have hnone : comparisonTest? s.token = none :=
      Option.eq_none_iff_forall_ne_some.2 fun test htest =>
        h test (comparisonTest?_eq_some_iff.1 htest)
    rw [filterTest, hnone]
  · rintro test ⟨⟩

theorem viable_filterValue : Viable FilterValue [] :=
  ⟨[.null], .null, by decide, .null⟩

theorem ending_filterValue : Ending filterValue FilterValue s := by
  unfold filterValue
  refine .ite (fun hminus => ?_) fun _ => ?_
  · have hsign : Viable FilterValue [.minus] := ⟨[.int 1], _, by decide, .negatedInt 1⟩
    refine .advance hminus (by simp) hsign fun {s} _ => ?_
    cases htoken : s.token with
    | int n =>
      exact .taken htoken (by simp) (FilterValue.negatedInt n) fun s' hs' => by simp only [hs']
    | float x =>
      exact .taken htoken (by simp) (FilterValue.negatedFloat x) fun s' hs' => by simp only [hs']
    | _ =>
      exact .congr (fun s' hs' => by simp only [hs', htoken])
        (.unexpected .filterValue (viable_after_iff.2 hsign))
  · cases htoken : s.token with
    | int n => exact .taken htoken (by simp) (.int n) fun s' hs' => by simp only [hs']
    | float x => exact .taken htoken (by simp) (.float x) fun s' hs' => by simp only [hs']
    | text t => exact .taken htoken (by simp) (.text t) fun s' hs' => by simp only [hs']
    | bool b => exact .taken htoken (by simp) (.bool b) fun s' hs' => by simp only [hs']
    | null => exact .taken htoken (by simp) .null fun s' hs' => by simp only [hs']
    | word name => exact .taken htoken (by simp) (.word name) fun s' hs' => by simp only [hs']
    | _ =>
      exact .congr (fun s' hs' => by simp only [hs', htoken])
        (.unexpected .filterValue viable_filterValue)

/-- A field and a test can be completed, with a value where the test takes one. -/
theorem viable_filter {t u : Token} {field : String} {test : Test} (hfield : FilterField t field)
    (htest : FilterTest u test) : Viable Filter [.openBracket, t, u] := by
  cases htakes : test.takesValue with
  | true => exact ⟨[.null, .closeBracket], _, by decide, .binary hfield htest htakes .null⟩
  | false => exact ⟨[.closeBracket], _, by decide, .unary hfield htest htakes⟩

theorem ending_filter : Ending filter Filter s := by
  have hopen : Viable Filter [.openBracket] :=
    ⟨[.text "", .equal, .null, .closeBracket], _, by decide, .binary (.text "") .equal rfl .null⟩
  refine .expect (by simp) trivial hopen fun _ => ?_
  refine ending_filterField.bind ?_ ?_
  · rintro _ field ⟨t, rfl, hfield⟩
    exact ⟨[.equal, .null, .closeBracket], _, by decide, Filter.binary hfield .equal rfl .null⟩
  · rintro _ field _ - ⟨t, rfl, hfield⟩
    refine ending_filterTest.bind ?_ ?_
    · rintro _ test ⟨u, rfl, htest⟩
      exact viable_filter hfield htest
    · rintro _ test _ - ⟨u, rfl, htest⟩
      rw [after_after, after_after]
      dsimp only
      cases htakes : test.takesValue with
      | true =>
        simp only [if_true]
        exact ending_filterValue.enclosed .closeBracket (by simp) trivial (fun _ _ => rfl)
          fun hvalue => Filter.binary hfield htest htakes hvalue
      | false =>
        simp only [Bool.false_eq_true, if_false, pure_bind]
        exact .closed (by simp) trivial (Filter.unary hfield htest htakes)

theorem ending_optionalFilter : Ending optionalFilter OptionalFilter s := by
  unfold optionalFilter
  refine .ite (fun _ => ?_) fun _ => .pure .none
  exact ending_filter.map (fun _ _ => rfl) .some

/-! ## Arguments of calls -/

theorem bind_congr_ok {ε α β : Type} {x : Except ε α} {f g : α → Except ε β}
    (h : ∀ a, x = .ok a → f a = g a) : (x >>= f) = (x >>= g) := by
  cases x with
  | error e => rfl
  | ok a => exact h a rfl

section Calls

variable {expression : Parser Expr} {R : Rule Expr} (hexpression : ∀ {s}, Ending expression R s)
include hexpression

/-- Any number of rounds that is large enough gives the same. -/
theorem arguments_eq {fuel : Nat} (hfuel : s.length < fuel) :
    arguments expression fuel s = (do
      let (first, s) ← expression s
      if s.token = .comma then
        let s ← s.advance
        let (others, s) ← arguments expression (s.length + 1) s
        return (first :: others, s)
      else return ([first], s)) := by
  induction fuel using Nat.strong_induction_on generalizing s with
  | _ fuel ih =>
    obtain ⟨k, rfl⟩ := Nat.exists_eq_add_of_lt hfuel
    rw [arguments]
    refine bind_congr_ok ?_
    rintro ⟨first, s₁⟩ hfirst
    have h₁ := hexpression.length_le hfirst
    dsimp only
    split
    · rename_i hcomma
      refine bind_congr_ok fun s₂ hadvance => ?_
      have h₂ := (Lexemes.leads_of_advance hcomma (by simp) hadvance).length_lt
      rw [ih (s.length + k) (by omega) (by omega), ← ih (s₂.length + 1) (by omega) (by omega)]
    · rfl

variable (hviable : Viable R [])
include hviable

theorem ending_arguments :
    Ending (fun s => arguments expression (s.length + 1) s) (Expressions R) s := by
  induction hlength : s.length using Nat.strong_induction_on generalizing s with
  | _ length ih =>
    refine .congr (fun s' _ => arguments_eq hexpression (Nat.lt_succ_self _)) ?_
    refine hexpression.bind (fun h => viable_of_phrase (.single h)) ?_
    intro ts first rest hleads h
    dsimp only
    refine .ite (fun hcomma => ?_) fun _ => .pure (by simpa [After] using Expressions.single h)
    have hmore : Viable (After (Expressions R) ts) [.comma] := by
      obtain ⟨us, e, hus, he⟩ := hviable
      exact ⟨us, _, hus, .cons h (.single he)⟩
    refine .advance hcomma (by simp) hmore fun {next} hskip => ?_
    have h₁ := hleads.length_le
    have h₂ := hskip.length_lt
    refine (ih next.length (by omega) rfl).map (fun _ _ => rfl) fun hothers => ?_
    simpa [After] using Expressions.cons h hothers

theorem ending_callArguments : Ending (callArguments expression) (Arguments R) s := by
  refine .expect (by simp) trivial ⟨[.closeParen], _, by decide, .none⟩ fun _ => ?_
  refine .ite (fun hclose => .taken hclose (by simp) Arguments.none fun _ _ => rfl) fun _ => ?_
  exact (ending_arguments hexpression hviable).enclosed .closeParen (by simp) trivial
    (fun _ _ => rfl) Arguments.some

end Calls

/-! ## Arguments of aggregations -/

/-- The items that are left, with the closing parenthesis. -/
def ClosedItems (known : Option String × Option String) : Rule (Option String × Option String) :=
  fun ts result => ∃ us, ts = us ++ [.closeParen] ∧ Items known us result

theorem aggregationLoop_unexpected {fuel : Nat} {property separator : Option String}
    (hclose : s.token ≠ .closeParen) (hitem : ∀ next, ¬Item (property, separator) s.token next) :
    aggregationLoop (fuel + 1) property separator s = unexpected .aggregation s := by
  rw [aggregationLoop, if_neg hclose]
  split
  · rename_i htoken
    rw [htoken] at hitem
    exact (hitem _ (.property (.word _))).elim
  · rename_i htoken
    rw [htoken] at hitem
    exact (hitem _ (.property (.field _))).elim
  · rename_i htoken
    rw [htoken] at hitem
    exact (hitem _ (.separator _)).elim
  · rfl

theorem aggregationLoop_fuel {fuel : Nat} {property separator : Option String}
    (hfuel : s.length < fuel) :
    aggregationLoop fuel property separator s =
      aggregationLoop (s.length + 1) property separator s := by
  induction fuel using Nat.strong_induction_on generalizing s property separator with
  | _ fuel ih =>
    obtain ⟨k, rfl⟩ := Nat.exists_eq_add_of_lt hfuel
    by_cases hclose : s.token = .closeParen
    · rw [aggregationLoop, aggregationLoop, if_pos hclose, if_pos hclose]
    by_cases hitem : ∃ next, Item (property, separator) s.token next
    · obtain ⟨next, hitem⟩ := hitem
      rw [aggregationLoop_item hitem, aggregationLoop_item hitem]
      refine bind_congr_ok fun s₁ hadvance => ?_
      have h₁ := (Lexemes.leads_of_advance rfl hitem.ne_endOfInput hadvance).length_lt
      split
      · rename_i hcomma
        refine bind_congr_ok fun s₂ hadvance => ?_
        have h₂ := (Lexemes.leads_of_advance hcomma (by simp) hadvance).length_lt
        rw [ih (s.length + k) (by omega) (by omega), ih s.length (by omega) (by omega)]
      · split
        · rw [ih (s.length + k) (by omega) (by omega), ih s.length (by omega) (by omega)]
        · rfl
    · have hnone := not_exists.1 hitem
      rw [aggregationLoop_unexpected hclose hnone, aggregationLoop_unexpected hclose hnone]

/-- An item is followed by a comma, or by the closing parenthesis. -/
theorem aggregationLoop_eq {fuel : Nat} {property separator : Option String}
    {next : Option String × Option String} (hfuel : s.length < fuel)
    (hitem : Item (property, separator) s.token next) :
    aggregationLoop fuel property separator s = (do
      let s ← s.advance
      if s.token = .comma then
        let s ← s.advance
        aggregationLoop (s.length + 1) next.1 next.2 s
      else if s.token = .closeParen then aggregationLoop (s.length + 1) next.1 next.2 s
      else unexpected .aggregation s) := by
  rw [aggregationLoop_fuel hfuel, aggregationLoop_item hitem]
  refine bind_congr_ok fun s₁ hadvance => ?_
  have h₁ := (Lexemes.leads_of_advance rfl hitem.ne_endOfInput hadvance).length_lt
  split
  · rename_i hcomma
    refine bind_congr_ok fun s₂ hadvance => ?_
    have h₂ := (Lexemes.leads_of_advance hcomma (by simp) hadvance).length_lt
    exact aggregationLoop_fuel (by omega)
  · rw [aggregationLoop_fuel h₁]

theorem ending_aggregationLoop {property separator : Option String} :
    Ending (fun s => aggregationLoop (s.length + 1) property separator s)
      (ClosedItems (property, separator)) s := by
  induction hlength : s.length using Nat.strong_induction_on generalizing s property separator with
  | _ length ih =>
    by_cases hclose : s.token = .closeParen
    · refine .taken hclose (by simp) ⟨[], rfl, .none _⟩ fun s' hs' => ?_
      rw [aggregationLoop, if_pos hs']
    by_cases hitem : ∃ next, Item (property, separator) s.token next
    · obtain ⟨next, hitem⟩ := hitem
      have hlast : Viable (ClosedItems (property, separator)) [s.token] :=
        ⟨[.closeParen], _, by decide, [s.token], rfl, .last hitem⟩
      refine .congr (fun s' hs' => aggregationLoop_eq (Nat.lt_succ_self _) (hs'.symm ▸ hitem)) ?_
      refine .advance rfl hitem.ne_endOfInput hlast fun {s₁} htake => ?_
      have h₁ := htake.length_lt
      refine .ite (fun hcomma => ?_) fun _ => .ite (fun hend => ?_) fun _ => ?_
      · have hmore : Viable (After (ClosedItems (property, separator)) [s.token]) [.comma] :=
          ⟨[.closeParen], _, by decide, [s.token, .comma], rfl, .more hitem (.none _)⟩
        refine .advance hcomma (by simp) hmore fun {s₂} hskip => ?_
        have h₂ := hskip.length_lt
        refine (ih s₂.length (by omega) rfl).mono ?_
        rintro _ result ⟨us, rfl, hitems⟩
        exact ⟨s.token :: .comma :: us, rfl, .more hitem hitems⟩
      · refine .taken hend (by simp) ⟨[s.token], rfl, .last hitem⟩ fun s' hs' => ?_
        rw [aggregationLoop, if_pos hs']
      · exact .unexpected .aggregation (viable_after_iff.2 hlast)
    · have hnone := not_exists.1 hitem
      refine .congr (fun s' hs' => ?_) (.unexpected .aggregation
        ⟨[.closeParen], _, by decide, [], rfl, .none _⟩)
      exact aggregationLoop_unexpected (hs'.symm ▸ hclose) (hs'.symm ▸ hnone)

theorem ending_aggregationArguments : Ending aggregationArguments AggregationArguments s := by
  have hopen : Viable AggregationArguments [.openParen] :=
    ⟨[.closeParen], _, by decide, .items .none⟩
  refine .expect (by simp) trivial hopen fun _ => ending_aggregationLoop.mono ?_
  rintro _ result ⟨us, rfl, hitems⟩
  exact .items (items_iff.1 hitems)

/-! ## Primary phrases -/

theorem ending_filtered {f : Option Condition → Expr} {T : Rule Expr}
    (hT : ∀ {ts filter}, OptionalFilter ts filter → T ts (f filter)) :
    Ending (fun s => do
      let (filter, s) ← optionalFilter s
      return (f filter, s)) T s :=
  ending_optionalFilter.map (fun _ _ => rfl) hT

section Suffixes

variable {expression : Parser Expr} {R : Rule Expr} (hexpression : ∀ {s}, Ending expression R s)
  (hviable : Viable R [])
include hexpression hviable

theorem ending_primary : Ending (primary expression) (Primary R) s := by
  obtain ⟨us, e, hus, he⟩ := hviable
  rw [List.nil_append] at he
  cases htoken : s.token with
  | float x =>
    exact .taken htoken (by simp) (.literal (.float x)) fun s' hs' => by
      simp only [primary, hs', literal]
  | int n =>
    exact .taken htoken (by simp) (.literal (.int n)) fun s' hs' => by
      simp only [primary, hs', literal]
  | text t =>
    exact .taken htoken (by simp) (.literal (.text t)) fun s' hs' => by
      simp only [primary, hs', literal]
  | bool b =>
    exact .taken htoken (by simp) (.literal (.bool b)) fun s' hs' => by
      simp only [primary, hs', literal]
  | null =>
    exact .taken htoken (by simp) (.literal .null) fun s' hs' => by
      simp only [primary, hs', literal]
  | field name =>
    refine .congr (q := fun s => do
      let s ← s.advance
      let (filter, s) ← optionalFilter s
      return (.field name filter, s)) (fun s' hs' => by simp only [primary, hs', htoken]) ?_
    exact .advance htoken (by simp) (viable_of_phrase (.field name .none)) fun _ =>
      ending_filtered (.field name)
  | node name =>
    refine .congr (q := fun s => do
      let s ← s.advance
      let (filter, s) ← optionalFilter s
      return (.node name filter, s)) (fun s' hs' => by simp only [primary, hs', htoken]) ?_
    exact .advance htoken (by simp) (viable_of_phrase (.node name .none)) fun _ =>
      ending_filtered (.node name)
  | word name =>
    refine .congr (q := fun s => do
      let s ← s.advance
      if s.token = .openParen then
        let (args, s) ← callArguments expression s
        return (.call name args, s)
      else
        let (filter, s) ← optionalFilter s
        return (.field name filter, s)) (fun s' hs' => by simp only [primary, hs', htoken]) ?_
    refine .advance htoken (by simp) (viable_of_phrase (.word name .none)) fun _ => ?_
    refine .ite (fun _ => ?_) fun _ => ending_filtered (.word name)
    exact (ending_callArguments hexpression ⟨us, e, hus, he⟩).map (fun _ _ => rfl)
      (Primary.call name)
  | openParen =>
    refine .congr (q := fun s => do
      let s ← s.advance
      let (e, s) ← expression s
      return (e, ← expect .closeParen s)) (fun s' hs' => by simp only [primary, hs', htoken]) ?_
    have hopen : Viable (Primary R) [.openParen] :=
      ⟨us ++ [Token.closeParen], e, List.forall_mem_append.2 ⟨hus, by decide⟩, .group he⟩
    exact .advance htoken (by simp) hopen fun _ =>
      hexpression.enclosed .closeParen (by simp) trivial (fun _ _ => rfl) Primary.group
  | _ =>
    exact .congr (fun s' hs' => by simp only [primary, hs', htoken]) (.unexpected .expression
      ⟨[.null], _, by decide, .literal .null⟩)

/-! ## Suffixes -/

omit hexpression hviable in
theorem ending_memberName : Ending memberName (Single Name) s := by
  refine ending_single .afterDot ?_ ?_ ?_ (t := .field "a") (by decide) (.field "a")
  · intro s name h
    generalize htoken : s.token = t at h
    simp only [memberName, htoken]
    cases h <;> rfl
  · intro s h
    unfold memberName
    split
    · rename_i name htoken
      exact (h name (htoken ▸ .word name)).elim
    · rename_i name htoken
      exact (h name (htoken ▸ .field name)).elim
    · rfl
  · rintro name ⟨⟩

theorem ending_member {ts : List Token} {t : Token} {receiver : Expr} {name : String}
    (hreceiver : Postfix R ts receiver) (hname : Name t name) :
    Ending (member expression receiver name) (After (Postfix R) (ts ++ [.dot, t])) s := by
  unfold member
  refine .ite (fun hopen => ?_) fun _ =>
    .pure (by simpa [After] using Postfix.property hreceiver hname)
  cases hmode : Aggregation.ofName? name with
  | some mode =>
    dsimp only
    refine ending_aggregationArguments.map (g := fun a => .aggregation receiver mode a.1 a.2)
      (fun _ _ => rfl) fun hargs => ?_
    simpa [After] using
      Postfix.aggregation hreceiver hname (aggregationOfName?_eq_some_iff.1 hmode) hargs
  | none =>
    dsimp only
    refine (ending_callArguments hexpression hviable).map
      (g := fun args => .call name (receiver :: args)) (fun _ _ => rfl) fun hargs => ?_
    simpa [After] using
      Postfix.method hreceiver hname (aggregationOfName?_eq_none_iff.1 hmode) hargs

theorem members_eq {fuel : Nat} {ts : List Token} {receiver : Expr}
    (hreceiver : Postfix R ts receiver) (hfuel : s.length < fuel) :
    members expression fuel receiver s =
      if s.token = .dot then do
        let s ← s.advance
        let (name, s) ← memberName s
        let (e, s) ← member expression receiver name s
        members expression (s.length + 1) e s
      else return (receiver, s) := by
  induction fuel using Nat.strong_induction_on generalizing s ts receiver with
  | _ fuel ih =>
    obtain ⟨k, rfl⟩ := Nat.exists_eq_add_of_lt hfuel
    rw [members]
    split
    · rename_i hdot
      refine bind_congr_ok fun s₁ hadvance => bind_congr_ok ?_
      rintro ⟨name, s₂⟩ hname
      obtain ⟨_, hleads, t, rfl, hname⟩ := ending_memberName.sound hname
      refine bind_congr_ok ?_
      rintro ⟨e, s₃⟩ hmember
      obtain ⟨us, hleads', hphrase⟩ :=
        (ending_member hexpression hviable hreceiver hname).sound hmember
      have h₁ := (Lexemes.leads_of_advance hdot (by simp) hadvance).length_lt
      have h₂ := hleads.length_lt
      have h₃ := hleads'.length_le
      dsimp only
      rw [ih (s.length + k) (by omega) hphrase (by omega),
        ← ih (s₃.length + 1) (by omega) hphrase (by omega)]
    · rfl

theorem ending_members {ts : List Token} {receiver : Expr} (hreceiver : Postfix R ts receiver) :
    Ending (fun s => members expression (s.length + 1) receiver s) (After (Postfix R) ts) s := by
  induction hlength : s.length using Nat.strong_induction_on generalizing s ts receiver with
  | _ length ih =>
    refine .congr (fun s' _ => members_eq hexpression hviable hreceiver (Nat.lt_succ_self _)) ?_
    refine .ite (fun hdot => ?_) fun _ => .pure (by simpa [After] using hreceiver)
    have hname : Viable (After (Postfix R) ts) [.dot] :=
      ⟨[.field "a"], _, by decide, .property hreceiver (.field "a")⟩
    refine .advance hdot (by simp) hname fun {s₁} hskip => ?_
    have h₁ := hskip.length_lt
    refine ending_memberName.bind ?_ ?_
    · rintro _ name ⟨t, rfl, hname⟩
      exact viable_after_iff.2 (viable_of_phrase (.property hreceiver hname))
    · rintro _ name s₂ hleads ⟨t, rfl, hname⟩
      have h₂ := hleads.length_lt
      rw [after_after, after_after]
      refine (ending_member hexpression hviable hreceiver hname).bind viable_of_phrase ?_
      intro us e s₃ hleads' hphrase
      have h₃ := hleads'.length_le
      rw [after_after]
      exact ih s₃.length (by omega) hphrase rfl

theorem ending_postfixed : Ending (postfixed expression) (Postfix R) s :=
  (ending_primary hexpression hviable).bind (fun h => viable_of_phrase (.primary h)) fun _ h =>
    ending_members hexpression hviable (.primary h)

theorem ending_power {operand : Parser Expr} {O : Rule Expr} (hoperand : ∀ {s}, Ending operand O s)
    (hexponent : Viable O []) : Ending (power expression operand) (Power R O) s := by
  refine (ending_postfixed hexpression hviable).bind (fun h => viable_of_phrase (.base h)) ?_
  intro ts base rest _ hbase
  dsimp only
  refine .ite (fun hcaret => ?_) fun _ => .pure (by simpa [After] using Power.base hbase)
  obtain ⟨us, e, hus, he⟩ := hexponent
  have hmore : Viable (After (Power R O) ts) [.caret] := ⟨us, _, hus, Power.power hbase he⟩
  refine .advance hcaret (by simp) hmore fun _ => hoperand.map (fun _ _ => rfl) fun he => ?_
  simpa [After] using Power.power hbase he

end Suffixes

/-! ## Operators -/

section Operators

variable {op? : Token → Option BinaryOp} {op : Token → BinaryOp → Prop} {operand : Parser Expr}
  {O : Rule Expr} (hop : ∀ t o, op? t = some o ↔ op t o) (hend : op? .endOfInput = none)
  (hoperand : ∀ {s}, Ending operand O s)
include hend

theorem ne_endOfInput_of_op {t : Token} {o : BinaryOp} (ho : op? t = some o) :
    t ≠ .endOfInput := by
  rintro rfl
  cases hend.symm.trans ho

include hoperand

theorem chain_eq {fuel : Nat} {left : Expr} (hfuel : s.length < fuel) :
    chain op? operand fuel left s =
      match op? s.token with
      | some op => do
        let s ← s.advance
        let (right, s) ← operand s
        chain op? operand (s.length + 1) (.binary op left right) s
      | none => return (left, s) := by
  induction fuel using Nat.strong_induction_on generalizing s left with
  | _ fuel ih =>
    obtain ⟨k, rfl⟩ := Nat.exists_eq_add_of_lt hfuel
    rw [chain]
    cases ho : op? s.token with
    | some o =>
      have hne : s.token ≠ .endOfInput := ne_endOfInput_of_op hend ho
      refine bind_congr_ok fun s₁ hadvance => bind_congr_ok ?_
      rintro ⟨right, s₂⟩ hright
      have h₁ := (Lexemes.leads_of_advance rfl hne hadvance).length_lt
      have h₂ := hoperand.length_le hright
      dsimp only
      rw [ih (s.length + k) (by omega) (by omega), ← ih (s₂.length + 1) (by omega) (by omega)]
    | none => rfl

variable (hviable : Viable O [])
include hop hviable

theorem ending_chain {ts : List Token} {left : Expr} (hleft : LeftAssociative op O ts left) :
    Ending (fun s => chain op? operand (s.length + 1) left s)
      (After (LeftAssociative op O) ts) s := by
  induction hlength : s.length using Nat.strong_induction_on generalizing s ts left with
  | _ length ih =>
    refine .congr (fun s' _ => chain_eq hend hoperand (Nat.lt_succ_self _)) ?_
    cases ho : op? s.token with
    | none =>
      refine .congr (fun s' hs' => ?_) (.pure (by simpa [After] using hleft))
      rw [hs', ho]
      rfl
    | some o =>
      have hne : s.token ≠ .endOfInput := ne_endOfInput_of_op hend ho
      refine .congr (q := fun s => do
        let s ← s.advance
        let (right, s) ← operand s
        chain op? operand (s.length + 1) (.binary o left right) s)
        (fun s' hs' => by rw [hs', ho]) ?_
      have hmore : Viable (After (LeftAssociative op O) ts) [s.token] := by
        obtain ⟨us, e, hus, he⟩ := hviable
        exact ⟨us, _, hus, .snoc hleft ((hop _ _).1 ho) he⟩
      refine .advance rfl hne hmore fun {s₁} hskip => hoperand.bind ?_ ?_
      · intro us right hright
        have hphrase := LeftAssociative.snoc hleft ((hop _ _).1 ho) hright
        exact viable_of_phrase (by simpa [After] using hphrase)
      · intro us right s₂ hleads hright
        have hphrase := LeftAssociative.snoc hleft ((hop _ _).1 ho) hright
        have h₁ := hskip.length_lt
        have h₂ := hleads.length_le
        rw [after_after, after_after]
        exact ih s₂.length (by omega) (by simpa using hphrase) rfl

theorem ending_leftAssociative :
    Ending (leftAssociative op? operand) (LeftAssociative op O) s :=
  hoperand.bind (fun h => viable_of_phrase (.single h)) fun _ h =>
    ending_chain hop hend hoperand hviable (.single h)

end Operators

section Sums

variable {operand : Parser Expr} {O : Rule Expr} (hoperand : ∀ {s}, Ending operand O s)
  (hviable : Viable O [])
include hoperand hviable

theorem ending_sum :
    Ending (leftAssociative additiveOp? (leftAssociative multiplicativeOp? operand))
    (LeftAssociative Additive (LeftAssociative Multiplicative O)) s :=
  ending_leftAssociative (fun _ _ => additiveOp?_eq_some_iff) rfl
    (ending_leftAssociative (fun _ _ => multiplicativeOp?_eq_some_iff) rfl hoperand hviable)
    (hviable.bind fun h => viable_of_phrase (.single h))

theorem ending_comparison : Ending (comparison operand) (Comparison O) s := by
  refine (ending_sum hoperand hviable).bind (fun h => viable_of_phrase (.sum h)) ?_
  intro ts left rest _ hleft
  dsimp only
  cases ho : comparisonOp? rest.token with
  | none =>
    refine .congr (fun s' hs' => ?_) (.pure (by simpa [After] using Comparison.sum hleft))
    rw [hs', ho]
    rfl
  | some o =>
    have hgrammar := comparisonOp?_eq_some_iff.1 ho
    have hne : rest.token ≠ .endOfInput := ne_endOfInput_of_op rfl ho
    refine .congr (q := fun s => do
      let s ← s.advance
      let (right, s) ← leftAssociative additiveOp? (leftAssociative multiplicativeOp? operand) s
      return (.binary o left right, s)) (fun s' hs' => by rw [hs', ho]) ?_
    have hmore : Viable (After (Comparison O) ts) [rest.token] := by
      obtain ⟨us, e, hus, he⟩ := hviable
      exact ⟨us, _, hus, .comparison hleft hgrammar (.single (.single he))⟩
    refine .advance rfl hne hmore fun _ =>
      (ending_sum hoperand hviable).map (fun _ _ => rfl) fun hright => ?_
    simpa [After] using Comparison.comparison hleft hgrammar hright

end Sums

/-! ## Nesting -/

theorem viable_anyOperand : Viable AnyOperand [] :=
  ⟨[.null], _, by decide, .unary (.power (.base (.primary (.literal .null))))⟩

theorem viable_anyFormula : Viable AnyFormula [] :=
  viable_anyOperand.bind fun h => viable_of_phrase (.sum (.single (.single h)))

theorem ending_operand (nesting : Nat) : Ending (operand nesting) AnyOperand s := by
  induction nesting generalizing s with
  | zero => exact .fail .tooDeep viable_anyOperand
  | succ nesting ih =>
    refine .ite (fun hminus => ?_) fun _ => ?_
    · have hsign : Viable AnyOperand [.minus] := by
        obtain ⟨us, e, hus, he⟩ := viable_anyOperand
        exact ⟨us, _, hus, .unary (.negate he)⟩
      exact .advance hminus (by simp) hsign fun _ =>
        ih.map (fun _ _ => rfl) fun h => AnyOperand.unary (.negate h)
    · exact (ending_power (ending_comparison ih viable_anyOperand) viable_anyFormula ih
        viable_anyOperand).mono fun h => .unary (.power h)

/-- A whole formula, after the first token has been read. -/
theorem ending_formula : Ending (fun s => do
    let (e, s) ← comparison (operand maxNesting) s
    if s.token = .endOfInput then return (e, s) else unexpected .afterExpression s)
      AnyFormula s := by
  refine (ending_comparison (ending_operand maxNesting) viable_anyOperand).bind viable_of_phrase ?_
  intro ts e _ _ h
  have hphrase : After AnyFormula ts [] e := by simpa [After, AnyFormula] using h
  exact .ite (fun _ => .pure hphrase) fun _ =>
    .unexpected .afterExpression (viable_of_phrase hphrase)

end Parser

end FormulaPipeline
