import FormulaPipeline.Proofs.Formula.Diagnosis
import FormulaPipeline.Proofs.Formula.Recasing

/-!
# Parsers do not see the case of words

On sequences of tokens that differ in the spelling of words that count in any case, every parser
fails at the same place or takes the same tokens. The expressions then differ in the spelling of the
functions that they call. A word that is taken for a name of another kind has a parenthesis behind
it, and there both readers are stuck.
-/

namespace FormulaPipeline

/-! ## Expressions up to the spelling of function names -/

namespace Expr

mutual

/-- The expression with the names of functions in upper case. -/
def folded : Expr → Expr
  | .literal value type => .literal value type
  | .field name filter => .field name filter
  | .node name filter => .node name filter
  | .property source name => .property (folded source) name
  | .aggregation source mode projected separator =>
    .aggregation (folded source) mode projected separator
  | .call name args => .call (Text.asciiUpper name) (foldedAll args)
  | .binary op left right => .binary op (folded left) (folded right)
  | .negate operand => .negate (folded operand)

def foldedAll : List Expr → List Expr
  | [] => []
  | e :: rest => folded e :: foldedAll rest

end

/-- The same expression but for the spelling of function names. -/
def SameFolded (e e' : Expr) : Prop := folded e' = folded e

def SameFoldedAll (es es' : List Expr) : Prop := foldedAll es' = foldedAll es

variable {e e' l l' : Expr} {es es' : List Expr}

theorem SameFolded.property (h : SameFolded e e') (name : String) :
    SameFolded (.property e name) (.property e' name) := by
  rw [SameFolded, folded, folded, h]

theorem SameFolded.aggregation (h : SameFolded e e') (mode : Aggregation)
    (property separator : Option String) :
    SameFolded (.aggregation e mode property separator)
      (.aggregation e' mode property separator) := by
  rw [SameFolded, folded, folded, h]

theorem SameFolded.call {a b : String} (hname : Text.asciiUpper b = Text.asciiUpper a)
    (h : SameFoldedAll es es') : SameFolded (.call a es) (.call b es') := by
  rw [SameFolded, folded, folded, h, hname]

theorem SameFolded.binary (op : BinaryOp) (hleft : SameFolded e e') (hright : SameFolded l l') :
    SameFolded (.binary op e l) (.binary op e' l') := by
  rw [SameFolded, folded, folded, hleft, hright]

theorem SameFolded.negate (h : SameFolded e e') : SameFolded (.negate e) (.negate e') := by
  rw [SameFolded, folded, folded, h]

theorem SameFoldedAll.cons (h : SameFolded e e') (hrest : SameFoldedAll es es') :
    SameFoldedAll (e :: es) (e' :: es') := by
  rw [SameFoldedAll, foldedAll, foldedAll, h, hrest]

theorem foldedAll_append (es : List Expr) :
    foldedAll (es ++ es') = foldedAll es ++ foldedAll es' := by
  induction es with
  | nil => rfl
  | cons e es ih => rw [List.cons_append, foldedAll, foldedAll, ih, List.cons_append]

theorem SameFoldedAll.append {ls ls' : List Expr} (h : SameFoldedAll es es')
    (hrest : SameFoldedAll ls ls') : SameFoldedAll (es ++ ls) (es' ++ ls') := by
  rw [SameFoldedAll, foldedAll_append, foldedAll_append, h, hrest]

end Expr

theorem Matching.bind {α β : Type} {R : α → α → Prop} {T : β → β → Prop}
    {x y : Except SyntaxError α} {f g : α → Except SyntaxError β} (h : Matching R x y)
    (hnext : ∀ {a b}, x = .ok a → R a b → Matching T (f a) (g b)) :
    Matching T (x >>= f) (y >>= g) := by
  cases h with
  | fault h => exact .fault h
  | done h => exact hnext rfl h

/-! ## Places in sequences -/

/-- Names may be spelled in another case; nothing else may. -/
def Token.isName : Token → Bool
  | .word _ | .field _ => true
  | _ => false

namespace Lexemes

/-- Behind the first token a parenthesis opens, unless the text ends there. -/
def OpensNext (s : Lexemes) : Prop := ∀ r, s.advance = .ok r → r.token = .openParen

namespace Recased

variable {role : Role} {s s' : Lexemes}

theorem position_eq (h : s.Recased role s') : s'.position = s.position := by
  cases h with
  | nil => rfl
  | fault h => exact h
  | cons => rfl

theorem length_eq (h : s.Recased role s') : s'.length = s.length := by
  induction h with
  | nil => rfl
  | fault => rfl
  | cons _ _ ih => rw [length, length, ih]

theorem advance (h : s.Recased role s') :
    Matching (Recased (role.next s.token)) s.advance s'.advance := by
  cases h with
  | nil => exact .done (.nil _)
  | fault h => exact .fault h
  | cons _ hrest =>
    cases hrest with
    | nil => exact .done (.nil _)
    | fault h => exact .fault h
    | cons htoken hrest => exact .done (.cons htoken hrest)

theorem check (h : s.Recased role s') : Matching (Recased role) s.check s'.check := by
  cases h with
  | nil => exact .done (.nil _)
  | fault h => exact .fault h
  | cons htoken hrest => exact .done (.cons htoken hrest)

/-- The first tokens are the same, or names in different spelling: the operator of a filter, or a
name behind which a parenthesis opens. -/
theorem token_cases (h : s.Recased role s') :
    s'.token = s.token ∨ ∃ a b, Text.asciiUpper b = Text.asciiUpper a ∧
      (s.token = .word a ∧ s'.token = .word b ∧ (role = .filterTest ∨ s.OpensNext) ∨
        s.token = .field a ∧ s'.token = .field b ∧ role = .member ∧ s.OpensNext) := by
  cases h with
  | nil => exact .inl rfl
  | fault => exact .inl rfl
  | @cons _ start t u rest rest' htoken hrest =>
    obtain rfl | ⟨hcase, htoken⟩ := htoken
    · exact .inl rfl
    have hopens (hnext : rest.token = .openParen) : (Lexemes.cons start t rest).OpensNext := by
      rintro r hr
      obtain ⟨-, rfl⟩ := check_eq_ok_iff.1 hr
      exact hnext
    cases htoken with
    | refl => exact .inl rfl
    | @word a b hname =>
      simp only [Token.isCaseless, Bool.or_eq_true, decide_eq_true_eq] at hcase
      exact .inr ⟨a, b, hname, .inl ⟨rfl, rfl, hcase.imp_right hopens⟩⟩
    | @field a b hname =>
      simp only [Token.isCaseless, Bool.and_eq_true, decide_eq_true_eq] at hcase
      exact .inr ⟨a, b, hname, .inr ⟨rfl, rfl, hcase.1, hopens hcase.2⟩⟩
    | node => cases hcase
    | text => cases hcase

/-- Where neither the operator of a filter nor a member is read, only words before a parenthesis
differ. -/
theorem word_cases (h : s.Recased role s') (htest : role ≠ .filterTest) (hmember : role ≠ .member) :
    s'.token = s.token ∨ ∃ a b, Text.asciiUpper b = Text.asciiUpper a ∧
      s.token = .word a ∧ s'.token = .word b ∧ s.OpensNext := by
  obtain heq | ⟨a, b, hname, ⟨ha, hb, hopens⟩ | ⟨-, -, hrole, -⟩⟩ := h.token_cases
  · exact .inl heq
  · exact .inr ⟨a, b, hname, ha, hb, hopens.resolve_left htest⟩
  · exact (hmember hrole).elim

/-- What does not depend on the spelling of names is the same for both tokens. -/
theorem token_congr {β : Type} {f : Token → β} (h : s.Recased role s')
    (hword : ∀ a b, f (.word b) = f (.word a)) (hfield : ∀ a b, f (.field b) = f (.field a)) :
    f s'.token = f s.token := by
  obtain heq | ⟨a, b, -, ⟨ha, hb, -⟩ | ⟨ha, hb, -⟩⟩ := h.token_cases
  · rw [heq]
  · rw [ha, hb, hword]
  · rw [ha, hb, hfield]

theorem token_eq_iff {t : Token} (h : s.Recased role s') (ht : t.isName = false) :
    s'.token = t ↔ s.token = t := by
  have hname {u : Token} (hu : u.isName = true) : u ≠ t := by
    rintro rfl
    simp [ht] at hu
  refine Eq.to_iff (h.token_congr (f := (· = t)) (fun a b => ?_) fun a b => ?_)
  · rw [eq_false (hname rfl), eq_false (hname rfl)]
  · rw [eq_false (hname rfl), eq_false (hname rfl)]

end Recased

end Lexemes

namespace Parser

open FormulaPipeline.Expr (SameFolded SameFoldedAll)

variable {α : Type} {R : α → α → Prop} {role role' : Role} {s s' : Lexemes}

/-- What has been read is related, and the rests differ in the case of words only. -/
def Read (R : α → α → Prop) (role : Role) (x y : α × Lexemes) : Prop :=
  R x.1 y.1 ∧ x.2.Recased role y.2

/-- A name has been read, and its spelling counts unless a parenthesis follows. -/
def ReadName (role : Role) (x y : α × Lexemes) : Prop :=
  (y.1 = x.1 ∨ x.2.token = .openParen) ∧ x.2.Recased role y.2

/-- A parser that reads the same, up to a relation, from sequences that differ in the case of words
only. -/
def Caseless (R : α → α → Prop) (p : Parser α) : Prop :=
  ∀ {s s'}, s.Recased .operand s' → Matching (Read R .operand) (p s) (p s')

theorem read_bind {β : Type} {T : β → β → Prop} {x y : Except SyntaxError (α × Lexemes)}
    {f g : α × Lexemes → Except SyntaxError β} (h : Matching (Read R role) x y)
    (hnext : ∀ {a b s s'}, R a b → s.Recased role s' → Matching T (f (a, s)) (g (b, s'))) :
    Matching T (x >>= f) (y >>= g) :=
  h.bind fun _ hread => hnext hread.1 hread.2

theorem matching_fail {fault fault' : SyntaxFault} (h : s.Recased role s') :
    Matching R (fail fault s) (fail fault' s') :=
  .fault h.position_eq

theorem matching_unexpected {place : Place} (h : s.Recased role s') :
    Matching R (unexpected place s) (unexpected place s') :=
  matching_fail h

/-- A choice by the first token. -/
theorem matching_ite {t : Token} {x x' y y' : Except SyntaxError α} (ht : t.isName = false)
    (h : s.Recased role s') (hthen : s.token = t → Matching R x x')
    (helse : s.token ≠ t → Matching R y y') :
    Matching R (if s.token = t then x else y) (if s'.token = t then x' else y') := by
  by_cases htoken : s.token = t
  · rw [if_pos htoken, if_pos ((h.token_eq_iff ht).2 htoken)]
    exact hthen htoken
  · rw [if_neg htoken, if_neg (mt (h.token_eq_iff ht).1 htoken)]
    exact helse htoken

theorem matching_advance {f g : Lexemes → Except SyntaxError α} (role' : Role)
    (h : s.Recased role s')
    (hrole : role.next s.token = role')
    (hnext : ∀ {r r'}, s.advance = .ok r → r.Recased role' r' → Matching R (f r) (g r')) :
    Matching R (s.advance >>= f) (s'.advance >>= g) :=
  h.advance.bind fun hr h => hnext hr (hrole ▸ h)

theorem matching_expect {t : Token} (ht : t.isName = false) (h : s.Recased role s') :
    Matching (Lexemes.Recased (role.next t)) (expect t s) (expect t s') := by
  refine matching_ite ht h (fun htoken => ?_) fun _ => matching_fail h
  rw [← htoken]
  exact h.advance

theorem matching_taken {a b : α} (h : s.Recased role s') (hrole : role.next s.token = role')
    (hab : R a b) :
    Matching (Read R role') (do return (a, ← s.advance)) (do return (b, ← s'.advance)) :=
  matching_advance role' h hrole fun _ h => .done ⟨hab, h⟩

theorem matching_name {a b : α} (h : s.Recased role s') (hrole : role.next s.token = role')
    (hab : b = a ∨ s.OpensNext) :
    Matching (ReadName role') (do return (a, ← s.advance)) (do return (b, ← s'.advance)) :=
  matching_advance role' h hrole fun hr h => .done ⟨hab.imp_right fun hopens => hopens _ hr, h⟩

/-- A parenthesis is no part of what is read, so both readers fail at it. -/
theorem matching_stuck {β : Type} {T : β → β → Prop} {p : Parser α} {fault : SyntaxFault}
    {f g : α × Lexemes → Except SyntaxError β} (h : s.Recased role s') (hp : p s = fail fault s)
    (hp' : p s' = fail fault s') : Matching T (p s >>= f) (p s' >>= g) := by
  rw [hp, hp']
  exact .fault h.position_eq

/-! ## Filters -/

theorem matching_filterField (h : s.Recased .filterField s') :
    Matching (ReadName .filterTest) (filterField s) (filterField s') := by
  unfold filterField
  obtain heq | ⟨a, b, -, ha, hb, hopens⟩ := h.word_cases (by decide) (by decide)
  · rw [heq]
    cases s.token with
    | word name => exact matching_name h rfl (.inl rfl)
    | text t => exact matching_name h rfl (.inl rfl)
    | field name => exact matching_name h rfl (.inl rfl)
    | _ => exact matching_unexpected h
  · rw [ha, hb]
    exact matching_name h rfl (.inr hopens)

theorem comparisonTest?_eq (h : s.Recased role s') :
    comparisonTest? s'.token = comparisonTest? s.token := by
  obtain heq | ⟨a, b, hname, ⟨ha, hb, -⟩ | ⟨ha, hb, -⟩⟩ := h.token_cases
  · rw [heq]
  · rw [ha, hb, comparisonTest?, comparisonTest?, Test.ofName?, Test.ofName?,
      Text.asciiLower_congr hname]
  · rw [ha, hb]
    rfl

theorem matching_filterTest (h : s.Recased .filterTest s') :
    Matching (Read Eq .operand) (filterTest s) (filterTest s') := by
  unfold filterTest
  rw [comparisonTest?_eq h]
  split
  · rename_i test htest
    refine matching_taken h ?_ rfl
    generalize s.token = t at htest
    cases t <;> first | rfl | cases htest
  · exact matching_unexpected h

theorem matching_filterValue (h : s.Recased .operand s') :
    Matching (ReadName .operand) (filterValue s) (filterValue s') := by
  refine matching_ite rfl h (fun hminus => ?_) fun _ => ?_
  · refine matching_advance .operand h (hminus ▸ rfl) fun {s s'} _ h => ?_
    obtain heq | ⟨a, b, -, ha, hb, -⟩ := h.word_cases (by decide) (by decide)
    · rw [heq]
      cases htoken : s.token with
      | int n => exact matching_name h (htoken ▸ rfl) (.inl rfl)
      | float x => exact matching_name h (htoken ▸ rfl) (.inl rfl)
      | _ => exact matching_unexpected h
    · rw [ha, hb]
      exact matching_unexpected h
  · obtain heq | ⟨a, b, -, ha, hb, hopens⟩ := h.word_cases (by decide) (by decide)
    · rw [heq]
      cases htoken : s.token with
      | int n => exact matching_name h (htoken ▸ rfl) (.inl rfl)
      | float x => exact matching_name h (htoken ▸ rfl) (.inl rfl)
      | text t => exact matching_name h (htoken ▸ rfl) (.inl rfl)
      | bool b => exact matching_name h (htoken ▸ rfl) (.inl rfl)
      | null => exact matching_name h (htoken ▸ rfl) (.inl rfl)
      | word name => exact matching_name h (htoken ▸ rfl) (.inl rfl)
      | _ => exact matching_unexpected h
    · rw [ha, hb]
      exact matching_name h (ha ▸ rfl) (.inr hopens)

theorem filterTest_of_openParen (h : s.token = .openParen) :
    filterTest s = fail (.unexpected .openParen .filterOperator) s := by
  rw [filterTest, h, unexpected, h]
  rfl

theorem caseless_filter : Caseless Eq filter := by
  intro s s' h
  refine (matching_expect rfl h).bind fun _ h => ?_
  refine (matching_filterField h).bind fun {x y} _ hfield => ?_
  obtain ⟨field, s⟩ := x
  obtain ⟨field', s'⟩ := y
  obtain ⟨hsame, h⟩ := hfield
  obtain rfl | hopens := hsame
  · refine read_bind (matching_filterTest h) fun {test test' s s'} htest h => ?_
    subst htest
    have hclose {x y : Value × Lexemes} (h : ReadName .operand x y) :
        Matching (Read Eq .operand)
          (do return (Condition.mk field' test x.1, ← expect .closeBracket x.2))
          (do return (Condition.mk field' test y.1, ← expect .closeBracket y.2)) := by
      obtain ⟨hvalue | hopens, h⟩ := h
      · rw [hvalue]
        exact (matching_expect rfl h).bind fun _ h => .done ⟨rfl, h⟩
      · simp only [expect, hopens, (h.token_eq_iff rfl).2 hopens]
        exact matching_fail h
    dsimp only
    split
    · exact (matching_filterValue h).bind fun _ hvalue => hclose hvalue
    · exact hclose (x := (.null, s)) (y := (.null, s')) ⟨.inl rfl, h⟩
  · exact matching_stuck h (filterTest_of_openParen hopens)
      (filterTest_of_openParen ((h.token_eq_iff rfl).2 hopens))

theorem caseless_optionalFilter : Caseless Eq optionalFilter := by
  intro s s' h
  refine matching_ite rfl h (fun _ => ?_) fun _ => .done ⟨rfl, h⟩
  exact read_bind (caseless_filter h) fun hcondition h => .done ⟨congrArg some hcondition, h⟩

/-! ## Arguments -/

section Calls

variable {expression : Parser Expr} (hexpression : Caseless SameFolded expression)
include hexpression

theorem caseless_arguments (fuel : Nat) : Caseless SameFoldedAll (arguments expression fuel) := by
  induction fuel with
  | zero => exact fun h => matching_fail h
  | succ fuel ih =>
    intro s s' h
    refine read_bind (hexpression h) fun {first first' s s'} hfirst h => ?_
    refine matching_ite rfl h (fun hcomma => ?_) fun _ => .done ⟨.cons hfirst rfl, h⟩
    refine matching_advance .operand h (hcomma ▸ rfl) fun _ h => ?_
    exact read_bind (ih h) fun hothers h => .done ⟨.cons hfirst hothers, h⟩

theorem caseless_callArguments : Caseless SameFoldedAll (callArguments expression) := by
  intro s s' h
  refine (matching_expect rfl h).bind fun {s s'} _ h => ?_
  refine matching_ite rfl h (fun hclose => matching_taken h (hclose ▸ rfl) rfl) fun _ => ?_
  rw [h.length_eq]
  refine read_bind (caseless_arguments hexpression _ h) fun hargs h => ?_
  exact (matching_expect rfl h).bind fun _ h => .done ⟨hargs, h⟩

end Calls

theorem role_next_item {known next : Option String × Option String} {t : Token}
    (h : Grammar.Item known t next) : Role.next .operand t = .operand := by
  cases h with
  | property hname => cases hname <;> rfl
  | separator => rfl

theorem caseless_aggregationLoop (fuel : Nat) (property separator : Option String) :
    Caseless Eq (aggregationLoop fuel property separator) := by
  induction fuel generalizing property separator with
  | zero => exact fun h => matching_fail h
  | succ fuel ih =>
    intro s s' h
    by_cases hclose : s.token = .closeParen
    · rw [aggregationLoop, aggregationLoop, if_pos hclose, if_pos ((h.token_eq_iff rfl).2 hclose)]
      exact matching_taken h (hclose ▸ rfl) rfl
    have hclose' : s'.token ≠ .closeParen := mt (h.token_eq_iff rfl).1 hclose
    obtain heq | ⟨a, b, -, ha, hb, hopens⟩ := h.word_cases (by decide) (by decide)
    · by_cases hitem : ∃ next, Grammar.Item (property, separator) s.token next
      · obtain ⟨next, hitem⟩ := hitem
        rw [aggregationLoop_item hitem, aggregationLoop_item (heq.symm ▸ hitem)]
        refine matching_advance .operand h (role_next_item hitem) fun {s s'} _ h => ?_
        refine matching_ite rfl h (fun hcomma => ?_) fun _ => ?_
        · exact matching_advance .operand h (hcomma ▸ rfl) fun _ h => ih _ _ h
        · exact matching_ite rfl h (fun _ => ih _ _ h) fun _ => matching_unexpected h
      · rw [not_exists] at hitem
        rw [aggregationLoop_unexpected hclose hitem,
          aggregationLoop_unexpected hclose' (heq.symm ▸ hitem)]
        exact matching_unexpected h
    · cases property with
      | none =>
        -- a name behind which a parenthesis opens is no property
        have hitem (name : String) : Grammar.Item (none, separator) (.word name)
            (some name, separator) := .property (.word name)
        rw [aggregationLoop_item (ha ▸ hitem a), aggregationLoop_item (hb ▸ hitem b)]
        refine h.advance.bind fun {s s'} hadvance h => ?_
        have hopen : s.token = .openParen := hopens s hadvance
        simp only [hopen, (h.token_eq_iff rfl).2 hopen]
        exact matching_unexpected h
      | some known =>
        have hitem (name : String) (next : Option String × Option String) :
            ¬Grammar.Item (some known, separator) (.word name) next := by
          rintro ⟨⟩
        rw [aggregationLoop_unexpected hclose (ha ▸ hitem a),
          aggregationLoop_unexpected hclose' (hb ▸ hitem b)]
        exact matching_unexpected h

theorem caseless_aggregationArguments : Caseless Eq aggregationArguments := by
  intro s s' h
  refine (matching_expect rfl h).bind fun {s s'} _ h => ?_
  rw [h.length_eq]
  exact caseless_aggregationLoop _ none none h

/-! ## Operands -/

theorem matching_literal {value : Value} {type : LiteralType} (h : s.Recased .operand s')
    (hrole : Role.next .operand s.token = .operand) :
    Matching (Read SameFolded .operand) (literal value type s) (literal value type s') :=
  matching_taken h hrole rfl

theorem caseless_filtered (f : Option Condition → Expr) :
    Caseless SameFolded fun s => do
      let (filter, s) ← optionalFilter s
      return (f filter, s) :=
  fun h => read_bind (caseless_optionalFilter h) fun hfilter h => .done ⟨hfilter ▸ rfl, h⟩

/-- The name behind a dot counts in any case if it is the name of a method or an aggregation. -/
theorem matching_memberName (h : s.Recased .member s') :
    Matching (fun x y => Text.asciiUpper y.1 = Text.asciiUpper x.1 ∧ ReadName .operand x y)
      (memberName s) (memberName s') := by
  unfold memberName
  obtain heq | ⟨a, b, hname, ⟨ha, hb, hopens⟩ | ⟨ha, hb, -, hopens⟩⟩ := h.token_cases
  · rw [heq]
    cases htoken : s.token with
    | word name =>
      exact matching_advance .operand h (htoken ▸ rfl) fun _ h => .done ⟨rfl, .inl rfl, h⟩
    | field name =>
      exact matching_advance .operand h (htoken ▸ rfl) fun _ h => .done ⟨rfl, .inl rfl, h⟩
    | _ => exact matching_unexpected h
  · rw [ha, hb]
    exact matching_advance .operand h (ha ▸ rfl) fun hr h =>
      .done ⟨hname, .inr (hopens.resolve_left (by simp) _ hr), h⟩
  · rw [ha, hb]
    exact matching_advance .operand h (ha ▸ rfl) fun hr h => .done ⟨hname, .inr (hopens _ hr), h⟩

section Levels

variable {expression operand : Parser Expr} (hexpression : Caseless SameFolded expression)
include hexpression

theorem matching_call {a b : String} (hname : Text.asciiUpper b = Text.asciiUpper a)
    (receivers receivers' : List Expr) (hreceivers : SameFoldedAll receivers receivers')
    (h : s.Recased .operand s') :
    Matching (Read SameFolded .operand)
      (do let (args, s) ← callArguments expression s; return (.call a (receivers ++ args), s))
      (do let (args, s) ← callArguments expression s'; return (.call b (receivers' ++ args), s)) :=
  read_bind (caseless_callArguments hexpression h) fun hargs h =>
    .done ⟨.call hname (hreceivers.append hargs), h⟩

theorem caseless_primary : Caseless SameFolded (primary expression) := by
  intro s s' h
  unfold primary
  obtain heq | ⟨a, b, hname, ha, hb, hopens⟩ := h.word_cases (by decide) (by decide)
  · rw [heq]
    cases htoken : s.token with
    | float x => exact matching_literal h (htoken ▸ rfl)
    | int n => exact matching_literal h (htoken ▸ rfl)
    | text t => exact matching_literal h (htoken ▸ rfl)
    | bool b => exact matching_literal h (htoken ▸ rfl)
    | null => exact matching_literal h (htoken ▸ rfl)
    | field name =>
      exact matching_advance .operand h (htoken ▸ rfl) fun _ h => caseless_filtered (.field name) h
    | node name =>
      exact matching_advance .operand h (htoken ▸ rfl) fun _ h => caseless_filtered (.node name) h
    | word name =>
      refine matching_advance .operand h (htoken ▸ rfl) fun _ h => ?_
      exact matching_ite rfl h (fun _ => matching_call hexpression rfl [] [] rfl h)
        fun _ => caseless_filtered (.field name) h
    | openParen =>
      refine matching_advance .operand h (htoken ▸ rfl) fun _ h => ?_
      refine read_bind (hexpression h) fun he h => ?_
      exact (matching_expect rfl h).bind fun _ h => .done ⟨he, h⟩
    | _ => exact matching_unexpected h
  · -- a word in another case is the name of a function, never of a field
    rw [ha, hb]
    refine matching_advance .operand h (ha ▸ rfl) fun {s s'} hs h => ?_
    have hopen : s.token = .openParen := hopens s hs
    exact matching_ite rfl h
      (fun _ => matching_call hexpression hname [] [] rfl h) fun hne => (hne hopen).elim

theorem matching_member {receiver receiver' : Expr} (hreceiver : SameFolded receiver receiver')
    {a b : String} (hname : Text.asciiUpper b = Text.asciiUpper a)
    (hsame : b = a ∨ s.token = .openParen) (h : s.Recased .operand s') :
    Matching (Read SameFolded .operand) (member expression receiver a s)
      (member expression receiver' b s') := by
  refine matching_ite rfl h (fun _ => ?_) fun hnot => ?_
  · have hmode : Aggregation.ofName? b = Aggregation.ofName? a := by
      rw [Aggregation.ofName?, Aggregation.ofName?, hname]
    rw [hmode]
    split
    · refine read_bind (caseless_aggregationArguments h) fun {x y s s'} hitems h => ?_
      subst hitems
      exact .done ⟨hreceiver.aggregation _ _ _, h⟩
    · exact matching_call hexpression hname [receiver] [receiver'] (.cons hreceiver rfl) h
  · obtain rfl := hsame.resolve_right hnot
    exact .done ⟨hreceiver.property _, h⟩

theorem matching_members (fuel : Nat) {e e' : Expr} (he : SameFolded e e')
    (h : s.Recased .operand s') :
    Matching (Read SameFolded .operand) (members expression fuel e s)
      (members expression fuel e' s') := by
  induction fuel generalizing e e' s s' with
  | zero => exact .done ⟨he, h⟩
  | succ fuel ih =>
    refine matching_ite rfl h (fun hdot => ?_) fun _ => .done ⟨he, h⟩
    refine matching_advance .member h (hdot ▸ rfl) fun _ h => ?_
    refine (matching_memberName h).bind fun _ ⟨hname, hsame, h⟩ => ?_
    exact read_bind (matching_member hexpression he hname hsame h) fun he h => ih he h

theorem caseless_postfixed : Caseless SameFolded (postfixed expression) := by
  intro s s' h
  refine read_bind (caseless_primary hexpression h) fun he h => ?_
  dsimp only
  rw [h.length_eq]
  exact matching_members hexpression _ he h

theorem caseless_power (hoperand : Caseless SameFolded operand) :
    Caseless SameFolded (power expression operand) := by
  intro s s' h
  refine read_bind (caseless_postfixed hexpression h) fun hbase h => ?_
  refine matching_ite rfl h (fun hcaret => ?_) fun _ => .done ⟨hbase, h⟩
  refine matching_advance .operand h (hcaret ▸ rfl) fun _ h => ?_
  exact read_bind (hoperand h) fun he h => .done ⟨.binary .power hbase he, h⟩

end Levels

/-! ## Operators -/

/-- Operators are signs: none is a name, and none gives the token behind it a role. -/
structure Signs (op? : Token → Option BinaryOp) : Prop where
  word : ∀ name, op? (.word name) = none
  field : ∀ name, op? (.field name) = none
  role : ∀ {t op}, op? t = some op → Role.next .operand t = .operand

theorem signs_multiplicative : Signs multiplicativeOp? where
  word _ := rfl
  field _ := rfl
  role {t _} h := by cases t <;> first | rfl | cases h

theorem signs_additive : Signs additiveOp? where
  word _ := rfl
  field _ := rfl
  role {t _} h := by cases t <;> first | rfl | cases h

theorem signs_comparison : Signs comparisonOp? where
  word _ := rfl
  field _ := rfl
  role {t _} h := by cases t <;> first | rfl | cases h

theorem Signs.congr {op? : Token → Option BinaryOp} (hop : Signs op?) (h : s.Recased role s') :
    op? s'.token = op? s.token :=
  h.token_congr (fun a b => by rw [hop.word, hop.word]) fun a b => by rw [hop.field, hop.field]

theorem matching_chain {op? : Token → Option BinaryOp} {operand : Parser Expr} (hop : Signs op?)
    (hoperand : Caseless SameFolded operand) (fuel : Nat) {left left' : Expr}
    (hleft : SameFolded left left') (h : s.Recased .operand s') :
    Matching (Read SameFolded .operand) (chain op? operand fuel left s)
      (chain op? operand fuel left' s') := by
  induction fuel generalizing left left' s s' with
  | zero => exact .done ⟨hleft, h⟩
  | succ fuel ih =>
    unfold chain
    rw [hop.congr h]
    split
    · rename_i op htoken
      refine matching_advance .operand h (hop.role htoken) fun _ h => ?_
      refine read_bind (hoperand h) fun hright h => ?_
      exact ih (.binary op hleft hright) h
    · exact .done ⟨hleft, h⟩

theorem caseless_leftAssociative {op? : Token → Option BinaryOp} {operand : Parser Expr}
    (hop : Signs op?) (hoperand : Caseless SameFolded operand) :
    Caseless SameFolded (leftAssociative op? operand) := by
  intro s s' h
  refine read_bind (hoperand h) fun hleft h => ?_
  dsimp only
  rw [h.length_eq]
  exact matching_chain hop hoperand _ hleft h

theorem caseless_comparison {operand : Parser Expr} (hoperand : Caseless SameFolded operand) :
    Caseless SameFolded (comparison operand) := by
  intro s s' h
  have hsum : Caseless SameFolded
      (leftAssociative additiveOp? (leftAssociative multiplicativeOp? operand)) :=
    caseless_leftAssociative signs_additive (caseless_leftAssociative signs_multiplicative hoperand)
  refine read_bind (hsum h) fun hleft h => ?_
  dsimp only
  rw [signs_comparison.congr h]
  split
  · rename_i op htoken
    refine matching_advance .operand h (signs_comparison.role htoken) fun _ h => ?_
    exact read_bind (hsum h) fun hright h => .done ⟨.binary op hleft hright, h⟩
  · exact .done ⟨hleft, h⟩

theorem caseless_operand (nesting : Nat) : Caseless SameFolded (operand nesting) := by
  induction nesting with
  | zero => exact fun h => matching_fail h
  | succ nesting ih =>
    intro s s' h
    refine matching_ite rfl h (fun hminus => ?_)
      fun _ => caseless_power (caseless_comparison ih) ih h
    refine matching_advance .operand h (hminus ▸ rfl) fun _ h => ?_
    exact read_bind (ih h) fun he h => .done ⟨he.negate, h⟩

theorem matching_formula (h : s.Recased .operand s') :
    Matching (fun x y => SameFolded x.1 y.1) (formula s) (formula s') := by
  refine h.check.bind fun _ h => ?_
  refine read_bind (caseless_comparison (caseless_operand _) h) fun he h => ?_
  exact matching_ite rfl h (fun _ => .done he) fun _ => matching_unexpected h

end Parser

/-- Texts that differ in words that count in any case are refused at the same place, or they write
expressions that differ in the spelling of function names. -/
theorem Expr.parse_recased {text text' : String} (h : Formula.Recased text text') :
    Matching Expr.SameFolded (Expr.parse text) (Expr.parse text') :=
  (Parser.matching_formula h.lexemes).map id

end FormulaPipeline
