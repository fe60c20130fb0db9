import FormulaPipeline.Proofs.Formula.Resuming
import Mathlib.Data.List.Forall2

/-!
# Texts that differ in the case of letters

Letters are told apart in names and quoted texts only, so a text with its ASCII letters in another
case is cut into tokens at the same places. Where the case is changed in words that count in any
case, the tokens differ in the spelling of these words only.
-/

namespace FormulaPipeline

namespace Text

/-! ## Upper and lower case of ASCII letters -/

variable {c d : Char}

theorem toNat_toUpper (c : Char) :
    c.toUpper.toNat = if 97 ≤ c.toNat ∧ c.toNat ≤ 122 then c.toNat - 32 else c.toNat := by
  have hbound : c.toNat < 4294967296 := c.val.toNat_lt
  have hrange : ('a'.val ≤ c.val ∧ c.val ≤ 'z'.val) ↔ 97 ≤ c.toNat ∧ c.toNat ≤ 122 := by
    simp [UInt32.le_iff_toNat_le]
  unfold Char.toUpper
  by_cases h : 97 ≤ c.toNat ∧ c.toNat ≤ 122
  · rw [dif_pos (hrange.2 h), if_pos h]
    change (c.val + ('A'.val - 'a'.val)).toNat = c.val.toNat - 32
    rw [UInt32.toNat_add]
    change (c.toNat + 4294967264) % 4294967296 = c.toNat - 32
    omega
  · rw [dif_neg (mt hrange.1 h), if_neg h]

theorem toNat_toLower (c : Char) :
    c.toLower.toNat = if 65 ≤ c.toNat ∧ c.toNat ≤ 90 then c.toNat + 32 else c.toNat := by
  have hrange : (c.val ≥ 'A'.val ∧ c.val ≤ 'Z'.val) ↔ 65 ≤ c.toNat ∧ c.toNat ≤ 90 := by
    simp [UInt32.le_iff_toNat_le]
  unfold Char.toLower
  by_cases h : 65 ≤ c.toNat ∧ c.toNat ≤ 90
  · rw [dif_pos (hrange.2 h), if_pos h]
    change (c.val + ('a'.val - 'A'.val)).toNat = c.val.toNat + 32
    rw [UInt32.toNat_add]
    change (c.toNat + 32) % 4294967296 = c.toNat + 32
    omega
  · rw [dif_neg (mt hrange.1 h), if_neg h]

theorem toNat_inj : c.toNat = d.toNat ↔ c = d := by
  rw [Char.toNat, Char.toNat, UInt32.toNat_inj, Char.val_inj]

theorem isAlpha_iff (c : Char) :
    c.isAlpha = true ↔ (65 ≤ c.toNat ∧ c.toNat ≤ 90) ∨ (97 ≤ c.toNat ∧ c.toNat ≤ 122) := by
  change (decide (c.val ≥ 'A'.val ∧ c.val ≤ 'Z'.val) ||
    (decide (c.val ≥ 'a'.val) && decide (c.val ≤ 'z'.val))) = true ↔ _
  simp only [Bool.or_eq_true, Bool.and_eq_true, decide_eq_true_eq, ge_iff_le,
    UInt32.le_iff_toNat_le]
  exact .rfl

@[simp] theorem toUpper_toUpper (c : Char) : c.toUpper.toUpper = c.toUpper := by
  rw [← toNat_inj]
  grind [toNat_toUpper]

@[simp] theorem toLower_toUpper (c : Char) : c.toUpper.toLower = c.toLower := by
  rw [← toNat_inj]
  grind [toNat_toUpper, toNat_toLower]

/-- Only letters have more than one case. -/
theorem eq_or_isAlpha (h : d.toUpper = c.toUpper) :
    d = c ∨ c.isAlpha = true ∧ d.isAlpha = true := by
  rw [← toNat_inj, toNat_toUpper, toNat_toUpper] at h
  rw [← toNat_inj, isAlpha_iff, isAlpha_iff]
  grind

theorem eq_of_not_isAlpha (hc : c.isAlpha = false) (h : d.toUpper = c.toUpper) : d = c :=
  (eq_or_isAlpha h).resolve_right fun hletters => by simp [hc] at hletters

@[simp] theorem asciiUpper_asciiUpper (s : String) : asciiUpper (asciiUpper s) = asciiUpper s := by
  simp [asciiUpper, Function.comp_def]

@[simp] theorem asciiLower_asciiUpper (s : String) : asciiLower (asciiUpper s) = asciiLower s := by
  simp [asciiUpper, asciiLower, Function.comp_def]

theorem asciiLower_congr {a b : String} (h : asciiUpper b = asciiUpper a) :
    asciiLower b = asciiLower a := by
  rw [← asciiLower_asciiUpper, h, asciiLower_asciiUpper]

/-! ## Texts with the same letters -/

/-- The same characters, but for the case of ASCII letters. -/
def SameLetters (cs ds : List Char) : Prop := List.Forall₂ (fun c d => d.toUpper = c.toUpper) cs ds

namespace SameLetters

variable {cs ds rest : List Char}

theorem asciiUpper_eq (h : SameLetters cs ds) :
    asciiUpper (String.ofList ds) = asciiUpper (String.ofList cs) := by
  have hmap : ds.map Char.toUpper = cs.map Char.toUpper := by
    induction h with
    | nil => rfl
    | cons hc _ ih => rw [List.map_cons, List.map_cons, hc, ih]
  simp only [asciiUpper, String.toList_ofList, hmap]

theorem eq_of_not_isAlpha (hcs : ∀ c ∈ cs, c.isAlpha = false) (h : SameLetters cs ds) :
    ds = cs := by
  induction h with
  | nil => rfl
  | cons hc _ ih =>
    obtain ⟨hfirst, hrest⟩ := List.forall_mem_cons.1 hcs
    rw [Text.eq_of_not_isAlpha hfirst hc, ih hrest]

/-- What starts with a character that is no letter starts with it in any case. -/
theorem exists_cons (hc : c.isAlpha = false) (h : SameLetters (c :: cs) ds) :
    ∃ ds', ds = c :: ds' ∧ SameLetters cs ds' := by
  obtain ⟨d, ds', hd, hrest, rfl⟩ := List.forall₂_cons_left_iff.1 h
  obtain rfl := Text.eq_of_not_isAlpha hc hd
  exact ⟨ds', rfl, hrest⟩

/-- A character that is no letter comes first in both texts, or in neither. -/
theorem first_cases (c : Char) (hc : c.isAlpha = false) (h : SameLetters cs ds) :
    (∃ cs' ds', cs = c :: cs' ∧ ds = c :: ds' ∧ SameLetters cs' ds') ∨
      (∀ rest, cs = c :: rest → False) ∧ ∀ rest, ds = c :: rest → False := by
  by_cases hfirst : ∃ rest, cs = c :: rest
  · obtain ⟨rest, rfl⟩ := hfirst
    obtain ⟨ds', rfl, hrest⟩ := h.exists_cons hc
    exact .inl ⟨rest, ds', rfl, rfl, hrest⟩
  · right
    refine ⟨fun rest hrest => hfirst ⟨rest, hrest⟩, ?_⟩
    rintro rest rfl
    have hflip : SameLetters (c :: rest) cs := (h.imp fun _ _ => Eq.symm).flip
    obtain ⟨cs', hcs', -⟩ := hflip.exists_cons hc
    exact hfirst ⟨cs', hcs'⟩

theorem reverse (h : SameLetters cs ds) : SameLetters cs.reverse ds.reverse :=
  List.forall₂_reverse_iff.2 h

/-- A class of characters to which all ASCII letters belong, or none. -/
def Even (p : Char → Bool) : Prop := ∃ b, ∀ c : Char, c.isAlpha = true → p c = b

theorem Even.congr {p : Char → Bool} (hp : Even p) (h : d.toUpper = c.toUpper) : p d = p c := by
  obtain ⟨b, hb⟩ := hp
  obtain rfl | ⟨hc, hd⟩ := eq_or_isAlpha h
  · rfl
  · rw [hb c hc, hb d hd]

theorem takeWhile {p : Char → Bool} (hp : Even p) (h : SameLetters cs ds) :
    SameLetters (cs.takeWhile p) (ds.takeWhile p) := by
  induction h with
  | nil => exact .nil
  | @cons c d cs ds hc _ ih =>
    rw [List.takeWhile_cons, List.takeWhile_cons, hp.congr hc]
    split
    · exact .cons hc ih
    · exact .nil

theorem dropWhile {p : Char → Bool} (hp : Even p) (h : SameLetters cs ds) :
    SameLetters (cs.dropWhile p) (ds.dropWhile p) := by
  induction h with
  | nil => exact .nil
  | @cons c d cs ds hc hrest ih =>
    rw [List.dropWhile_cons, List.dropWhile_cons, hp.congr hc]
    split
    · exact ih
    · exact .cons hc hrest

theorem even_of_disjoint {p : Char → Bool} (hp : ∀ c, p c = true → c.isAlpha = false) : Even p := by
  refine ⟨false, fun c hc => ?_⟩
  by_contra hmem
  rw [hp c (by simpa using hmem)] at hc
  cases hc

theorem isAlpha_of_isBlank (c : Char) (h : isBlank c = true) : c.isAlpha = false := by
  by_contra hc
  rw [Bool.not_eq_false, isAlpha_iff] at hc
  simp only [isBlank, inRanges, blankRanges, List.any_cons, List.any_nil, Bool.or_false,
    Bool.or_eq_true, Bool.and_eq_true, decide_eq_true_eq] at h
  omega

theorem isAlpha_of_isDigit (c : Char) (h : c.isDigit = true) : c.isAlpha = false := by
  by_contra hc
  rw [Bool.not_eq_false, isAlpha_iff] at hc
  have hrange : 48 ≤ c.toNat ∧ c.toNat ≤ 57 := by
    simpa [Char.isDigit, UInt32.le_iff_toNat_le] using h
  omega

theorem even_isBlank : Even isBlank := even_of_disjoint isAlpha_of_isBlank

theorem even_isDigit : Even Char.isDigit := even_of_disjoint isAlpha_of_isDigit

theorem even_ne (hc : c.isAlpha = false) : Even (· != c) :=
  ⟨true, fun d hd => bne_iff_ne.2 fun heq => by simp [heq, hc] at hd⟩

theorem even_isNameStart : Even Lexer.isNameStart := by
  refine ⟨true, fun c hc => ?_⟩
  have hascii : c.toNat < 128 := by
    have hrange := (isAlpha_iff c).1 hc
    omega
  rw [Lexer.isNameStart, isAlphabetic, if_pos hascii, hc, Bool.true_or]

theorem even_isNameChar : Even Lexer.isNameChar := by
  obtain ⟨b, hb⟩ := even_isNameStart
  refine ⟨true, fun c hc => Lexer.isNameChar_of_isNameStart ?_⟩
  rw [hb c hc, ← hb 'a' rfl]
  decide

theorem trim (h : SameLetters cs ds) : SameLetters (Text.trim cs) (Text.trim ds) :=
  ((h.dropWhile even_isBlank).reverse.dropWhile even_isBlank).reverse

theorem isEmpty_eq (h : SameLetters cs ds) : ds.isEmpty = cs.isEmpty := by
  cases h <;> rfl

end SameLetters

end Text

/-! ## Scanners -/

/-- Two results of reading match: both are faults, at one place, or neither is and they are
related. -/
inductive Matching {α : Type} (R : α → α → Prop) :
    Except SyntaxError α → Except SyntaxError α → Prop
  | fault {e e' : SyntaxError} (h : e'.position = e.position) : Matching R (.error e) (.error e')
  | done {a b : α} (h : R a b) : Matching R (.ok a) (.ok b)

theorem Matching.map {α β : Type} {R : α → α → Prop} {T : β → β → Prop} {f : α → β}
    {x y : Except SyntaxError α} (h : Matching R x y) (hf : ∀ {a b}, R a b → T (f a) (f b)) :
    Matching T (x.map f) (y.map f) := by
  cases h with
  | fault h => exact .fault h
  | done h => exact .done (hf h)

/-- Two tokens may be written with the same letters. What an escape stands for depends on the case
of its letter, so nothing is said about quoted texts. -/
inductive Token.Akin : Token → Token → Prop
  | refl (t : Token) : Akin t t
  | word {a b : String} (h : Text.asciiUpper b = Text.asciiUpper a) : Akin (.word a) (.word b)
  | field {a b : String} (h : Text.asciiUpper b = Text.asciiUpper a) : Akin (.field a) (.field b)
  | node (a b : String) : Akin (.node a) (.node b)
  | text (a b : String) : Akin (.text a) (.text b)

namespace Lexer

open Text (SameLetters)
open Text.SameLetters

variable {position : Nat} {cs ds : List Char}

/-- Two scanners have taken what is related, and the same letters follow. -/
def Taken {α : Type} (R : α → α → Prop) (x y : α × List Char) : Prop :=
  R x.1 y.1 ∧ SameLetters x.2 y.2

theorem rel_map {α β : Type} {R : α → α → Prop} {T : β → β → Prop} {f g : α → β} {x y : Option α}
    (h : Option.Rel R x y) (hf : ∀ {a b}, R a b → T (f a) (g b)) :
    Option.Rel T (x.map f) (y.map g) := by
  cases h with
  | none => exact .none
  | some h => exact .some (hf h)

theorem quoted_matching {quote : Char} (hquote : quote.isAlpha = false) (hslash : quote ≠ '\\')
    (h : SameLetters cs ds) :
    Option.Rel (fun x y => SameLetters x.2 y.2) (quoted quote cs) (quoted quote ds) := by
  fun_induction quoted quote cs generalizing ds with
  | case1 =>
    cases h
    exact .none
  | case2 c cs ih =>
    obtain ⟨_, rfl, hnext⟩ := h.exists_cons rfl
    cases hnext with
    | cons hc hrest =>
      rw [quoted]
      exact rel_map (ih hrest) id
  | case3 cs hescape =>
    obtain ⟨ds, rfl, hrest⟩ := h.exists_cons hquote
    rw [quoted, if_pos rfl]
    · exact .some hrest
    · rintro c' cs' rfl -
      exact hslash rfl
  | case4 cs hescape hc =>
    -- a backslash with nothing behind it
    obtain ⟨ds, rfl, hrest⟩ := h.exists_cons rfl
    cases hrest with
    | nil =>
      rw [quoted, if_neg hc, if_pos rfl]
      · exact .none
      · rintro c' cs' - ⟨⟩
    | cons => exact (hescape _ _ rfl rfl).elim
  | case5 c cs hescape hc hplain ih =>
    cases h with
    | @cons _ d _ ds hd hrest =>
      have hne {q : Char} (hq : q.isAlpha = false) (hcq : c ≠ q) : d ≠ q := by
        rintro rfl
        exact hcq (Text.eq_of_not_isAlpha hq hd.symm)
      rw [quoted, if_neg (hne hquote hc), if_neg (hne rfl hplain)]
      · exact rel_map (ih hrest) id
      · rintro c' cs' rfl -
        exact hne rfl hplain rfl

theorem scanQuoted_matching {quote : Char} (hquote : quote.isAlpha = false) (hslash : quote ≠ '\\')
    (h : SameLetters cs ds) :
    Matching (Taken Token.Akin) (scanQuoted position quote cs) (scanQuoted position quote ds) := by
  have hquoted := quoted_matching hquote hslash h
  unfold scanQuoted
  generalize quoted quote cs = x at hquoted ⊢
  generalize quoted quote ds = y at hquoted ⊢
  cases hquoted with
  | none => exact .fault rfl
  | some hrest => exact .done ⟨.text _ _, hrest⟩

theorem braced_matching (h : SameLetters cs ds) :
    Matching (Taken fun a b => Text.asciiUpper b = Text.asciiUpper a) (braced position cs)
      (braced position ds) := by
  have hname : SameLetters (Text.trim (cs.takeWhile (· != '\x7d')))
      (Text.trim (ds.takeWhile (· != '\x7d'))) := (h.takeWhile (even_ne rfl)).trim
  have hrest := h.dropWhile (even_ne (c := '\x7d') rfl)
  unfold braced
  generalize cs.dropWhile (· != '\x7d') = left at hrest ⊢
  generalize ds.dropWhile (· != '\x7d') = left' at hrest ⊢
  cases hrest with
  | nil => exact .fault rfl
  | cons _ hrest =>
    dsimp only
    rw [hname.isEmpty_eq]
    split
    · exact .fault rfl
    · exact .done ⟨hname.asciiUpper_eq, hrest⟩

theorem scanNode_matching (h : SameLetters cs ds) :
    Matching (Taken Token.Akin) (scanNode position cs) (scanNode position ds) := by
  obtain ⟨cs, ds, rfl, rfl, hrest⟩ | ⟨hcs, hds⟩ := h.first_cases '\x7b' rfl
  · exact (braced_matching hrest).map fun h => ⟨.node _ _, h.2⟩
  · rw [scanNode.eq_2 _ _ hcs, scanNode.eq_2 _ _ hds, (h.takeWhile even_isNameChar).isEmpty_eq]
    split
    · exact .fault rfl
    · exact .done ⟨.node _ _, h.dropWhile even_isNameChar⟩

theorem takeWhile_isDigit_eq (h : SameLetters cs ds) :
    ds.takeWhile Char.isDigit = cs.takeWhile Char.isDigit :=
  (h.takeWhile even_isDigit).eq_of_not_isAlpha fun c hc =>
    isAlpha_of_isDigit c (List.mem_takeWhile_imp hc)

theorem placesOf_eq (h : SameLetters cs ds) : placesOf ds = placesOf cs := by
  obtain ⟨cs, ds, rfl, rfl, hrest⟩ | ⟨hcs, hds⟩ := h.first_cases '.' rfl
  · exact takeWhile_isDigit_eq hrest
  · rw [placesOf.eq_2 _ hcs, placesOf.eq_2 _ hds]

theorem scanNumber_matching (h : SameLetters cs ds) :
    Taken (fun t u => u = t) (scanNumber cs) (scanNumber ds) := by
  have hrest := h.dropWhile even_isDigit
  have hdigits := takeWhile_isDigit_eq h
  by_cases hplaces : placesOf (cs.dropWhile Char.isDigit) = []
  · rw [scanNumber_whole hplaces, scanNumber_whole (by rw [placesOf_eq hrest, hplaces]), hdigits]
    exact ⟨rfl, hrest⟩
  · obtain ⟨r, hr⟩ := exists_of_placesOf_ne_nil hplaces
    rw [hr] at hplaces hrest
    obtain ⟨r', hr', hsame⟩ := hrest.exists_cons rfl
    have hplaces' := takeWhile_isDigit_eq hsame
    rw [scanNumber_places hr hplaces, scanNumber_places hr' (by rwa [hplaces']), hdigits, hplaces']
    exact ⟨rfl, hsame.dropWhile even_isDigit⟩

/-! ## Tokens -/

theorem wordToken_akin {a b : String} (h : Text.asciiUpper b = Text.asciiUpper a) :
    (wordToken a).Akin (wordToken b) := by
  unfold wordToken
  rw [Text.asciiLower_congr h]
  split
  · exact .refl _
  · exact .refl _
  · exact .refl _
  · exact .word h

/-- A token that starts with a sign. -/
theorem scan_sign_matching {c : Char} (hsign : c ∈ signs) (h : SameLetters cs ds) :
    Matching (Taken Token.Akin) (scan position (c :: cs)) (scan position (c :: ds)) := by
  simp only [signs, List.mem_cons, List.not_mem_nil, or_false] at hsign
  rcases hsign with rfl | rfl | rfl | rfl | rfl | rfl | rfl | rfl | rfl | rfl | rfl | rfl | rfl |
    rfl | rfl | rfl | rfl | rfl | rfl | rfl
  · exact (braced_matching h).map fun h => ⟨.field h.1, h.2⟩
  · exact scanNode_matching h
  iterate 8 exact .done ⟨.refl _, h⟩
  -- signs that another sign can go on with
  · obtain ⟨cs, ds, rfl, rfl, hrest⟩ | ⟨hcs, hds⟩ := h.first_cases '=' rfl
    · exact .done ⟨.refl _, hrest⟩
    · rw [scan, scan]
      · exact .done ⟨.refl _, h⟩
      · exact hds
      · exact hcs
  · obtain ⟨cs, ds, rfl, rfl, hrest⟩ | ⟨hcs, hds⟩ := h.first_cases '=' rfl
    · exact .done ⟨.refl _, hrest⟩
    · rw [scan, scan]
      · exact .fault rfl
      · exact hds
      · exact hcs
  · obtain ⟨cs, ds, rfl, rfl, hrest⟩ | ⟨hcs, hds⟩ := h.first_cases '=' rfl
    · exact .done ⟨.refl _, hrest⟩
    · rw [scan, scan]
      · exact .done ⟨.refl _, h⟩
      · exact hds
      · exact hcs
  · obtain ⟨cs, ds, rfl, rfl, hrest⟩ | ⟨hcs, hds⟩ := h.first_cases '=' rfl
    · exact .done ⟨.refl _, hrest⟩
    obtain ⟨cs, ds, rfl, rfl, hrest⟩ | ⟨hcs', hds'⟩ := h.first_cases '>' rfl
    · exact .done ⟨.refl _, hrest⟩
    rw [scan, scan]
    · exact .done ⟨.refl _, h⟩
    · exact hds
    · exact hds'
    · exact hcs
    · exact hcs'
  · exact scanQuoted_matching rfl (by decide) h
  · exact scanQuoted_matching rfl (by decide) h
  -- brackets
  iterate 4 exact .done ⟨.refl _, h⟩

/-- Texts with the same letters start with tokens that may be written with the same letters. -/
theorem scan_matching (h : SameLetters cs ds) :
    Matching (Taken Token.Akin) (scan position cs) (scan position ds) := by
  cases h with
  | nil => exact .done ⟨.refl _, .nil⟩
  | @cons c d cs ds hc hrest =>
    have hplain {c : Char} (hletter : c.isAlpha = true) : c ∉ signs :=
      not_mem_signs (by decide) hletter
    by_cases hsign : c ∈ signs
    · obtain rfl : d = c := (Text.eq_or_isAlpha hc).resolve_right fun h => hplain h.1 hsign
      exact scan_sign_matching hsign hrest
    · have hsign' : d ∉ signs := by
        obtain rfl | ⟨-, hletter⟩ := Text.eq_or_isAlpha hc
        · exact hsign
        · exact hplain hletter
      have h : SameLetters (c :: cs) (d :: ds) := .cons hc hrest
      rw [scan_other hsign, scan_other hsign', even_isNameStart.congr hc, even_isDigit.congr hc]
      split
      · have htoken := wordToken_akin (h.takeWhile even_isNameChar).asciiUpper_eq
        refine .done ⟨?_, h.dropWhile even_isNameChar⟩
        -- without the projections, or `exact` unfolds both words
        dsimp only
        exact htoken
      · split
        · obtain ⟨htoken, hrest⟩ := scanNumber_matching h
          exact .done ⟨htoken ▸ .refl _, hrest⟩
        · exact .fault rfl

end Lexer

/-! ## Words that count in any case -/

/-- What the tokens before it make of a token. -/
inductive Role where
  | operand
  /-- Behind an opening bracket. -/
  | filterField
  /-- Behind an opening bracket and one more token. -/
  | filterTest
  /-- Behind a dot. -/
  | member
  deriving DecidableEq

/-- The role of the token behind a token. -/
def Role.next : Role → Token → Role
  | .filterField, _ => .filterTest
  | _, .openBracket => .filterField
  | _, .dot => .member
  | _, _ => .operand

/-- The words that count in any case of their ASCII letters: the literals, the operators of filters,
and the names of functions, methods and aggregations, behind which a parenthesis opens. -/
def Token.isCaseless (t : Token) (role : Role) (next : Token) : Bool :=
  match t with
  | .bool _ | .null => true
  | .word _ => role = .filterTest || next = .openParen
  | .field _ => role = .member && next = .openParen
  | _ => false

namespace Lexemes

/-- Whether an offset is one of a word that counts in any case, or of the blanks behind it. -/
def caselessAt : Role → Lexemes → Nat → Bool
  | role, cons start t rest, i =>
    (t.isCaseless role rest.token && start ≤ i && i < rest.position) ||
      caselessAt (role.next t) rest i
  | _, _, _ => false

/-- Whether the case of a character at an offset is of no account. Before the first token there are
blanks only. -/
def freeAt (role : Role) (s : Lexemes) (i : Nat) : Bool := i < s.position || s.caselessAt role i

theorem freeAt_cons {role : Role} {start i : Nat} {t : Token} {rest : Lexemes} (hi : start ≤ i) :
    (cons start t rest).freeAt role i =
      (t.isCaseless role rest.token && i < rest.position || rest.caselessAt (role.next t) i) := by
  rw [freeAt, caselessAt, position, decide_eq_false (Nat.not_lt.2 hi), decide_eq_true hi,
    Bool.false_or, Bool.and_true]

/-- The same tokens at the same offsets, but for the spelling of those that count in any case. -/
inductive Recased : Role → Lexemes → Lexemes → Prop
  | nil {role : Role} (position : Nat) : Recased role (.nil position) (.nil position)
  | fault {role : Role} {e e' : SyntaxError} (h : e'.position = e.position) :
      Recased role (.fault e) (.fault e')
  | cons {role : Role} {start : Nat} {t u : Token} {rest rest' : Lexemes}
      (htoken : u = t ∨ t.isCaseless role rest.token = true ∧ t.Akin u)
      (hrest : Recased (role.next t) rest rest') :
      Recased role (.cons start t rest) (.cons start u rest')

end Lexemes

namespace Text

/-- The second text is the first one with ASCII letters at some of the offsets in another case. -/
def Recased (free : Nat → Bool) : Nat → List Char → List Char → Prop
  | _, [], [] => True
  | i, c :: cs, d :: ds =>
    (d = c ∨ free i = true ∧ d.toUpper = c.toUpper) ∧ Recased free (i + 1) cs ds
  | _, _, _ => False

instance decidableRecased (free : Nat → Bool) :
    ∀ i cs ds, Decidable (Recased free i cs ds)
  | _, [], [] => inferInstanceAs (Decidable True)
  | i, _ :: cs, _ :: ds =>
    have := decidableRecased free (i + 1) cs ds
    inferInstanceAs (Decidable (_ ∧ _))
  | _, [], _ :: _ => inferInstanceAs (Decidable False)
  | _, _ :: _, [] => inferInstanceAs (Decidable False)

namespace Recased

variable {free free' : Nat → Bool} {i : Nat} {cs cs' ds : List Char}

theorem sameLetters (h : Recased free i cs ds) : SameLetters cs ds := by
  fun_induction Recased free i cs ds with
  | case1 => exact .nil
  | case2 i c cs d ds ih =>
    obtain ⟨hfirst, hrest⟩ := h
    refine .cons ?_ (ih hrest)
    obtain rfl | ⟨-, hcase⟩ := hfirst
    · rfl
    · exact hcase
  | case3 => exact h.elim

theorem mono (hfree : ∀ j, i ≤ j → free j = true → free' j = true) (h : Recased free i cs ds) :
    Recased free' i cs ds := by
  fun_induction Recased free i cs ds with
  | case1 => trivial
  | case2 i c cs d ds ih =>
    obtain ⟨hfirst, hrest⟩ := h
    exact ⟨hfirst.imp_right fun ⟨hi, hcase⟩ => ⟨hfree i le_rfl hi, hcase⟩,
      ih (fun j hj => hfree j (by omega)) hrest⟩
  | case3 => exact h.elim

theorem exists_append (h : Recased free i (cs ++ cs') ds) :
    ∃ us us', ds = us ++ us' ∧ Recased free i cs us ∧ Recased free (i + cs.length) cs' us' := by
  induction cs generalizing i ds with
  | nil => exact ⟨[], ds, rfl, trivial, h⟩
  | cons c cs ih =>
    cases ds with
    | nil => exact h.elim
    | cons d ds =>
      obtain ⟨hfirst, hrest⟩ := h
      obtain ⟨us, us', rfl, hus, hus'⟩ := ih hrest
      refine ⟨d :: us, us', rfl, ⟨hfirst, hus⟩, ?_⟩
      rwa [List.length_cons, Nat.add_comm cs.length, ← Nat.add_assoc]

theorem eq_of_not_free (hfree : ∀ j, i ≤ j → j < i + cs.length → free j = false)
    (h : Recased free i cs ds) : ds = cs := by
  fun_induction Recased free i cs ds with
  | case1 => rfl
  | case2 i c cs d ds ih =>
    obtain ⟨hfirst, hrest⟩ := h
    rw [List.length_cons] at hfree
    have hi : free i = false := hfree i le_rfl (by omega)
    rw [ih (fun j hj hlt => hfree j (by omega) (by omega)) hrest,
      hfirst.resolve_right (by simp [hi])]
  | case3 => exact h.elim

end Recased

end Text

namespace Lexer

open Text (SameLetters)

variable {fuel position : Nat} {cs ds : List Char}

theorem le_of_caselessAt {role : Role} {i : Nat}
    (h : (lexemes fuel position cs).caselessAt role i = true) : position ≤ i := by
  induction fuel generalizing position cs role with
  | zero => cases h
  | succ fuel ih =>
    rw [lexemes] at h
    split at h
    · cases h
    · split at h
      · cases h
      · simp only [Lexemes.caselessAt, Bool.or_eq_true, Bool.and_eq_true, decide_eq_true_eq] at h
        obtain ⟨⟨-, hstart⟩, -⟩ | hrest := h
        · omega
        · have hnext := ih hrest
          omega

theorem lexemes_token {c : Char} {used rest : List Char} {t : Token}
    (hblank : Text.isBlank c = false)
    (hscan : scan position (c :: (used ++ rest)) = .ok (t, rest)) :
    lexemes (fuel + 1) position (c :: (used ++ rest)) =
      .cons position t (lexemes fuel (position + (c :: used).length) rest) := by
  have htaken : (c :: (used ++ rest)).length - rest.length = (c :: used).length := by
    simp only [List.length_cons, List.length_append]
    omega
  rw [lexemes_cons hblank hscan, htaken]

/-- Where a token is read, one that may be written with the same letters is read from as many
characters of the other text. From the same characters it is the same token. -/
theorem exists_token_recased {free : Nat → Bool} {c : Char} {used rest : List Char} {t : Token}
    (hscan : scan position (c :: (used ++ rest)) = .ok (t, rest))
    (h : Text.Recased free position (c :: used ++ rest) ds) :
    ∃ d used' rest' u, ds = d :: (used' ++ rest') ∧ (d :: used').length = (c :: used).length ∧
      scan position (d :: (used' ++ rest')) = .ok (u, rest') ∧ t.Akin u ∧
      Text.Recased free (position + (c :: used).length) rest rest' ∧
      ((∀ i, position ≤ i → i < position + (c :: used).length → free i = false) → u = t) := by
  obtain ⟨taken, rest', rfl, hused, hrest⟩ := h.exists_append
  have hmatching := @scan_matching position _ _ h.sameLetters
  rw [List.cons_append, hscan] at hmatching
  cases hused.sameLetters with
  | @cons _ d _ used' hd hletters =>
    generalize hscan' : scan position (d :: used' ++ rest') = result at hmatching
    cases hmatching with
    | @done _ result hresult =>
      obtain ⟨u, left⟩ := result
      obtain ⟨htoken, hleft⟩ := hresult
      -- what is left has the same length on both sides, so the same characters were taken
      obtain ⟨used'', hsplit, halone'⟩ := scan_takes hscan'
      obtain ⟨rfl, rfl⟩ : used' = used'' ∧ rest' = left :=
        List.append_inj' hsplit (hrest.sameLetters.length_eq.symm.trans hleft.length_eq)
      refine ⟨d, used', rest', u, rfl, (hused.sameLetters.length_eq).symm, hscan', htoken, hrest,
        fun hfree => ?_⟩
      obtain ⟨used'', hsplit, halone⟩ := scan_takes hscan
      obtain rfl := List.append_cancel_right hsplit
      obtain ⟨rfl, rfl⟩ := List.cons.inj (hused.eq_of_not_free hfree)
      exact congrArg Prod.fst (Except.ok.inj ((halone' 0).symm.trans (halone 0)))

/-- Cutting a text into tokens goes along with changes of case in the words that count in any. -/
theorem recased_lexemes {role : Role} (hfuel : cs.length < fuel)
    (h : Text.Recased ((lexemes fuel position cs).freeAt role) position cs ds) :
    (lexemes fuel position cs).Recased role (lexemes fuel position ds) := by
  induction fuel generalizing position cs ds role with
  | zero => omega
  | succ fuel ih =>
    -- blanks are no letters, so the same blanks come first in both texts
    obtain ⟨blanks, rest, rfl, hblanks, hfirst⟩ := exists_blanks cs
    obtain ⟨blanks', rest', rfl, hsame, hrest⟩ := h.exists_append
    obtain rfl : blanks' = blanks := hsame.sameLetters.eq_of_not_isAlpha fun c hc =>
      Text.SameLetters.isAlpha_of_isBlank c (hblanks c hc)
    rw [lexemes_skip hblanks] at hrest ⊢
    rw [lexemes_skip hblanks]
    generalize position + blanks'.length = start at hrest ⊢
    rw [List.length_append] at hfuel
    have hletters := hrest.sameLetters
    cases hletters with
    | nil =>
      rw [lexemes_nil]
      exact .nil _
    | @cons c d cs ds hc htail =>
      have hblank : Text.isBlank c = false := hfirst c rfl
      have hblank' : Text.isBlank d = false := (Text.SameLetters.even_isBlank.congr hc).trans hblank
      cases hscan : scan start (c :: cs) with
      | error e =>
        have hmatching := @scan_matching start _ _ (.cons hc htail)
        rw [hscan] at hmatching
        generalize hscan' : scan start (d :: ds) = result at hmatching
        cases hmatching with
        | fault hposition =>
          rw [lexemes_fault hblank hscan, lexemes_fault hblank' hscan']
          exact .fault hposition
      | ok result =>
        obtain ⟨t, rest⟩ := result
        obtain ⟨used, rfl, -⟩ := scan_takes hscan
        rw [lexemes_token hblank hscan] at hrest ⊢
        obtain ⟨d, used', rest', u, ⟨rfl, rfl⟩, hlength, hscan', htoken, hrest', hsame⟩ :=
          exists_token_recased hscan hrest
        rw [lexemes_token hblank' hscan', hlength]
        -- later tokens free nothing in this one, so a token that is not free itself stays as it is
        have hlater {i : Nat} (hi : i < start + (c :: used).length) :
            (lexemes fuel (start + (c :: used).length) rest).caselessAt (role.next t) i =
              false := by
          by_contra hfree
          exact absurd (le_of_caselessAt (Bool.not_eq_false _ ▸ hfree)) (Nat.not_le.2 hi)
        have hroom : rest.length < fuel := by
          simp only [List.length_cons, List.length_append] at hfuel
          omega
        refine .cons ?_ (ih hroom (hrest'.mono fun i hi hfree => ?_))
        · cases hcase : t.isCaseless role
              (lexemes fuel (start + (c :: used).length) rest).token with
          | true => exact .inr ⟨rfl, htoken⟩
          | false =>
            refine .inl (hsame fun i hi hlt => ?_)
            rw [Lexemes.freeAt_cons hi, hcase, hlater hlt]
            rfl
        · rw [Lexemes.freeAt_cons (by omega), Bool.or_eq_true, Bool.and_eq_true] at hfree
          rw [Lexemes.freeAt, Bool.or_eq_true]
          exact hfree.imp_left And.right

end Lexer

namespace Formula

/-- The second text is the first one with ASCII letters in another case, but only in words that
count in any: in literals, in the operators of filters, and in the names of functions, methods and
aggregations. -/
def Recased (text text' : String) : Prop :=
  Text.Recased ((Lexemes.ofText text).caselessAt .operand) 0 text.toList text'.toList

instance (text text' : String) : Decidable (Recased text text') :=
  inferInstanceAs (Decidable (Text.Recased ..))

example : Recased "Sum(true, #rows[name Is_Empty].Count())"
    "SUM(TRUE, #rows[name is_empty].count())" := by decide +kernel

-- a field and a quoted text keep their case
example : ¬Recased "Sum(price)" "Sum(Price)" ∧ ¬Recased "Len('a')" "Len('A')" := by decide +kernel

theorem Recased.lexemes {text text' : String} (h : Recased text text') :
    (Lexemes.ofText text).Recased .operand (Lexemes.ofText text') := by
  have hlength : text'.toList.length = text.toList.length := h.sameLetters.length_eq.symm
  rw [Lexemes.ofText, Lexemes.ofText, hlength]
  refine Lexer.recased_lexemes (Nat.lt_succ_self _) (Text.Recased.mono (fun i _ hi => ?_) h)
  rw [Lexemes.freeAt, Bool.or_eq_true]
  exact .inr hi

end Formula

end FormulaPipeline
