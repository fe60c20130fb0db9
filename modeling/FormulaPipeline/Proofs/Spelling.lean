import FormulaPipeline.Proofs.Formula.Scanning
import FormulaPipeline.Proofs.Number.Whole
import FormulaPipeline.Proofs.Printing

/-!
# Tokens are read back from what is written

A token is written as its sign, its digits, its braced name or its quoted text. Tokens that are
written with single blanks between them are read as themselves, whatever the texts contain.
-/

namespace FormulaPipeline

/-! ## Writing -/

/-- The quotes that a text can stand between. -/
inductive Quote where
  | single
  | double
  deriving DecidableEq, Repr

def Quote.char : Quote → Char
  | single => '\''
  | double => '"'

/-- The characters of a quoted text, with a backslash before each backslash and before its quote. -/
def Quote.escape (q : Quote) (cs : List Char) : List Char :=
  cs.flatMap fun c => if c = '\\' ∨ c = q.char then ['\\', c] else [c]

namespace Token

/-- How a token is written when texts stand between the given quotes. -/
def write (q : Quote) : Token → String
  | float x => x.toText
  | int n => toString n.toInt
  | text s => String.ofList (q.char :: (q.escape s.toList ++ [q.char]))
  | bool b => toString b
  | null => "null"
  | field name => "\x7b" ++ name ++ "\x7d"
  | node name => "#\x7b" ++ name ++ "\x7d"
  | word name => name
  | equal => "="
  | notEqual => "!="
  | less => "<"
  | greater => ">"
  | lessEqual => "<="
  | greaterEqual => ">="
  | plus => "+"
  | minus => "-"
  | star => "*"
  | slash => "/"
  | percent => "%"
  | caret => "^"
  | openBracket => "["
  | closeBracket => "]"
  | openParen => "("
  | closeParen => ")"
  | dot => "."
  | comma => ","
  | endOfInput => ""

/-- A name that can stand between braces. -/
def IsBraceable (name : String) : Prop :=
  name.toList ≠ [] ∧ Text.trim name.toList = name.toList ∧ '\x7d' ∉ name.toList

/-- A name that can stand alone: no literal is written like it. -/
def IsWord (name : String) : Prop :=
  (∃ c ∈ name.toList.head?, Lexer.isNameStart c = true) ∧
  (∀ c ∈ name.toList.tail, Lexer.isNameChar c = true) ∧
  Text.asciiLower name ∉ ["true", "false", "null"]

/-- The tokens that can be written: no floats, no negative numbers, and only names that can be
read. -/
def Writable : Token → Prop
  | float _ | endOfInput => False
  | int n => 0 ≤ n.toInt
  | field name | node name => IsBraceable name
  | word name => IsWord name
  | _ => True

instance decidableIsBraceable (name : String) : Decidable (IsBraceable name) :=
  inferInstanceAs (Decidable (_ ∧ _ ∧ _))

instance decidableIsWord (name : String) : Decidable (IsWord name) :=
  decidable_of_iff
    (name.toList.head?.any Lexer.isNameStart = true ∧ name.toList.tail.all Lexer.isNameChar = true ∧
      Text.asciiLower name ∉ ["true", "false", "null"])
    (by rw [IsWord, Option.any_eq_true, List.all_eq_true]; rfl)

instance decidableWritable (t : Token) : Decidable t.Writable := by
  cases t <;> dsimp only [Writable] <;> infer_instance

end Token

namespace Lexer

variable {position : Nat} {cs rest : List Char}

/-! ## One token -/

/-- No character of a class stands first. -/
def Stops (p : Char → Bool) (cs : List Char) : Prop := ∀ c ∈ cs.head?, p c = false

theorem Stops.takeWhile_eq_nil {p : Char → Bool} (h : Stops p cs) : cs.takeWhile p = [] := by
  cases cs with
  | nil => rfl
  | cons c rest => rw [List.takeWhile_cons_of_neg (by simp [h c rfl])]

theorem Stops.takeWhile_append {p : Char → Bool} (h : Stops p rest) (hcs : ∀ c ∈ cs, p c = true) :
    (cs ++ rest).takeWhile p = cs := by
  rw [List.takeWhile_append_of_pos hcs, h.takeWhile_eq_nil, List.append_nil]

theorem Stops.dropWhile_append {p : Char → Bool} (h : Stops p rest) (hcs : ∀ c ∈ cs, p c = true) :
    (cs ++ rest).dropWhile p = rest := by
  rw [List.dropWhile_append_of_pos hcs]
  cases rest with
  | nil => rfl
  | cons c rest => rw [List.dropWhile_cons_of_neg (by simp [h c rfl])]

/-- What may follow a written token: nothing, or a blank. -/
def Separated (cs : List Char) : Prop := ∀ c ∈ cs.head?, c = ' '

theorem Separated.stops {p : Char → Bool} (hp : p ' ' = false) (h : Separated cs) : Stops p cs :=
  fun c hc => h c hc ▸ hp

theorem Separated.eq_nil_or_cons (h : Separated cs) : cs = [] ∨ ∃ rest, cs = ' ' :: rest := by
  cases cs with
  | nil => exact .inl rfl
  | cons c rest =>
    obtain rfl := h c rfl
    exact .inr ⟨rest, rfl⟩

theorem quoted_escape (q : Quote) (cs rest : List Char) :
    quoted q.char (q.escape cs ++ q.char :: rest) = some (cs, rest) := by
  induction cs with
  | nil => cases q <;> simp [Quote.escape, quoted, Quote.char]
  | cons c cs ih =>
    simp only [Quote.escape, List.flatMap_cons] at ih ⊢
    split
    · rename_i hc
      have hunescape : unescape c = c := by
        rcases hc with rfl | rfl
        · rfl
        · cases q <;> rfl
      simp only [List.cons_append, List.nil_append, quoted, ih, Option.map_some, hunescape]
    · rename_i hc
      obtain ⟨hslash, hquote⟩ := not_or.1 hc
      rw [List.singleton_append, List.cons_append, quoted, if_neg hquote, if_neg hslash, ih]
      · rfl
      · rintro c' cs' rfl -
        exact hslash rfl

theorem scan_text (q : Quote) (s : String) :
    scan position (((Token.text s).write q).toList ++ rest) = .ok (.text s, rest) := by
  have hscan : scanQuoted position q.char (q.escape s.toList ++ q.char :: rest) =
      .ok (.text s, rest) := by
    rw [scanQuoted, quoted_escape]
    simp
  cases q <;> simpa [Token.write, scan, Quote.char] using hscan

theorem braced_closed (hopen : ∀ c ∈ cs, (c != '\x7d') = true) :
    braced position (cs ++ '\x7d' :: rest) =
      if (Text.trim cs).isEmpty then .error ⟨.emptyReference, position⟩
      else .ok (String.ofList (Text.trim cs), rest) := by
  rw [braced, List.dropWhile_append_of_pos hopen, List.takeWhile_append_of_pos hopen]
  simp

theorem braced_append {name : String} (h : Token.IsBraceable name) :
    braced position (name.toList ++ '\x7d' :: rest) = .ok (name, rest) := by
  obtain ⟨hne, htrim, hclose⟩ := h
  have hopen : ∀ c ∈ name.toList, (c != '\x7d') = true := fun c hc =>
    bne_iff_ne.2 fun heq => hclose (heq ▸ hc)
  rw [braced_closed hopen, htrim]
  simp [hne]

theorem scan_field {name : String} (h : Token.IsBraceable name) :
    scan position (('\x7b' :: name.toList) ++ '\x7d' :: rest) = .ok (.field name, rest) := by
  rw [List.cons_append, scan, braced_append h]
  rfl

theorem scan_node {name : String} (h : Token.IsBraceable name) :
    scan position (('#' :: '\x7b' :: name.toList) ++ '\x7d' :: rest) = .ok (.node name, rest) := by
  rw [List.cons_append, scan, List.cons_append, scanNode, braced_append h]
  rfl

/-- A name that starts and goes on like a word is taken whole. -/
theorem scan_name (name : String) {t : Token} (ht : wordToken name = t)
    (hstart : name.toList.head?.any isNameStart = true)
    (htail : name.toList.tail.all isNameChar = true) (hrest : Separated rest) :
    scan position (name.toList ++ rest) = .ok (t, rest) := by
  obtain ⟨c, hc, hstart⟩ := (Option.any_eq_true _ _).1 hstart
  have hstops : Stops isNameChar rest := hrest.stops (by decide)
  obtain ⟨cs, hname⟩ : ∃ cs, name.toList = c :: cs := List.head?_eq_some_iff.1 hc
  have hchars : ∀ d ∈ name.toList, isNameChar d = true := by
    rw [hname] at htail ⊢
    exact List.forall_mem_cons.2 ⟨isNameChar_of_isNameStart hstart, List.all_eq_true.1 htail⟩
  calc scan position (name.toList ++ rest)
    _ = .ok (wordToken (String.ofList ((name.toList ++ rest).takeWhile isNameChar)),
        (name.toList ++ rest).dropWhile isNameChar) := by
      rw [hname, List.cons_append, scan_word hstart]
    _ = .ok (t, rest) := by
      rw [hstops.takeWhile_append hchars, hstops.dropWhile_append hchars, String.ofList_toList, ht]

theorem wordToken_of_isWord {name : String} (h : Token.IsWord name) :
    wordToken name = .word name := by
  obtain ⟨-, -, hliteral⟩ := h
  simp only [List.mem_cons, List.not_mem_nil, or_false, not_or] at hliteral
  obtain ⟨htrue, hfalse, hnull⟩ := hliteral
  unfold wordToken
  split <;> simp_all

theorem scan_digits {n : Int64} (hn : 0 ≤ n.toInt) (hrest : Separated rest) :
    scan position (Nat.toDigits 10 n.toInt.natAbs ++ rest) = .ok (.int n, rest) := by
  have hstops : Stops Char.isDigit rest := hrest.stops rfl
  have hdigits : ∀ d ∈ Nat.toDigits 10 n.toInt.natAbs, d.isDigit = true := Json.isDigit_toDigits
  have hvalue : wholeToken (Nat.toDigits 10 n.toInt.natAbs) = .int n := by
    rw [wholeToken, Nat.ofDigitChars_ten_toDigits, Int.natAbs_of_nonneg hn, Integer.ofInt?_toInt]
  have hne : Nat.toDigits 10 n.toInt.natAbs ≠ [] := Nat.toDigits_ne_nil
  generalize Nat.toDigits 10 n.toInt.natAbs = digits at hdigits hvalue hne ⊢
  have hwhole : scanNumber (digits ++ rest) = (.int n, rest) := by
    have hplaces : placesOf rest = [] := by
      obtain rfl | ⟨rest, rfl⟩ := hrest.eq_nil_or_cons <;> rfl
    rw [scanNumber_whole (by rw [hstops.dropWhile_append hdigits, hplaces]),
      hstops.takeWhile_append hdigits, hstops.dropWhile_append hdigits, hvalue]
  cases digits with
  | nil => exact (hne rfl).elim
  | cons d digits =>
    rw [List.cons_append] at hwhole ⊢
    rw [scan_number (hdigits d List.mem_cons_self), hwhole]

/-- A written token is read as itself. -/
theorem scan_write (q : Quote) {t : Token} (h : t.Writable) (hrest : Separated rest) :
    scan position ((t.write q).toList ++ rest) = .ok (t, rest) := by
  cases t with
  | float x => exact h.elim
  | int n =>
    have hsign : decide (n.toInt < 0) = false := decide_eq_false (not_lt.2 h)
    rw [Token.write, Json.toList_toString, hsign]
    exact scan_digits h hrest
  | text s => exact scan_text q s
  | field name => simpa [Token.write] using scan_field h
  | node name => simpa [Token.write] using scan_node h
  | word name =>
    have hstart := (Option.any_eq_true _ _).2 h.1
    exact scan_name name (wordToken_of_isWord h) hstart (List.all_eq_true.2 h.2.1) hrest
  | bool b =>
    cases b with
    | false => exact scan_name "false" (by decide) (by decide) (by decide) hrest
    | true => exact scan_name "true" (by decide) (by decide) (by decide) hrest
  | null => exact scan_name "null" (by decide) (by decide) (by decide) hrest
  | endOfInput => exact h.elim
  | _ => obtain rfl | ⟨rest, rfl⟩ := hrest.eq_nil_or_cons <;> simp [Token.write, scan]

/-! ## Tokens with blanks between them -/

/-- The blanks are tried one by one, as only the table of letters tells them from letters. -/
theorem isBlank_eq_true {c : Char} (h : Text.isBlank c = true) :
    isNameStart c = false ∧ c.isDigit = false := by
  have hnone : ∀ range ∈ Text.blankRanges, ∀ n ∈ List.range' range.1 (range.2 + 1 - range.1),
      isNameStart (Char.ofNat n) = false ∧ (Char.ofNat n).isDigit = false := by decide +kernel
  obtain ⟨range, hrange, hc⟩ := List.any_eq_true.1 h
  simp only [Bool.and_eq_true, decide_eq_true_eq] at hc
  have hmem : c.toNat ∈ List.range' range.1 (range.2 + 1 - range.1) := by
    rw [List.mem_range'_1]
    omega
  rw [← Char.ofNat_toNat c]
  exact hnone range hrange c.toNat hmem

/-- No token starts with a blank. -/
theorem isBlank_of_scan {c : Char} {t : Token} (h : scan position (c :: cs) = .ok (t, rest)) :
    Text.isBlank c = false := by
  by_contra hc
  have hblank : Text.isBlank c = true := eq_true_of_ne_false hc
  obtain ⟨hname, hdigit⟩ := isBlank_eq_true hblank
  rw [scan_other (not_mem_signs (by decide) hblank), hname, hdigit] at h
  cases h

theorem write_ne_nil (q : Quote) {t : Token} (h : t.Writable) : (t.write q).toList ≠ [] := by
  intro hwrite
  have hend := @scan_write 0 [] q t h (by simp [Separated])
  rw [hwrite] at hend
  obtain rfl : .endOfInput = t := congrArg Prod.fst (Except.ok.inj hend)
  exact h

theorem lexemes_write {fuel : Nat} (q : Quote) {t : Token} (h : t.Writable)
    (hrest : Separated rest) :
    lexemes (fuel + 1) position ((t.write q).toList ++ rest) =
      .cons position t (lexemes fuel (position + (t.write q).toList.length) rest) := by
  have hscan := @scan_write position rest q t h hrest
  cases hwrite : (t.write q).toList with
  | nil => exact (write_ne_nil q h hwrite).elim
  | cons c cs =>
    rw [hwrite, List.cons_append] at hscan
    have hlength : (c :: (cs ++ rest)).length - rest.length = (c :: cs).length := by
      simp only [List.length_cons, List.length_append]
      omega
    rw [List.cons_append, lexemes_cons (isBlank_of_scan hscan) hscan, hlength]

/-- The characters of written tokens, each with a blank before it. -/
def following (written : List (Quote × Token)) : List Char :=
  written.flatMap fun p => ' ' :: (p.2.write p.1).toList

theorem separated_following (written : List (Quote × Token)) : Separated (following written) := by
  cases written with
  | nil => simp [following, Separated]
  | cons p written => simp [following, Separated]

theorem lexemes_following {fuel : Nat} {written : List (Quote × Token)}
    (h : ∀ p ∈ written, p.2.Writable) (hfuel : (following written).length < fuel) :
    (lexemes fuel position (following written)).tokens = written.map Prod.snd ∧
      (lexemes fuel position (following written)).Complete := by
  induction written generalizing fuel position with
  | nil =>
    cases fuel with
    | zero => exact ⟨rfl, trivial⟩
    | succ fuel => exact ⟨rfl, trivial⟩
  | cons p written ih =>
    obtain ⟨fuel, rfl⟩ := Nat.exists_eq_add_of_lt hfuel
    obtain ⟨hp, hwritten⟩ := List.forall_mem_cons.1 h
    have hsplit : following (p :: written) =
        [' '] ++ ((p.2.write p.1).toList ++ following written) := rfl
    have hblank : ∀ b ∈ [' '], Text.isBlank b = true := List.forall_mem_singleton.2 rfl
    have hroom : (following written).length < (following (p :: written)).length + fuel := by
      rw [hsplit, List.length_append, List.length_append, List.length_singleton]
      omega
    obtain ⟨htokens, hcomplete⟩ := @ih
      (position + [' '].length + (p.2.write p.1).toList.length) _ hwritten hroom
    rw [hsplit, lexemes_skip hblank, ← hsplit,
      lexemes_write p.1 hp (separated_following written)]
    exact ⟨congrArg _ htokens, hcomplete⟩

end Lexer

namespace Lexemes

/-- Tokens that are written with single blanks between them are read as themselves, and then comes
the end of the input. -/
theorem ofText_write {written : List (Quote × Token)} (h : ∀ p ∈ written, p.2.Writable) :
    (ofText (Text.join " " (written.map fun p => p.2.write p.1))).tokens = written.map Prod.snd ∧
      (ofText (Text.join " " (written.map fun p => p.2.write p.1))).Complete := by
  cases written with
  | nil => exact ⟨rfl, trivial⟩
  | cons p written =>
    obtain ⟨hp, hwritten⟩ := List.forall_mem_cons.1 h
    have hchars : (Text.join " " ((p :: written).map fun p => p.2.write p.1)).toList =
        (p.2.write p.1).toList ++ Lexer.following written := by
      simp [Text.toList_join, Lexer.following, List.flatMap_map]
    rw [ofText, hchars, Lexer.lexemes_write p.1 hp (Lexer.separated_following written)]
    have hroom : (Lexer.following written).length <
        ((p.2.write p.1).toList ++ Lexer.following written).length := by
      have hpositive := List.length_pos_iff.2 (Lexer.write_ne_nil p.1 hp)
      rw [List.length_append]
      omega
    obtain ⟨htokens, hcomplete⟩ := @Lexer.lexemes_following
      (0 + (p.2.write p.1).toList.length) _ written hwritten hroom
    exact ⟨congrArg _ htokens, hcomplete⟩

/-- A text with both quotes, a line break and a backslash, between names and a whole number. -/
theorem ofText_write_text :
    (ofText (Text.join " " ([(Quote.single, Token.node "total"), (.single, .plus),
      (.double, .text "it's \"a\"\n\\"), (.double, .word "n_1"), (.double, .int 7)].map
        fun p => p.2.write p.1))).tokens =
      [.node "total", .plus, .text "it's \"a\"\n\\", .word "n_1", .int 7] := by
  exact (ofText_write (by decide)).1

end Lexemes

end FormulaPipeline
