import FormulaPipeline.Proofs.Json.Numerals
import Mathlib.Tactic.IntervalCases
import Mathlib.Tactic.SplitIfs

/-!
# Reading back documents

The text of a document is read as the document, compact or indented, when its numbers can be written
and its containers are not nested too deep. Deeper documents are refused. This holds of every
legible convention, up to the numbers that stand in the text for floats.
-/

namespace FormulaPipeline.Json

/-! ## Strings -/

section Strings

variable {rest : List Char}

/-- Put a code unit before those that were read. -/
def consUnit (n : Nat) (r : Option (List Nat × List Char)) : Option (List Nat × List Char) :=
  r.map fun (units, rest) => (n :: units, rest)

theorem readUnits_short {c e : Char} (hc : c ≠ 'u') (he : shortEscape? c = some e) :
    readUnits ('\\' :: c :: rest) = consUnit e.toNat (readUnits rest) := by
  rw [readUnits.eq_4 c rest (fun _ _ _ _ _ h _ => hc h), he]
  cases readUnits rest <;> rfl

theorem readUnits_hex {a b c d : Char} {n : Nat} (hn : hexUnit? a b c d = some n) :
    readUnits ('\\' :: 'u' :: a :: b :: c :: d :: rest) = consUnit n (readUnits rest) := by
  rw [readUnits, hn]
  cases readUnits rest <;> rfl

theorem readUnits_plain {c : Char} (hquote : c ≠ '"') (hslash : c ≠ '\\') (hc : ¬c.toNat < 32) :
    readUnits (c :: rest) = consUnit c.toNat (readUnits rest) := by
  rw [readUnits.eq_5 c rest hquote (fun _ _ _ _ _ h _ => hslash h) (fun _ _ h _ => hslash h),
    if_neg hc]
  cases readUnits rest <;> rfl

theorem hexUnit_hex4 : ∀ n < 160, ∃ a b c d, hex4 n = [a, b, c, d] ∧ hexUnit? a b c d = some n := by
  intro n hn
  interval_cases n <;> exact ⟨_, _, _, _, rfl, rfl⟩

theorem eq_of_toNat_eq {c d : Char} (h : c.toNat = d.toNat) : c = d := by
  rw [← Char.ofNat_toNat c, h, Char.ofNat_toNat]

/-- An escape by a name or by a code is read as its character. -/
theorem readUnits_short_eq {c d e : Char} (hc : c = e) (hd : d ≠ 'u')
    (he : shortEscape? d = some e) :
    readUnits (['\\', d] ++ rest) = consUnit c.toNat (readUnits rest) :=
  hc ▸ readUnits_short hd he

theorem readUnits_coded {c : Char} (hc : c.toNat < 160) :
    readUnits ('\\' :: 'u' :: hex4 c.toNat ++ rest) = consUnit c.toNat (readUnits rest) := by
  obtain ⟨a, b, d, e, htext, hunit⟩ := hexUnit_hex4 c.toNat hc
  rw [htext]
  exact readUnits_hex hunit

theorem readUnits_escape (c : Char) :
    readUnits (document.escape c ++ rest) = consUnit c.toNat (readUnits rest) := by
  unfold document
  simp only
  split_ifs with hquote hslash hline hreturn htab hback hfeed hcontrol
  · exact readUnits_short_eq hquote (by decide) rfl
  · exact readUnits_short_eq hslash (by decide) rfl
  · exact readUnits_short_eq hline (by decide) rfl
  · exact readUnits_short_eq hreturn (by decide) rfl
  · exact readUnits_short_eq htab (by decide) rfl
  · exact readUnits_short_eq (eq_of_toNat_eq (d := '\x08') hback) (by decide) rfl
  · exact readUnits_short_eq (eq_of_toNat_eq (d := '\x0c') hfeed) (by decide) rfl
  · exact readUnits_coded (by omega)
  · exact readUnits_plain hquote hslash hcontrol

/-- The number that stands in a text for a float. -/
def Convention.number (k : Convention) (x : Binary64) : Json :=
  match readNumber (k.float x) with
  | some (j, _) => j
  | none => .null

theorem Convention.number_eq {k : Convention} {x : Binary64} {j : Json}
    (h : readNumber (k.float x) = some (j, [])) : k.number x = j := by
  rw [number, h]

/-- Every character is read as itself and every finite float as its number, whatever follows. -/
structure Convention.Legible (k : Convention) : Prop where
  escape : ∀ c rest, readUnits (k.escape c ++ rest) = consUnit c.toNat (readUnits rest)
  float : ∀ x rest, x.isFinite = true → EndsNumeral rest →
    readNumber (k.float x ++ rest) = some (k.number x, rest)

theorem endsNumeral_nil : EndsNumeral [] := fun c hc => by cases hc

theorem number_document {x : Binary64} (hx : x.isFinite = true) : document.number x = .float x := by
  have hread := readNumber_document hx endsNumeral_nil
  rw [List.append_nil] at hread
  exact Convention.number_eq hread

theorem legible_document : document.Legible where
  escape := fun c _ => readUnits_escape c
  float := fun x rest hx hrest => by
    rw [number_document hx]
    exact readNumber_document hx hrest

theorem readUnits_string {k : Convention} (hk : k.Legible) (cs : List Char) :
    readUnits (cs.flatMap k.escape ++ '"' :: rest) = some (cs.map Char.toNat, rest) := by
  induction cs with
  | nil => rfl
  | cons c cs ih =>
    rw [List.flatMap_cons, List.append_assoc, hk.escape, ih]
    rfl

theorem not_surrogate (c : Char) :
    isHighSurrogate c.toNat = false ∧ isLowSurrogate c.toNat = false := by
  have hvalid : c.toNat < 0xd800 ∨ 0xdfff < c.toNat ∧ c.toNat < 0x110000 := c.valid
  simp only [isHighSurrogate, isLowSurrogate, Bool.and_eq_false_iff, decide_eq_false_iff_not]
  omega

theorem joinUnits_toNat (cs : List Char) : joinUnits (cs.map Char.toNat) = some cs := by
  induction cs with
  | nil => rfl
  | cons c cs ih =>
    obtain ⟨hhigh, hlow⟩ := not_surrogate c
    cases cs with
    | nil => simp [joinUnits, hhigh, hlow, Char.ofNat_toNat]
    | cons d ds =>
      simp only [List.map_cons] at ih ⊢
      rw [joinUnits, hhigh, hlow]
      simp only [Bool.false_eq_true, if_false, ih]
      simp [Char.ofNat_toNat]

theorem readString_write {k : Convention} (hk : k.Legible) (s : String) :
    readString (s.toList.flatMap k.escape ++ '"' :: rest) = some (s, rest) := by
  rw [readString, readUnits_string hk]
  simp [joinUnits_toNat]

end Strings

/-! ## Values -/

mutual

/-- How deep containers are nested. -/
def depth : Json → Nat
  | .null => 0
  | .bool _ => 0
  | .int _ => 0
  | .float _ => 0
  | .string _ => 0
  | .array items => depthItems items + 1
  | .object members => depthMembers members + 1

def depthItems : List Json → Nat
  | [] => 0
  | j :: rest => max (depth j) (depthItems rest)

def depthMembers : List (String × Json) → Nat
  | [] => 0
  | (_, j) :: rest => max (depth j) (depthMembers rest)

end

mutual

/-- Whether every number has a text of its own: whole numbers of 64 bits, and finite ones. -/
def Writable : Json → Prop
  | .null => True
  | .bool _ => True
  | .string _ => True
  | .int n => Integer.least ≤ n ∧ n < 18446744073709551616
  | .float x => x.isFinite = true
  | .array items => WritableItems items
  | .object members => WritableMembers members

def WritableItems : List Json → Prop
  | [] => True
  | j :: rest => Writable j ∧ WritableItems rest

def WritableMembers : List (String × Json) → Prop
  | [] => True
  | (_, j) :: rest => Writable j ∧ WritableMembers rest

end

mutual

/-- The document as it is read from its text. -/
def reread (k : Convention) : Json → Json
  | .float x => k.number x
  | .array items => .array (rereadItems k items)
  | .object members => .object (rereadMembers k members)
  | j => j

def rereadItems (k : Convention) : List Json → List Json
  | [] => []
  | j :: rest => reread k j :: rereadItems k rest

def rereadMembers (k : Convention) : List (String × Json) → List (String × Json)
  | [] => []
  | (name, j) :: rest => (name, reread k j) :: rereadMembers k rest

end

mutual

theorem reread_document : ∀ {j : Json}, Writable j → reread document j = j
  | .float x, h => number_document h
  | .array items, h => by rw [reread, rereadItems_document h]
  | .object members, h => by rw [reread, rereadMembers_document h]
  | .null, _ | .bool _, _ | .int _, _ | .string _, _ => rfl

theorem rereadItems_document : ∀ {items : List Json}, WritableItems items →
    rereadItems document items = items
  | [], _ => rfl
  | j :: rest, h => by rw [rereadItems, reread_document h.1, rereadItems_document h.2]

theorem rereadMembers_document : ∀ {members : List (String × Json)}, WritableMembers members →
    rereadMembers document members = members
  | [], _ => rfl
  | (name, j) :: rest, h => by
    rw [rereadMembers, reread_document h.1, rereadMembers_document h.2]

end

section Spaces

variable {spaces cs rest : List Char}

theorem skipSpace_append (hspaces : ∀ c ∈ spaces, isSpace c = true) :
    skipSpace (spaces ++ cs) = skipSpace cs :=
  List.dropWhile_append_of_pos hspaces

theorem skipSpace_cons {c : Char} (hc : isSpace c = false) : skipSpace (c :: cs) = c :: cs := by
  simp [skipSpace, hc]

theorem isSpace_lineBreak {pretty : Bool} {level : Nat} :
    ∀ c ∈ lineBreak pretty level, isSpace c = true := by
  intro c hc
  cases pretty with
  | false => cases hc
  | true =>
    rcases List.mem_cons.1 hc with rfl | hc
    · rfl
    · rw [List.eq_of_mem_replicate hc]
      rfl

theorem readValue_append {d : Nat} (hspaces : ∀ c ∈ spaces, isSpace c = true) :
    readValue d (spaces ++ cs) = readValue d cs := by
  rw [readValue.eq_def, skipSpace_append hspaces, ← readValue.eq_def]

/-- What can follow a value in a document. -/
theorem endsNumeral_lineBreak {pretty : Bool} {level : Nat} {c : Char}
    (hc : c = ',' ∨ c = ']' ∨ c = '\x7d') : EndsNumeral (lineBreak pretty level ++ c :: cs) := by
  intro d hd
  cases pretty with
  | false =>
    cases hd
    rcases hc with rfl | rfl | rfl <;> decide
  | true =>
    cases hd
    decide

end Spaces

/-! ## Numbers among values -/

section Scalars

variable {k : Convention} {d : Nat} {cs rest : List Char} {c : Char} {j : Json}

theorem head_of_readNumber (h : readNumber cs = some (j, rest)) :
    ∃ c tail, cs = c :: tail ∧ (c = '-' ∨ c.isDigit = true) := by
  cases cs with
  | nil => cases h
  | cons c tail =>
    refine ⟨c, tail, rfl, ?_⟩
    by_contra hc
    rw [not_or] at hc
    have hminus : (List.head? (c :: tail) == some '-') = false := by simpa using hc.1
    have hzero : ∀ rest, c :: tail = '0' :: rest → False := by
      rintro rest heq
      exact hc.2 (by rw [(List.cons.inj heq).1]; rfl)
    rw [readNumber, hminus] at h
    simp [readWhole.eq_2 _ hzero, hc.2] at h

theorem not_isSpace_of_numeral (hc : c = '-' ∨ c.isDigit = true) : isSpace c = false := by
  rw [Bool.eq_false_iff]
  intro hspace
  have hspace : ((c = ' ' ∨ c = '\n') ∨ c = '\t') ∨ c = '\r' := by simpa [isSpace] using hspace
  rcases hspace with ((rfl | rfl) | rfl) | rfl <;> exact absurd hc (by decide)

theorem readValue_number (h : readNumber cs = some (j, rest)) :
    readValue d cs = some (j, rest) := by
  obtain ⟨c, tail, rfl, hc⟩ := head_of_readNumber h
  rw [readValue.eq_def, skipSpace_cons (not_isSpace_of_numeral hc)]
  split
  case h_7 => exact h
  all_goals
    rename_i heq
    cases heq
    exact absurd hc (by decide)

theorem readValue_string (hk : k.Legible) {s : String} :
    readValue d (writeString k s ++ rest) = some (.string s, rest) := by
  rw [writeString, List.append_assoc, List.cons_append, readValue.eq_def, skipSpace_cons rfl]
  simp only [List.singleton_append, readString_write hk, Option.map_some]

/-- The first character of a value. -/
theorem head_write (hk : k.Legible) {pretty : Bool} {level : Nat} (hj : Writable j) :
    ∃ c tail, write k pretty level j = c :: tail ∧ isSpace c = false ∧ c ≠ ']' := by
  have hnumeral : ∀ {cs : List Char} {j : Json}, readNumber (cs ++ []) = some (j, []) →
      ∃ c tail, cs = c :: tail ∧ isSpace c = false ∧ c ≠ ']' := by
    intro cs j h
    rw [List.append_nil] at h
    obtain ⟨c, tail, rfl, hc⟩ := head_of_readNumber h
    refine ⟨c, tail, rfl, not_isSpace_of_numeral hc, ?_⟩
    rintro rfl
    exact absurd hc (by decide)
  cases j with
  | null => exact ⟨_, _, rfl, rfl, by decide⟩
  | bool b => cases b <;> exact ⟨_, _, rfl, rfl, by decide⟩
  | int n =>
    rw [Writable] at hj
    exact hnumeral (readNumber_int hj.1 hj.2 endsNumeral_nil)
  | float x =>
    rw [Writable] at hj
    exact hnumeral (hk.float x [] hj endsNumeral_nil)
  | string s => exact ⟨_, _, rfl, rfl, by decide⟩
  | array items => cases items <;> exact ⟨_, _, rfl, rfl, by decide⟩
  | object members => cases members <;> exact ⟨_, _, rfl, rfl, by decide⟩

end Scalars

/-! ## Containers -/

/-- The entries of a container after the first, each after a comma. -/
def following (pretty : Bool) (level : Nat) (texts : List (List Char)) : List Char :=
  texts.flatMap fun text => ',' :: (lineBreak pretty level ++ text)

/-- The entries of a container, with commas between them. -/
def entries (pretty : Bool) (level : Nat) : List (List Char) → List Char
  | [] => []
  | text :: rest => text ++ following pretty level rest

def memberText (k : Convention) (pretty : Bool) (level : Nat) (m : String × Json) : List Char :=
  writeString k m.1 ++ (colon pretty ++ write k pretty level m.2)

theorem following_cons (pretty : Bool) (level : Nat) (text : List Char) (rest : List (List Char)) :
    following pretty level (text :: rest) =
      ',' :: (lineBreak pretty level ++ entries pretty level (text :: rest)) := by
  simp [following, entries]

theorem writeItems_eq (k : Convention) (pretty : Bool) (level : Nat) (items : List Json) :
    writeItems k pretty level items =
      following pretty level (items.map (write k pretty level)) := by
  induction items with
  | nil => rfl
  | cons j rest ih =>
    rw [writeItems, ih]
    simp [following]

theorem writeMembers_eq (k : Convention) (pretty : Bool) (level : Nat)
    (members : List (String × Json)) :
    writeMembers k pretty level members =
      following pretty level (members.map (memberText k pretty level)) := by
  induction members with
  | nil => rfl
  | cons m rest ih =>
    rw [writeMembers, ih]
    simp [following, memberText]

theorem write_array_cons (k : Convention) (pretty : Bool) (level : Nat) (j : Json)
    (rest : List Json) :
    write k pretty level (.array (j :: rest)) =
      '[' :: (lineBreak pretty (level + 1) ++
        (entries pretty (level + 1) ((j :: rest).map (write k pretty (level + 1))) ++
          (lineBreak pretty level ++ [']']))) := by
  rw [write, writeItems_eq]
  simp [entries]

theorem write_object_cons (k : Convention) (pretty : Bool) (level : Nat) (m : String × Json)
    (rest : List (String × Json)) :
    write k pretty level (.object (m :: rest)) =
      '\x7b' :: (lineBreak pretty (level + 1) ++
        (entries pretty (level + 1) ((m :: rest).map (memberText k pretty (level + 1))) ++
          (lineBreak pretty level ++ ['\x7d']))) := by
  rw [write, writeMembers_eq]
  simp [entries, memberText]

/-- Every entry takes a character, so that the length of the text is enough fuel. -/
theorem length_le_entries (pretty : Bool) (level : Nat) (texts : List (List Char)) :
    texts.length ≤ (entries pretty level texts).length + 1 := by
  have hcommas : ∀ texts, texts.length ≤ (following pretty level texts).length := by
    intro texts
    induction texts with
    | nil => exact Nat.zero_le _
    | cons text rest ih =>
      simp only [following, List.flatMap_cons, List.length_append, List.length_cons] at ih ⊢
      omega
  cases texts with
  | nil => exact Nat.zero_le _
  | cons text rest =>
    have hle := hcommas rest
    simp only [entries, List.length_append, List.length_cons]
    omega

/-- What follows an entry: the end of the container, or a comma and the next entry. -/
theorem skipSpace_following {pretty : Bool} {level outer : Nat} {close : Char}
    {texts : List (List Char)} {rest : List Char} (hclose : isSpace close = false) :
    skipSpace (following pretty level texts ++ (lineBreak pretty outer ++ close :: rest)) =
      if texts = [] then close :: rest
      else ',' :: (lineBreak pretty level ++ (entries pretty level texts ++
        (lineBreak pretty outer ++ close :: rest))) := by
  cases texts with
  | nil =>
    rw [if_pos rfl]
    exact (skipSpace_append isSpace_lineBreak).trans (skipSpace_cons hclose)
  | cons text texts =>
    rw [following_cons, List.cons_append, skipSpace_cons rfl, List.append_assoc,
      if_neg (List.cons_ne_nil text texts)]

theorem endsNumeral_following {pretty : Bool} {level outer : Nat} {close : Char}
    {texts : List (List Char)} {rest : List Char} (hclose : close = ']' ∨ close = '\x7d') :
    EndsNumeral (following pretty level texts ++ (lineBreak pretty outer ++ close :: rest)) := by
  cases texts with
  | nil => exact endsNumeral_lineBreak (.inr hclose)
  | cons text texts =>
    rw [following_cons]
    exact @endsNumeral_lineBreak _ false 0 _ (.inl rfl)

section Containers

variable {k : Convention} {d : Nat} {spaces cs rest : List Char}

theorem readValue_array : readValue (d + 1) ('[' :: cs) = readArray (readValue d) cs := by
  rw [readValue.eq_def, skipSpace_cons rfl]
  rfl

theorem readValue_object : readValue (d + 1) ('\x7b' :: cs) = readObject (readValue d) cs := by
  rw [readValue.eq_def, skipSpace_cons rfl]
  rfl

theorem readArray_of_item {item : Reader Json} {c : Char}
    (hspaces : ∀ c ∈ spaces, isSpace c = true) (hspace : isSpace c = false) (hc : c ≠ ']') :
    readArray item (spaces ++ c :: cs) =
      (readItems item (c :: cs).length (c :: cs)).map
        fun (items, rest) => (.array items, rest) := by
  rw [readArray, skipSpace_append hspaces, skipSpace_cons hspace]
  split
  · rename_i heq
    exact absurd (List.cons.inj heq).1 hc
  · rfl

theorem readObject_of_member {item : Reader Json} (hspaces : ∀ c ∈ spaces, isSpace c = true) :
    readObject item (spaces ++ '"' :: cs) =
      (readMembers item ('"' :: cs).length ('"' :: cs)).map
        fun (members, rest) => (.object members, rest) := by
  rw [readObject, skipSpace_append hspaces, skipSpace_cons rfl]
  rfl

variable {item : Reader Json} {fuel : Nat} {j : Json} {tail : List Char}

theorem readItems_none (hitem : item cs = none) : readItems item (fuel + 1) cs = none := by
  rw [readItems, hitem]
  rfl

theorem readItems_last (hitem : item cs = some (j, rest)) (hskip : skipSpace rest = ']' :: tail) :
    readItems item (fuel + 1) cs = some ([j], tail) := by
  rw [readItems, hitem]
  simp only [Option.bind_eq_bind, Option.bind_some, hskip]
  rfl

theorem readItems_comma (hitem : item cs = some (j, rest)) (hskip : skipSpace rest = ',' :: tail) :
    readItems item (fuel + 1) cs =
      (readItems item fuel tail).map fun (others, rest) => (j :: others, rest) := by
  rw [readItems, hitem]
  simp only [Option.bind_eq_bind, Option.bind_some, hskip]
  cases readItems item fuel tail <;> rfl

variable {name : String} {pretty : Bool}

theorem skipSpace_colon :
    skipSpace (colon pretty ++ cs) = ':' :: ((colon pretty).tail ++ cs) := by
  cases pretty <;> rfl

theorem skipSpace_name (hspaces : ∀ c ∈ spaces, isSpace c = true) :
    skipSpace (spaces ++ (writeString k name ++ cs)) =
      '"' :: (name.toList.flatMap k.escape ++ '"' :: cs) := by
  rw [skipSpace_append hspaces, writeString, List.append_assoc, List.cons_append,
    skipSpace_cons rfl, List.singleton_append]

theorem readMembers_none (hk : k.Legible) (hspaces : ∀ c ∈ spaces, isSpace c = true)
    (hitem : item ((colon pretty).tail ++ cs) = none) :
    readMembers item (fuel + 1) (spaces ++ (writeString k name ++ (colon pretty ++ cs))) =
      none := by
  rw [readMembers, skipSpace_name hspaces]
  simp only [readString_write hk, Option.bind_eq_bind, Option.bind_some, skipSpace_colon, hitem,
    Option.bind_none]

theorem readMembers_last (hk : k.Legible) (hspaces : ∀ c ∈ spaces, isSpace c = true)
    (hitem : item ((colon pretty).tail ++ cs) = some (j, rest))
    (hskip : skipSpace rest = '\x7d' :: tail) :
    readMembers item (fuel + 1) (spaces ++ (writeString k name ++ (colon pretty ++ cs))) =
      some ([(name, j)], tail) := by
  rw [readMembers, skipSpace_name hspaces]
  simp only [readString_write hk, Option.bind_eq_bind, Option.bind_some, skipSpace_colon, hitem,
    hskip]
  rfl

theorem readMembers_comma (hk : k.Legible) (hspaces : ∀ c ∈ spaces, isSpace c = true)
    (hitem : item ((colon pretty).tail ++ cs) = some (j, rest))
    (hskip : skipSpace rest = ',' :: tail) :
    readMembers item (fuel + 1) (spaces ++ (writeString k name ++ (colon pretty ++ cs))) =
      (readMembers item fuel tail).map fun (others, rest) => ((name, j) :: others, rest) := by
  rw [readMembers, skipSpace_name hspaces]
  simp only [readString_write hk, Option.bind_eq_bind, Option.bind_some, skipSpace_colon, hitem,
    hskip]
  cases readMembers item fuel tail <;> rfl

theorem isSpace_tail_colon : ∀ c ∈ (colon pretty).tail, isSpace c = true := by
  cases pretty <;> simp [colon, isSpace]

end Containers

mutual

/-- The text of a document is read as the document, unless it is nested too deep. -/
theorem readValue_write {k : Convention} (hk : k.Legible) (pretty : Bool) :
    ∀ (j : Json), Writable j → ∀ (d level : Nat) (rest : List Char), EndsNumeral rest →
    readValue d (write k pretty level j ++ rest) =
      if depth j ≤ d then some (reread k j, rest) else none
  | .null, _, d, level, rest, _ => by
    rw [write, readValue.eq_def, depth, if_pos (Nat.zero_le d)]
    rfl
  | .bool b, _, d, level, rest, _ => by
    rw [write, readValue.eq_def, depth, if_pos (Nat.zero_le d)]
    cases b <;> rfl
  | .int n, hj, d, level, rest, hrest => by
    rw [Writable] at hj
    rw [write, depth, if_pos (Nat.zero_le d)]
    exact readValue_number (readNumber_int hj.1 hj.2 hrest)
  | .float x, hj, d, level, rest, hrest => by
    rw [Writable] at hj
    rw [write, depth, if_pos (Nat.zero_le d)]
    exact readValue_number (hk.float x rest hj hrest)
  | .string s, _, d, level, rest, _ => by
    rw [write, depth, if_pos (Nat.zero_le d)]
    exact readValue_string hk
  | .array [], _, d, level, rest, _ => by
    rw [write, depth, depthItems, readValue.eq_def]
    cases d <;> rfl
  | .array (j :: items), hj, 0, level, rest, _ => by
    rw [write_array_cons, depth, if_neg (by omega)]
    rfl
  | .array (j :: items), hj, d + 1, level, rest, _ => by
    rw [Writable] at hj
    obtain ⟨c, tail, hwrite, hspace, hc⟩ := @head_write _ _ hk pretty (level + 1) hj.1
    have hitems := readItems_write hk pretty (j :: items) hj (List.cons_ne_nil j items) d
      (level + 1) level [] rest (fun c hc => absurd hc List.not_mem_nil)
    have hfuel := length_le_entries pretty (level + 1)
      ((j :: items).map (write k pretty (level + 1)))
    rw [List.length_map] at hfuel
    -- reading an array stops at once unless an item comes first
    obtain ⟨text, htext⟩ : ∃ text, entries pretty (level + 1)
        ((j :: items).map (write k pretty (level + 1))) = c :: text := by
      rw [List.map_cons, entries, hwrite]
      exact ⟨_, rfl⟩
    rw [htext] at hfuel hitems
    rw [write_array_cons, htext, List.cons_append, List.append_assoc, List.append_assoc,
      List.append_assoc, readValue_array, List.cons_append, List.singleton_append,
      readArray_of_item isSpace_lineBreak hspace hc]
    rw [List.nil_append, List.cons_append] at hitems
    rw [hitems _ (by simp only [List.length_cons, List.length_append] at *; omega)]
    simp only [depth, Nat.add_le_add_iff_right]
    split <;> rfl
  | .object [], _, d, level, rest, _ => by
    rw [write, depth, depthMembers, readValue.eq_def]
    cases d <;> rfl
  | .object (m :: members), hj, 0, level, rest, _ => by
    rw [write_object_cons, depth, if_neg (by omega)]
    rfl
  | .object (m :: members), hj, d + 1, level, rest, _ => by
    rw [Writable] at hj
    have hmembers := readMembers_write hk pretty (m :: members) hj (List.cons_ne_nil m members) d
      (level + 1) level [] rest (fun c hc => absurd hc List.not_mem_nil)
    have hfuel := length_le_entries pretty (level + 1)
      ((m :: members).map (memberText k pretty (level + 1)))
    rw [List.length_map] at hfuel
    obtain ⟨text, htext⟩ : ∃ text, entries pretty (level + 1)
        ((m :: members).map (memberText k pretty (level + 1))) = '"' :: text := by
      rw [List.map_cons, entries, memberText, writeString]
      exact ⟨_, rfl⟩
    rw [htext] at hfuel hmembers
    rw [write_object_cons, htext, List.cons_append, List.append_assoc, List.append_assoc,
      List.append_assoc, readValue_object, List.cons_append, List.singleton_append,
      readObject_of_member isSpace_lineBreak]
    rw [List.nil_append, List.cons_append] at hmembers
    rw [hmembers _ (by simp only [List.length_cons, List.length_append] at *; omega)]
    simp only [depth, Nat.add_le_add_iff_right]
    split <;> rfl

theorem readItems_write {k : Convention} (hk : k.Legible) (pretty : Bool) :
    ∀ (items : List Json), WritableItems items → items ≠ [] →
    ∀ (d level outer : Nat) (spaces rest : List Char),
    (∀ c ∈ spaces, isSpace c = true) → ∀ fuel, items.length ≤ fuel →
    readItems (readValue d) fuel
        (spaces ++ (entries pretty level (items.map (write k pretty level)) ++
          (lineBreak pretty outer ++ ']' :: rest))) =
      if depthItems items ≤ d then some (rereadItems k items, rest) else none
  | [], _, hne, _, _, _, _, _, _, _, _ => absurd rfl hne
  | j :: items, _, _, _, _, _, _, _, _, 0, hfuel => absurd hfuel (Nat.not_succ_le_zero _)
  | j :: items, hitems, _, d, level, outer, spaces, rest, hspaces, fuel + 1, hfuel => by
    rw [WritableItems] at hitems
    have hitem := readValue_write hk pretty j hitems.1 d level _
      (@endsNumeral_following pretty level outer _ (items.map (write k pretty level)) rest
        (.inl rfl))
    have hskip := @skipSpace_following pretty level outer ']'
      (items.map (write k pretty level)) rest rfl
    rw [← readValue_append hspaces] at hitem
    rw [List.map_cons, entries, List.append_assoc, depthItems]
    by_cases hdepth : depth j ≤ d
    · rw [if_pos hdepth] at hitem
      by_cases hnil : items = []
      · subst hnil
        rw [readItems_last hitem hskip, depthItems, if_pos (by omega)]
        rfl
      · rw [if_neg (by simpa using hnil)] at hskip
        rw [readItems_comma hitem hskip, readItems_write hk pretty items hitems.2 hnil d level
          outer (lineBreak pretty level) rest isSpace_lineBreak fuel
          (Nat.le_of_succ_le_succ hfuel)]
        by_cases hrest : depthItems items ≤ d
        · rw [if_pos hrest, if_pos (by omega)]
          rfl
        · rw [if_neg hrest, if_neg (by omega)]
          rfl
    · rw [if_neg hdepth] at hitem
      rw [readItems_none hitem, if_neg (by omega)]

theorem readMembers_write {k : Convention} (hk : k.Legible) (pretty : Bool) :
    ∀ (members : List (String × Json)), WritableMembers members → members ≠ [] →
    ∀ (d level outer : Nat) (spaces rest : List Char),
    (∀ c ∈ spaces, isSpace c = true) → ∀ fuel, members.length ≤ fuel →
    readMembers (readValue d) fuel
        (spaces ++ (entries pretty level (members.map (memberText k pretty level)) ++
          (lineBreak pretty outer ++ '\x7d' :: rest))) =
      if depthMembers members ≤ d then some (rereadMembers k members, rest) else none
  | [], _, hne, _, _, _, _, _, _, _, _ => absurd rfl hne
  | (name, j) :: members, _, _, _, _, _, _, _, _, 0, hfuel => absurd hfuel (Nat.not_succ_le_zero _)
  | (name, j) :: members, hmembers, _, d, level, outer, spaces, rest, hspaces, fuel + 1, hfuel => by
    rw [WritableMembers] at hmembers
    have hvalue := readValue_write hk pretty j hmembers.1 d level _
      (@endsNumeral_following pretty level outer _ (members.map (memberText k pretty level)) rest
        (.inr rfl))
    have hskip := @skipSpace_following pretty level outer '\x7d'
      (members.map (memberText k pretty level)) rest rfl
    rw [← readValue_append isSpace_tail_colon] at hvalue
    rw [List.map_cons, entries, memberText, List.append_assoc, List.append_assoc,
      List.append_assoc, depthMembers]
    by_cases hdepth : depth j ≤ d
    · rw [if_pos hdepth] at hvalue
      by_cases hnil : members = []
      · subst hnil
        rw [readMembers_last hk hspaces hvalue hskip, depthMembers, if_pos (by omega)]
        rfl
      · rw [if_neg (by simpa using hnil)] at hskip
        rw [readMembers_comma hk hspaces hvalue hskip, readMembers_write hk pretty members
          hmembers.2 hnil d level outer (lineBreak pretty level) rest isSpace_lineBreak fuel
          (Nat.le_of_succ_le_succ hfuel)]
        by_cases hrest : depthMembers members ≤ d
        · rw [if_pos hrest, if_pos (by omega)]
          rfl
        · rw [if_neg hrest, if_neg (by omega)]
          rfl
    · rw [if_neg hdepth] at hvalue
      rw [readMembers_none hk hspaces hvalue, if_neg (by omega)]

end

/-- A text is read as the document that it was written for when that is not nested too deep, and
refused otherwise. -/
theorem readWithin_toText {k : Convention} (hk : k.Legible) {j : Json} (hj : Writable j)
    (pretty : Bool) (limit : Nat) : readWithin? limit (toText k pretty j) =
      if depth j ≤ limit then some (reread k j) else none := by
  have hread := readValue_write hk pretty j hj limit 0 [] endsNumeral_nil
  rw [List.append_nil] at hread
  rw [readWithin?, toText, String.toList_ofList, hread]
  split <;> rfl

theorem readWritten_toText {j : Json} (hj : Writable j) (pretty : Bool) :
    readWritten? (toText document pretty j) = if depth j ≤ maxDepth then some j else none := by
  rw [readWritten?, readWithin_toText legible_document hj, reread_document hj]

end FormulaPipeline.Json
