import FormulaPipeline.Proofs.Formula.Scanning

/-!
# The tokens of a text are its segments

Reading a text token by token cuts it into lexemes with blanks between them, up to the end of the
text or to a fault. Each call takes a lexeme, so there are few of them.
-/

namespace FormulaPipeline

namespace Lexer

/-- The call for the next token: it skips the blanks, and from the offset that it gives first it
reads a token. -/
def next (position : Nat) (cs : List Char) : Nat × Scan Token :=
  let start := position + (cs.takeWhile Text.isBlank).length
  (start, scan start (cs.dropWhile Text.isBlank))

/-- A text that has been read up to some place is cut by further calls, as many as said, into the
lexemes that follow. Between the place and the next lexeme, the fault or the end there are blanks
only, and each lexeme gives its token also when it is a text of its own. -/
inductive Segments : Nat → List Char → List Char → Lexemes → Prop
  /-- The call finds the end of the text. -/
  | nil {before blanks : List Char} (hblanks : ∀ b ∈ blanks, Text.isBlank b = true)
      (hcall : next before.length blanks = ((before ++ blanks).length, .ok (.endOfInput, []))) :
      Segments 1 before blanks (.nil (before ++ blanks).length)
  /-- The call fails, and the fault is at one of the characters from its start on. -/
  | fault {before blanks rest : List Char} {e : SyntaxError}
      (hblanks : ∀ b ∈ blanks, Text.isBlank b = true)
      (hcall : next before.length (blanks ++ rest) = ((before ++ blanks).length, .error e))
      (hlow : (before ++ blanks).length ≤ e.position)
      (hhigh : e.position < (before ++ blanks ++ rest).length) :
      Segments 1 before (blanks ++ rest) (.fault e)
  /-- The call takes a lexeme, and others cut what follows it. -/
  | cons {calls : Nat} {before blanks lexeme rest : List Char} {t : Token} {s : Lexemes}
      (hblanks : ∀ b ∈ blanks, Text.isBlank b = true) (hlexeme : lexeme ≠ [])
      (ht : t ≠ .endOfInput)
      (hcall : next before.length (blanks ++ lexeme ++ rest) =
        ((before ++ blanks).length, .ok (t, rest)))
      (halone : Lexemes.ofText (String.ofList lexeme) = .cons 0 t (.nil lexeme.length))
      (hrest : Segments calls (before ++ blanks ++ lexeme) rest s) :
      Segments (calls + 1) before (blanks ++ lexeme ++ rest) (.cons (before ++ blanks).length t s)

theorem next_skip {position : Nat} {blanks cs : List Char}
    (hblanks : ∀ b ∈ blanks, Text.isBlank b = true) :
    next position (blanks ++ cs) = next (position + blanks.length) cs := by
  simp only [next, List.takeWhile_append_of_pos hblanks, List.dropWhile_append_of_pos hblanks,
    List.length_append, Nat.add_assoc]

theorem next_cons {position : Nat} {c : Char} {cs : List Char} (hblank : Text.isBlank c = false) :
    next position (c :: cs) = (position, scan position (c :: cs)) := by
  simp [next, hblank]

theorem ofText_alone {c : Char} {used : List Char} {t : Token} (hblank : Text.isBlank c = false)
    (hscan : scan 0 (c :: used) = .ok (t, [])) :
    Lexemes.ofText (String.ofList (c :: used)) = .cons 0 t (.nil (c :: used).length) := by
  rw [Lexemes.ofText, String.toList_ofList, lexemes_cons hblank hscan]
  simp [lexemes]

theorem exists_blanks (cs : List Char) :
    ∃ blanks rest, cs = blanks ++ rest ∧ (∀ b ∈ blanks, Text.isBlank b = true) ∧
      ∀ c ∈ rest.head?, Text.isBlank c = false := by
  refine ⟨cs.takeWhile Text.isBlank, cs.dropWhile Text.isBlank,
    List.takeWhile_append_dropWhile.symm, fun _ => List.mem_takeWhile_imp, fun c hc => ?_⟩
  have hhead := List.head?_dropWhile_not Text.isBlank cs
  rw [Option.mem_def] at hc
  simpa [hc] using hhead

/-- With fuel for each character, the calls reach the end or a fault. -/
theorem segments_lexemes {fuel : Nat} (before after : List Char) (hfuel : after.length < fuel) :
    ∃ calls ≤ after.length + 1, Segments calls before after (lexemes fuel before.length after) := by
  induction fuel generalizing before after with
  | zero => omega
  | succ fuel ih =>
    obtain ⟨blanks, rest, rfl, hblanks, hfirst⟩ := exists_blanks after
    have hskip := @next_skip before.length blanks rest hblanks
    rw [lexemes_skip hblanks, ← List.length_append]
    rw [← List.length_append] at hskip
    cases rest with
    | nil =>
      rw [List.append_nil] at hskip ⊢
      exact ⟨1, by omega, .nil hblanks hskip⟩
    | cons c cs =>
      have hblank : Text.isBlank c = false := hfirst c rfl
      rw [next_cons hblank] at hskip
      rw [List.length_append, List.length_cons] at hfuel ⊢
      cases hscan : scan (before ++ blanks).length (c :: cs) with
      | error e =>
        obtain ⟨hlow, hhigh⟩ := scan_fault hscan
        rw [lexemes_fault hblank hscan]
        exact ⟨1, by omega, .fault hblanks (hscan ▸ hskip) hlow (by rwa [List.length_append])⟩
      | ok result =>
        obtain ⟨t, rest⟩ := result
        obtain ⟨used, rfl, halone⟩ := scan_takes hscan
        rw [List.length_append] at hfuel ⊢
        obtain ⟨calls, hcalls, hrest⟩ := ih (before ++ blanks ++ c :: used) rest (by omega)
        have hnext : (before ++ blanks).length + ((c :: (used ++ rest)).length - rest.length) =
            (before ++ blanks ++ c :: used).length := by
          simp only [List.length_append, List.length_cons]
          omega
        rw [lexemes_cons hblank hscan, hnext, ← List.cons_append, ← List.append_assoc]
        exact ⟨calls + 1, by omega, .cons hblanks (List.cons_ne_nil c used)
          (scan_ne_endOfInput hscan) (by rw [List.append_assoc, List.cons_append, hskip, hscan])
          (ofText_alone hblank (halone 0)) hrest⟩

end Lexer

/-- The offsets of the tokens. -/
def Lexemes.starts : Lexemes → List Nat
  | cons start _ rest => start :: rest.starts
  | _ => []

namespace Lexer.Segments

variable {calls : Nat} {before after : List Char} {s : Lexemes}

theorem le_of_mem_starts (h : Segments calls before after s) :
    ∀ start ∈ s.starts, before.length ≤ start := by
  induction h with
  | nil => simp [Lexemes.starts]
  | fault => simp [Lexemes.starts]
  | cons hblanks hlexeme ht hcall halone hrest ih =>
    simp only [Lexemes.starts, List.mem_cons, forall_eq_or_imp, List.length_append] at ih ⊢
    exact ⟨by omega, fun start hstart => (ih start hstart).trans' (by omega)⟩

theorem pairwise_starts (h : Segments calls before after s) : s.starts.Pairwise (· < ·) := by
  induction h with
  | nil => exact .nil
  | fault => exact .nil
  | cons hblanks hlexeme ht hcall halone hrest ih =>
    refine .cons (fun start hstart => ?_) ih
    have hpositive := List.length_pos_iff.2 hlexeme
    have hend := hrest.le_of_mem_starts start hstart
    rw [List.length_append] at hend
    omega

end Lexer.Segments

/-- Every text is cut into the lexemes of its tokens, from its first character to its end or to a
fault, and no more calls are needed than it has characters and one more. -/
theorem lexing_segments (text : String) :
    (∃ calls ≤ text.toList.length + 1, Lexer.Segments calls [] text.toList (.ofText text)) ∧
      (Lexemes.ofText text).starts.Pairwise (· < ·) := by
  obtain ⟨calls, hcalls, hsegments⟩ :=
    Lexer.segments_lexemes [] text.toList (Nat.lt_succ_self _)
  exact ⟨⟨calls, hcalls, hsegments⟩, hsegments.pairwise_starts⟩

end FormulaPipeline
