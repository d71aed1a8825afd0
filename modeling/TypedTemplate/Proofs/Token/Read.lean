-- SUMMARY: Reading a text token by token, with nothing lost and every token where it stands.
import TypedTemplate.Token.Lexer
import TypedTemplate.Proofs.Source.Region
import TypedTemplate.Proofs.Token.Stretch

/-!
# Reading a text

A lexer hands out the lexemes of its text in turn and then end tokens. Each call reads the trivia
before one token and the token's stretch, so the calls read all of the text. Where a token stands
is counted from what was read before it: its line in line feeds, its column in bytes.
-/

namespace TypedTemplate

/-! ## Trivia -/

/-- Where the text goes on with `rest`, the text `cs` before that is trivia: white space and byte
order marks, and comments that end before a line feed or at the end of the text. -/
inductive Trivia : (cs rest : List Char) → Prop where
  | nil {rest : List Char} : Trivia [] rest
  | space {c : Char} {cs rest : List Char} :
      c = '\uFEFF' ∨ Text.isBlank c = true → Trivia cs rest → Trivia (c :: cs) rest
  | comment {body cs rest : List Char} :
      '\n' ∉ body → (∀ c ∈ (cs ++ rest).head?, c = '\n') → Trivia cs rest →
        Trivia ('/' :: '/' :: body ++ cs) rest

/-- No trivia start here. -/
def Bare (cs : List Char) : Prop :=
  (∀ c ∈ cs.head?, isSpace c = false) ∧ ¬['/', '/'] <+: cs

/-- What is skipped before `rest`: the end of a comment, if one has begun, and trivia. -/
inductive Skips : (comment : Bool) → (skipped rest : List Char) → Prop where
  | trivia {cs rest : List Char} : Trivia cs rest → Skips false cs rest
  | comment {body cs rest : List Char} :
      '\n' ∉ body → (∀ c ∈ (cs ++ rest).head?, c = '\n') → Trivia cs rest →
        Skips true (body ++ cs) rest

theorem Skips.trivia_of_false {skipped rest : List Char} (h : Skips false skipped rest) :
    Trivia skipped rest := by
  cases h with
  | trivia h => exact h

/-- A comment that has not ended goes on. -/
theorem Skips.cons {c : Char} {skipped rest : List Char} (hc : c ≠ '\n')
    (h : Skips true skipped rest) : Skips true (c :: skipped) rest := by
  cases h with
  | @comment body cs _ hbody hhead htrivia =>
    exact @Skips.comment (c :: body) cs _ (by simp [hbody, Ne.symm hc]) hhead htrivia

/-- Where a line or the text ends, a comment ends too. -/
theorem Skips.of_trivia {cs rest : List Char} (h : Trivia cs rest)
    (hhead : ∀ c ∈ (cs ++ rest).head?, c = '\n') (comment : Bool) : Skips comment cs rest := by
  cases comment with
  | false => exact .trivia h
  | true => exact @Skips.comment [] cs rest (by simp) hhead h

theorem Skips.slashes {skipped rest : List Char} (h : Skips true skipped rest) :
    Trivia ('/' :: '/' :: skipped) rest := by
  cases h with
  | comment hbody hhead htrivia => exact .comment hbody hhead htrivia

theorem skips_skipTrivia (comment : Bool) (cs : List Char) :
    Skips comment (skipTrivia comment [] cs).1 (skipTrivia comment [] cs).2 ∧
      Bare (skipTrivia comment [] cs).2 := by
  match cs with
  | [] =>
    exact ⟨.of_trivia .nil (by simp [skipTrivia]) comment, by simp [skipTrivia, Bare]⟩
  | c :: rest =>
    rw [skipTrivia.eq_def]
    simp only
    split
    · rename_i hcomment
      simp only [Bool.and_eq_true, bne_iff_ne] at hcomment
      obtain ⟨rfl, hc⟩ := hcomment
      obtain ⟨hskips, hbare⟩ := skips_skipTrivia true rest
      rw [skipTrivia_onto]
      exact ⟨hskips.cons hc, hbare⟩
    rename_i hcomment
    split
    · rename_i hspace
      obtain ⟨hskips, hbare⟩ := skips_skipTrivia false rest
      have htrivia := hskips.trivia_of_false.space (c := c) (by simpa [isSpace] using hspace)
      rw [skipTrivia_onto]
      refine ⟨?_, hbare⟩
      cases comment with
      | false => exact .trivia htrivia
      | true =>
        obtain rfl : c = '\n' := by simpa using hcomment
        exact .of_trivia htrivia (by simp) true
    rename_i hspace
    -- a comment would have gone on, or ended before the line feed, which is white space
    obtain rfl : comment = false := by
      cases comment with
      | false => rfl
      | true =>
        obtain rfl : c = '\n' := by simpa using hcomment
        exact absurd (by decide) hspace
    split
    · rename_i rest'
      obtain ⟨hskips, hbare⟩ := skips_skipTrivia true rest'
      rw [skipTrivia_onto]
      exact ⟨.trivia hskips.slashes, hbare⟩
    · rename_i hslashes
      refine ⟨.trivia .nil, by simpa using hspace, ?_⟩
      rintro ⟨rest', heq⟩
      simp only [List.cons_append, List.nil_append, List.cons.injEq] at heq
      obtain ⟨hc, hrest⟩ := heq
      exact hslashes rest' hc.symm hrest.symm
termination_by cs.length

theorem trivia_skipTrivia (cs : List Char) :
    Trivia (skipTrivia false [] cs).1 (skipTrivia false [] cs).2 :=
  (skips_skipTrivia false cs).1.trivia_of_false

/-! ## Places -/

namespace Text

/-- What stands behind the last line feed. -/
def lastLine (cs : List Char) : List Char := (cs.reverse.takeWhile (· ≠ '\n')).reverse

/-- The column behind the text `cs`, whose first line starts at the column `col`. -/
def columnBehind (col : Nat) (cs : List Char) : Nat :=
  (if '\n' ∈ cs then 1 else col) + byteSize (lastLine cs)

theorem ne_of_mem_reverse {cs : List Char} (h : '\n' ∉ cs) :
    ∀ c ∈ cs.reverse, decide (c ≠ '\n') = true := by
  intro c hc
  have hne : c ≠ '\n' := fun heq => h (heq ▸ List.mem_reverse.1 hc)
  simpa using hne

theorem lastLine_of_not_mem {cs : List Char} (h : '\n' ∉ cs) : lastLine cs = cs := by
  rw [lastLine, ← List.append_nil cs.reverse, List.takeWhile_append_of_pos (ne_of_mem_reverse h)]
  simp

theorem lastLine_append {ds : List Char} (cs : List Char) (h : '\n' ∉ ds) :
    lastLine (cs ++ '\n' :: ds) = ds := by
  rw [lastLine, List.reverse_append, List.reverse_cons, List.append_assoc,
    List.takeWhile_append_of_pos (ne_of_mem_reverse h)]
  simp

theorem exists_lastLine {cs : List Char} (h : '\n' ∈ cs) :
    ∃ before behind, cs = before ++ '\n' :: behind ∧ '\n' ∉ behind := by
  obtain ⟨behind, before, heq, hbehind⟩ := List.eq_append_cons_of_mem (List.mem_reverse.2 h)
  refine ⟨before.reverse, behind.reverse, ?_, by simpa using hbehind⟩
  rw [← List.reverse_reverse cs, heq]
  simp

end Text

theorem Place.after_eq_columnBehind (p : Place) (cs : List Char) :
    p.after cs = ⟨p.line + cs.count '\n', Text.columnBehind p.col cs⟩ := by
  unfold Text.columnBehind
  by_cases hline : '\n' ∈ cs
  · obtain ⟨before, behind, rfl, hbehind⟩ := Text.exists_lastLine hline
    rw [after_line hbehind, if_pos hline, Text.lastLine_append _ hbehind, List.count_append,
      List.count_cons_self, List.count_eq_zero.2 hbehind]
    simp only [Nat.zero_add, Nat.add_assoc]
  · rw [after_of_not_mem hline, if_neg hline, Text.lastLine_of_not_mem hline,
      List.count_eq_zero.2 hline]
    rfl

/-! ## Tokens -/

/-- The scan gives a token that is all of its stretch, or an invalid one. -/
def Scan.Whole (start : Place) (s : Scan) : Prop :=
  s.lexeme.token.kind ≠ .eof ∧
    (s.lexeme.token.kind ≠ .invalid →
      s.lexeme.token = ⟨s.lexeme.token.kind, String.ofList s.lexeme.stretch,
        start.spanOf s.lexeme.stretch⟩)

theorem Scan.whole_valid {start : Place} {kind : TokenKind} {stretch rest : List Char}
    (h : kind ≠ .eof) : (valid start kind stretch rest).Whole start :=
  ⟨h, fun _ => rfl⟩

theorem Scan.whole_invalid {start : Place} {errors : List LexError} {last : LexError}
    {stretch rest : List Char} : (invalid errors last stretch rest).Whole start :=
  ⟨by simp [invalid], fun h => absurd rfl h⟩

theorem StringScan.whole_toScan {start : Place} {kind : TokenKind} (s : StringScan)
    (h : kind ≠ .eof) : (s.toScan start kind).Whole start := by
  unfold toScan
  cases s.ending with
  | closed =>
    dsimp only
    split
    · exact Scan.whole_valid h
    · exact ⟨by simp, fun hkind => absurd rfl hkind⟩
  | unterminated => exact Scan.whole_invalid
  | openHole opening => exact Scan.whole_invalid

theorem TokenKind.ofWord_ne_eof (cs : List Char) : ofWord cs ≠ .eof := by
  rcases ofWord_eq cs with h | h
  · simp [h]
  · intro heq
    rw [heq] at h
    simp [keywords] at h

theorem whole_scanMark (start : Place) (c : Char) (rest : List Char) :
    (scanMark start c rest).Whole start := by
  have hsingle {kind : TokenKind} (h : singleMark c = some kind) : kind ≠ .eof := by
    unfold singleMark at h
    split at h <;> cases h <;> decide
  have hpair {d : Char} {kind : TokenKind} (h : pairMark c d = some kind) : kind ≠ .eof := by
    unfold pairMark at h
    split at h <;> cases h <;> decide
  unfold scanMark
  dsimp only
  split
  · split
    · exact Scan.whole_valid (hpair ‹_›)
    split
    · exact Scan.whole_valid (hsingle ‹_›)
    · exact Scan.whole_invalid
  split
  · exact Scan.whole_valid (hsingle ‹_›)
  · exact Scan.whole_invalid

theorem whole_scanToken (start : Place) (c : Char) (rest : List Char) :
    (scanToken start c rest).Whole start := by
  unfold scanToken
  split
  · exact StringScan.whole_toScan _ (by decide)
  split
  · exact StringScan.whole_toScan _ (by decide)
  split
  · unfold NumberScan.toScan
    split
    · rcases scanNumber_kind ‹_› with rfl | rfl <;> exact Scan.whole_valid (by decide)
    · exact Scan.whole_invalid
  split
  · exact Scan.whole_valid (TokenKind.ofWord_ne_eof _)
  · exact whole_scanMark start c rest

/-! ## Lexemes -/

/-- The part of the text that a lexeme is. -/
def Lexeme.text (lexeme : Lexeme) : List Char := lexeme.skipped ++ lexeme.stretch

/-- The lexeme is the one behind `read` in a text that starts at `place` and goes on with `rest`. -/
structure Lexeme.StandsBehind (lexeme : Lexeme) (place : Place) (read rest : List Char) :
    Prop where
  trivia : Trivia lexeme.skipped (lexeme.stretch ++ rest)
  bare : Bare (lexeme.stretch ++ rest)
  stretch : lexeme.stretch ≠ []
  kind : lexeme.token.kind ≠ .eof
  spelling : lexeme.token.kind ≠ .invalid → lexeme.token.lexeme = String.ofList lexeme.stretch
  span : lexeme.token.kind ≠ .invalid → lexeme.token.span =
    ⟨place.line + (read ++ lexeme.skipped).count '\n',
      Text.columnBehind place.col (read ++ lexeme.skipped), Text.byteSize lexeme.stretch⟩

theorem standsBehind_scanToken {place : Place} {read text skipped rest : List Char} {c : Char}
    (h : skipTrivia false [] text = (skipped, c :: rest)) :
    let scan := scanToken (place.after (read ++ skipped)) c rest
    Lexeme.StandsBehind { scan.lexeme with skipped } place read scan.rest := by
  intro scan
  have happend : scan.lexeme.stretch ++ scan.rest = c :: rest := append_scanToken _ c rest
  have hlen : scan.rest.length ≤ rest.length := length_scanToken_le _ c rest
  have htrivia := trivia_skipTrivia text
  have hbare := (skips_skipTrivia false text).2
  obtain ⟨heof, htoken⟩ : scan.Whole _ := whole_scanToken _ c rest
  rw [h] at htrivia hbare
  refine ⟨happend ▸ htrivia, happend ▸ hbare, ?_, heof, fun hkind => ?_, fun hkind => ?_⟩
  · intro hnil
    change scan.lexeme.stretch = [] at hnil
    have hle := congrArg List.length happend
    simp [hnil] at hle
    omega
  · exact congrArg Token.lexeme (htoken hkind)
  · refine (congrArg Token.span (htoken hkind)).trans ?_
    rw [Place.after_eq_columnBehind]
    rfl

/-- A text is its lexemes and the trivia behind them. -/
theorem Lexemes.flatMap_text (place : Place) (text : List Char) :
    (ofChars place text).lexemes.flatMap Lexeme.text ++ (ofChars place text).trailing = text := by
  induction place, text using cut_induction with
  | blank place skipped htrivia => rw [lexemes_of_nil htrivia, trailing_of_nil htrivia]; rfl
  | token place skipped c rest htrivia ih =>
    have hscan := append_scanToken (place.after skipped) c rest
    rw [lexemes_of_cons htrivia, trailing_of_cons htrivia]
    dsimp only
    rw [List.flatMap_cons, List.append_assoc, ih, Lexeme.text, List.append_assoc, hscan]

namespace Cursor

theorem skip_append (c : Cursor) {cs ds : List Char} (h : c.rest = cs ++ ds) :
    (c.skip cs.length).before = cs.reverse ++ c.before ∧ (c.skip cs.length).rest = ds ∧
      (c.skip cs.length).place = c.place.after cs := by
  induction cs generalizing c with
  | nil => exact ⟨rfl, h, rfl⟩
  | cons ch cs ih =>
    obtain ⟨hbefore, hrest, hplace⟩ := ih c.advance.2 (by simp [advance, h])
    refine ⟨?_, hrest, ?_⟩
    · simpa [skip, advance, h] using hbefore
    · simpa [skip, advance, h] using hplace

end Cursor

namespace Lexer

/-- The lexer, of a text that starts at `place`, has read `read` and not `rest`. -/
structure StandsBehind (l : Lexer) (place : Place) (read rest : List Char) : Prop where
  queue : l.queue = []
  before : l.cursor.before = read.reverse
  rest : l.cursor.rest = rest
  place : l.cursor.place = place.after read

/-- The lexer after `n` tokens have been handed out. -/
def ahead (l : Lexer) : Nat → Lexer
  | 0     => l
  | n + 1 => l.next.2.ahead n

variable {l : Lexer} {place : Place} {read text skipped rest : List Char} {c : Char}

theorem next_of_cons (hl : l.StandsBehind place read text)
    (h : skipTrivia false [] text = (skipped, c :: rest)) :
    let scan := scanToken (place.after (read ++ skipped)) c rest
    l.next.1 = scan.lexeme.token ∧
      l.next.2.StandsBehind place (read ++ (skipped ++ scan.lexeme.stretch)) scan.rest := by
  intro scan
  have happend := append_skipTrivia false [] text
  rw [h] at happend
  obtain ⟨hbefore, hrest, hplace⟩ := l.cursor.skip_append (hl.rest.trans happend.symm)
  rw [hl.place, ← Place.after_append] at hplace
  have hscan : scan.lexeme.stretch ++ scan.rest = c :: rest := append_scanToken _ c rest
  obtain ⟨hbefore', hrest', hplace'⟩ :=
    (l.cursor.skip skipped.length).skip_append (hrest.trans hscan.symm)
  have hnext : l.next = (scan.lexeme.token,
      { l with
        cursor := (l.cursor.skip skipped.length).skip scan.lexeme.stretch.length,
        errors := l.errors ++ scan.lexeme.errors }) := by
    simp only [next, hl.queue, Lexer.scan, hl.rest, h, hrest, hplace, scan]
  rw [hnext]
  refine ⟨rfl, hl.queue, ?_, hrest', ?_⟩
  · simp [hbefore', hbefore, hl.before]
  · rw [hplace', hplace, ← Place.after_append, List.append_assoc]

theorem next_of_nil (hl : l.StandsBehind place read text)
    (h : skipTrivia false [] text = (skipped, [])) :
    l.next.1 = .eof (place.after (read ++ text)) ∧
      l.next.2.StandsBehind place (read ++ text) [] := by
  have happend := append_skipTrivia false [] text
  rw [h] at happend
  obtain rfl : skipped = text := by simpa using happend
  obtain ⟨hbefore, hrest, hplace⟩ := l.cursor.skip_append (hl.rest.trans happend.symm)
  rw [hl.place, ← Place.after_append] at hplace
  have hnext : l.next = (.eof (place.after (read ++ skipped)),
      { l with cursor := l.cursor.skip skipped.length }) := by
    simp only [next, hl.queue, Lexer.scan, hl.rest, h, hrest, hplace]
  rw [hnext]
  refine ⟨rfl, hl.queue, ?_, hrest, hplace⟩
  simp [hbefore, hl.before]

/-- The lexer, which has read `read`, hands out the token of the lexeme and reads no more than it,
up to `rest`. -/
structure HandsOut (l : Lexer) (place : Place) (read : List Char) (lexeme : Lexeme)
    (rest : List Char) : Prop where
  before : l.StandsBehind place read (lexeme.text ++ rest)
  token : l.next.1 = lexeme.token
  behind : l.next.2.StandsBehind place (read ++ lexeme.text) rest
  lexeme : lexeme.StandsBehind place read rest

/-- How the lexer goes on behind `read`: it hands out the lexemes in turn, and then end tokens. -/
structure Reads (l : Lexer) (place : Place) (read : List Char) (lexemes : List Lexeme)
    (trailing : List Char) : Prop where
  tokens : ∀ n : Fin lexemes.length,
    (l.ahead n).HandsOut place (read ++ (lexemes.take n).flatMap Lexeme.text) lexemes[n]
      ((lexemes.drop (n + 1)).flatMap Lexeme.text ++ trailing)
  finish : ∀ n, (l.ahead (lexemes.length + n)).next.1 =
    .eof (place.after (read ++ (lexemes.flatMap Lexeme.text ++ trailing)))

/-- At the end of the text every call hands out the end token. -/
theorem next_ahead (hl : l.StandsBehind place read []) (n : Nat) :
    (l.ahead n).next.1 = .eof (place.after read) := by
  have hnil : skipTrivia false [] [] = ([], []) := rfl
  obtain ⟨hnext, hstands⟩ := next_of_nil hl hnil
  rw [List.append_nil] at hnext hstands
  induction n generalizing l with
  | zero => exact hnext
  | succ n ih =>
    obtain ⟨hnext', hstands'⟩ := next_of_nil hstands hnil
    rw [List.append_nil] at hnext' hstands'
    exact ih hstands hnext' hstands'

theorem Reads.nil (hl : l.StandsBehind place read text)
    (h : skipTrivia false [] text = (skipped, [])) : l.Reads place read [] text := by
  obtain ⟨hnext, hstands⟩ := next_of_nil hl h
  refine ⟨fun n => n.elim0, fun n => ?_⟩
  rw [List.length_nil, Nat.zero_add]
  cases n with
  | zero => exact hnext
  | succ n => exact next_ahead hstands n

theorem Reads.cons {lexeme : Lexeme} {lexemes : List Lexeme} {trailing : List Char}
    (hl : l.HandsOut place read lexeme (lexemes.flatMap Lexeme.text ++ trailing))
    (h : l.next.2.Reads place (read ++ lexeme.text) lexemes trailing) :
    l.Reads place read (lexeme :: lexemes) trailing := by
  refine ⟨fun n => ?_, fun n => ?_⟩
  · cases n using Fin.cases with
    | zero => simpa [ahead] using hl
    | succ n => simpa [ahead] using h.tokens n
  · have hfinish := h.finish n
    rw [List.append_assoc, ← List.append_assoc lexeme.text, ← List.flatMap_cons] at hfinish
    rw [List.length_cons, Nat.add_right_comm]
    exact hfinish

theorem handsOut_of_cons (hl : l.StandsBehind place read text)
    (h : skipTrivia false [] text = (skipped, c :: rest)) :
    let scan := scanToken (place.after (read ++ skipped)) c rest
    l.HandsOut place read { scan.lexeme with skipped } scan.rest := by
  intro scan
  have happend := append_skipTrivia false [] text
  rw [h] at happend
  have hscan : scan.lexeme.stretch ++ scan.rest = c :: rest := append_scanToken _ c rest
  obtain ⟨hnext, hstands⟩ := next_of_cons hl h
  refine ⟨?_, hnext, hstands, standsBehind_scanToken h⟩
  rw [Lexeme.text, List.append_assoc, hscan]
  exact happend ▸ hl

theorem StandsBehind.reads (hl : l.StandsBehind place read text) :
    l.Reads place read (Lexemes.ofChars (place.after read) text).lexemes
      (Lexemes.ofChars (place.after read) text).trailing := by
  generalize hplace : place.after read = p
  induction p, text using Lexemes.cut_induction generalizing l read with
  | blank p skipped htrivia =>
    rw [Lexemes.lexemes_of_nil htrivia, Lexemes.trailing_of_nil htrivia]
    exact .nil hl htrivia
  | token p skipped c rest htrivia ih =>
    subst hplace
    have hhands := handsOut_of_cons hl htrivia
    rw [Lexemes.lexemes_of_cons htrivia, Lexemes.trailing_of_cons htrivia]
    rw [← Place.after_append] at ih ⊢
    refine .cons (by rwa [Lexemes.flatMap_text]) (ih hhands.behind ?_)
    show place.after (read ++ (skipped ++ _)) = _
    rw [← List.append_assoc, Place.after_append]

end Lexer

end TypedTemplate
