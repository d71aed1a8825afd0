-- SUMMARY: A lexer for a text that stands elsewhere answers every call alike, with the spans moved.
import TypedTemplate.Proofs.Token.Lookahead
import TypedTemplate.Proofs.Token.Region
import TypedTemplate.Proofs.Token.Shift

/-!
# Moved lexers

A lexer takes places from its cursor only, and on one line a cursor moves alike wherever it
started. So every call on a lexer for a moved text gives the moved token and leaves the lexer
that is moved as far, with the tokens that wait in it and the faults that it found.
-/

namespace TypedTemplate

variable {lines cols : Nat}

/-! ## Cursors -/

namespace Cursor

variable {c : Cursor}

def shift (lines cols : Nat) (c : Cursor) : Cursor := { c with place := c.place.shift lines cols }

theorem rest_skip (c : Cursor) (n : Nat) : (c.skip n).rest = c.rest.drop n := by
  induction n generalizing c with
  | zero => rfl
  | succ n ih =>
    obtain ⟨before, rest, place, offset⟩ := c
    rw [skip, ih]
    cases rest <;> simp [advance]

theorem forall_mem_rest_skip {P : Char → Prop} (h : ∀ x ∈ c.rest, P x) (n : Nat) :
    ∀ x ∈ (c.skip n).rest, P x := by
  rw [rest_skip]
  exact fun x hx => h x (List.mem_of_mem_drop hx)

theorem advance_shift (h : ∀ x ∈ c.rest, x ≠ '\n') :
    (c.shift lines cols).advance.2 = c.advance.2.shift lines cols := by
  obtain ⟨before, rest, place, offset⟩ := c
  cases rest with
  | nil => rfl
  | cons x rest => simp [shift, advance, Place.next_shift (h x List.mem_cons_self)]

theorem skip_shift (h : ∀ x ∈ c.rest, x ≠ '\n') (n : Nat) :
    (c.shift lines cols).skip n = (c.skip n).shift lines cols := by
  induction n generalizing c with
  | zero => rfl
  | succ n ih =>
    have hrest : ∀ x ∈ c.advance.2.rest, x ≠ '\n' := forall_mem_rest_skip h 1
    rw [skip, skip, advance_shift h, ih hrest]

end Cursor

/-! ## Lexers -/

namespace Lexer

variable {l : Lexer}

/-- The lexer with every place in it moved. -/
def shift (lines cols : Nat) (l : Lexer) : Lexer :=
  ⟨l.cursor.shift lines cols, l.queue.map (.shift lines cols), l.errors.map (.shift lines cols)⟩

/-- No line feed is left to be read. -/
def OnLastLine (l : Lexer) : Prop := ∀ c ∈ l.cursor.rest, c ≠ '\n'

variable (lines cols)

theorem scan_shift (h : l.OnLastLine) :
    (l.shift lines cols).scan = (l.scan.1.shift lines cols, l.scan.2.shift lines cols) := by
  have hrest : (l.shift lines cols).cursor.rest = l.cursor.rest := rfl
  simp only [scan, hrest]
  cases skipTrivia false [] l.cursor.rest with
  | mk skipped rest =>
    have hskip : (l.shift lines cols).cursor.skip skipped.length = _ := Cursor.skip_shift h _
    have hleft' : ((l.cursor.skip skipped.length).shift lines cols).rest =
      (l.cursor.skip skipped.length).rest := rfl
    have hline := Cursor.forall_mem_rest_skip h skipped.length
    simp only [hskip, hleft']
    cases hleft : (l.cursor.skip skipped.length).rest with
    | nil => rfl
    | cons c rest =>
      have hplace : ((l.cursor.skip skipped.length).shift lines cols).place =
        (l.cursor.skip skipped.length).place.shift lines cols := rfl
      simp only [hplace, scanToken_shift (hleft ▸ hline), Scan.shift, Lexeme.shift,
        Cursor.skip_shift hline]
      simp [shift]

theorem onLastLine_scan (h : l.OnLastLine) : l.scan.2.OnLastLine := by
  unfold scan OnLastLine
  dsimp only
  split
  · exact Cursor.forall_mem_rest_skip h _
  · exact Cursor.forall_mem_rest_skip (Cursor.forall_mem_rest_skip h _) _

theorem fill_shift (h : l.OnLastLine) (count : Nat) :
    (l.shift lines cols).fill count = (l.fill count).shift lines cols ∧
      (l.fill count).OnLastLine := by
  induction count generalizing l with
  | zero => exact ⟨rfl, h⟩
  | succ count ih =>
    have hscan := scan_shift lines cols h
    obtain ⟨hfill, hline⟩ := ih (l := { l.scan.2 with queue := l.scan.2.queue ++ [l.scan.1] })
      (onLastLine_scan h)
    refine ⟨?_, hline⟩
    rw [fill, fill, ← hfill, hscan]
    simp [shift]

theorem next_shift (h : l.OnLastLine) :
    (l.shift lines cols).next = (l.next.1.shift lines cols, l.next.2.shift lines cols) ∧
      l.next.2.OnLastLine := by
  obtain ⟨cursor, queue, errors⟩ := l
  cases queue with
  | nil => exact ⟨scan_shift lines cols h, onLastLine_scan h⟩
  | cons t queue => exact ⟨rfl, h⟩

theorem peek_shift (h : l.OnLastLine) (n : Nat) :
    (l.shift lines cols).peek n =
        ((l.peek n).1.shift lines cols, (l.peek n).2.shift lines cols) ∧
      (l.peek n).2.OnLastLine := by
  have hlength : (l.shift lines cols).queue.length = l.queue.length := List.length_map _
  obtain ⟨hfill, hline⟩ := fill_shift lines cols h (n + 1 - l.queue.length)
  refine ⟨?_, hline⟩
  simp only [peek, hlength, hfill]
  have hget (queue : List Token) (place : Place) :
      (queue.map (Token.shift lines cols)).getD n (.eof (place.shift lines cols)) =
        (queue.getD n (.eof place)).shift lines cols := by
    rw [List.getD_eq_getElem?_getD, List.getD_eq_getElem?_getD, List.getElem?_map]
    cases queue[n]? <;> rfl
  exact congrArg (·, _) (hget _ _)

theorem call_shift (h : l.OnLastLine) (c : LexerCall) :
    (l.shift lines cols).call c =
        ((l.call c).1.shift lines cols, (l.call c).2.shift lines cols) ∧
      (l.call c).2.OnLastLine := by
  cases c with
  | next => exact next_shift lines cols h
  | peek n => exact peek_shift lines cols h n

/-- Any calls on the moved lexer give the moved tokens and find the moved faults. -/
theorem calls_shift (h : l.OnLastLine) (calls : List LexerCall) :
    (l.shift lines cols).answers calls = (l.answers calls).map (.shift lines cols) ∧
      (l.shift lines cols).afterCalls calls = (l.afterCalls calls).shift lines cols := by
  induction calls generalizing l with
  | nil => exact ⟨rfl, rfl⟩
  | cons c calls ih =>
    obtain ⟨hcall, hline⟩ := call_shift lines cols h c
    obtain ⟨hanswers, hafter⟩ := ih hline
    simp only [answers, afterCalls, hcall, hanswers, hafter, List.map_cons, and_self]

/-! ## Regions -/

variable {R : Region} {place : Place} {text : List Char}

theorem place_upcoming (h : R.Covers place text) (n : Nat) :
    R ((start place text).upcoming n).span.place := by
  have hupcoming : (start place text).upcoming n =
      ((Lexemes.ofChars place text).lexemes.map (·.token))[n]?.getD
        (.eof (Lexemes.ofChars place text).finish) := rfl
  rw [hupcoming]
  cases hget : ((Lexemes.ofChars place text).lexemes.map (·.token))[n]? with
  | none =>
    rw [Lexemes.finish_ofChars]
    exact h.finish
  | some t =>
    obtain ⟨lexeme, hlexeme, rfl⟩ := List.mem_map.1 (List.mem_of_getElem? hget)
    exact (Lexemes.liesIn h lexeme hlexeme).token.start

/-- The tokens of a text and the faults in it lie where the text does, whatever the calls. -/
theorem places_of_calls (h : R.Covers place text) (calls : List LexerCall) :
    (∀ t ∈ (start place text).answers calls, R t.span.place) ∧
      ∀ e ∈ ((start place text).afterCalls calls).errors, R e.span.place := by
  have hstart := settled_start place text
  constructor
  · intro t ht
    have hu : ∀ n, (start place text).upcoming n = (start place text).upcoming (0 + n) :=
      fun n => by rw [Nat.zero_add]
    rw [answers_eq calls hstart hu] at ht
    obtain ⟨n, -, rfl⟩ := List.mem_map.1 ht
    exact place_upcoming h n
  · intro e he
    have hfault : e ∈ ((start place text).afterCalls calls).faults := List.mem_append_left _ he
    rw [faults_afterCalls calls hstart, faults_start] at hfault
    obtain ⟨lexeme, hlexeme, he⟩ := List.mem_flatMap.1 hfault
    exact (Lexemes.liesIn h lexeme hlexeme).errors e he

end Lexer

end TypedTemplate
