-- SUMMARY: A text that stands further down or further right has the same lexemes, moved as far.
import TypedTemplate.Proofs.Token.Stretch

/-!
# Moved texts

A text of one line that is cut at another place has the same tokens and the same faults,
each moved as the text was. Only a line feed would tell the two apart, since the line
behind it starts at the first column wherever the text stands.
-/

namespace TypedTemplate

variable (lines cols : Nat)

/-! ## Places -/

/-- The place `lines` lines further down and `cols` columns further right. -/
def Place.shift (p : Place) : Place := ⟨p.line + lines, p.col + cols⟩

namespace Place

variable {lines cols : Nat} {p q : Place}

theorem next_shift {c : Char} (h : c ≠ '\n') :
    (p.shift lines cols).next c = (p.next c).shift lines cols := by
  simp only [next, shift, if_neg h, Place.mk.injEq, true_and]
  omega

theorem after_shift {cs : List Char} (h : ∀ c ∈ cs, c ≠ '\n') :
    (p.shift lines cols).after cs = (p.after cs).shift lines cols := by
  induction cs generalizing p with
  | nil => rfl
  | cons c cs ih =>
    rw [after_cons, after_cons, next_shift (h c List.mem_cons_self),
      ih fun c hc => h c (List.mem_cons_of_mem _ hc)]

theorem span_shift (len : Nat) : (p.shift lines cols).span len = (p.span len).shift lines cols :=
  rfl

theorem spanOf_shift (cs : List Char) :
    (p.shift lines cols).spanOf cs = (p.spanOf cs).shift lines cols :=
  rfl

theorem upTo_shift :
    (p.shift lines cols).upTo (q.shift lines cols) = (p.upTo q).shift lines cols := by
  simp only [upTo, span, shift, Span.shift, Span.mk.injEq, true_and]
  omega

end Place

theorem Span.merge_shift {lines cols : Nat} (a b : Span) :
    (a.shift lines cols).merge (b.shift lines cols) = (a.merge b).shift lines cols := by
  unfold merge shift endCol
  simp only [Nat.add_right_cancel_iff]
  split
  · simp only [Span.mk.injEq, true_and]
    omega
  · rfl

/-! ## Tokens -/

def LexError.shift (e : LexError) : LexError := { e with span := e.span.shift lines cols }

def Token.shift (token : Token) : Token := { token with span := token.span.shift lines cols }

def Lexeme.shift (lexeme : Lexeme) : Lexeme :=
  { lexeme with
    token := lexeme.token.shift lines cols
    errors := lexeme.errors.map (.shift lines cols) }

section

variable (token : Token) (lexeme : Lexeme)

@[simp] theorem Token.kind_shift : (token.shift lines cols).kind = token.kind := rfl

@[simp] theorem Token.lexeme_shift : (token.shift lines cols).lexeme = token.lexeme := rfl

@[simp] theorem Token.span_shift :
    (token.shift lines cols).span = token.span.shift lines cols :=
  rfl

@[simp] theorem Lexeme.token_shift :
    (lexeme.shift lines cols).token = lexeme.token.shift lines cols :=
  rfl

end

def Scan.shift (s : Scan) : Scan := { s with lexeme := s.lexeme.shift lines cols }

/-! ## Strings -/

def StringEnd.shift : StringEnd → StringEnd
  | .closed           => .closed
  | .unterminated     => .unterminated
  | .openHole opening => .openHole (opening.shift lines cols)

def StringMode.shift : StringMode → StringMode
  | .plain          => .plain
  | .text           => .text
  | .hole opening   => .hole (opening.shift lines cols)
  | .nested opening => .nested (opening.shift lines cols)

def StringMove.shift : StringMove → StringMove
  | .stop           => .stop
  | .close          => .close
  | .one mode error => .one (mode.shift lines cols) (error.map (.shift lines cols))
  | .two mode error => .two (mode.shift lines cols) (error.map (.shift lines cols))

def StringScan.shift (s : StringScan) : StringScan :=
  { s with
    place := s.place.shift lines cols
    errors := s.errors.map (.shift lines cols)
    ending := s.ending.shift lines cols }

variable {lines cols : Nat}

theorem StringMode.unfinished_shift (mode : StringMode) :
    (mode.shift lines cols).unfinished = mode.unfinished.shift lines cols := by
  cases mode <;> rfl

theorem escapeMove_shift (mode : StringMode) (place : Place) (next : Option Char) :
    escapeMove (mode.shift lines cols) (place.shift lines cols) next =
      (escapeMove mode place next).shift lines cols := by
  unfold escapeMove
  cases next with
  | none => rfl
  | some d =>
    simp only
    split
    · rfl
    split
    · rfl
    · rfl

theorem stringMove_shift (mode : StringMode) (place : Place) (c : Char) (next : Option Char) :
    stringMove (mode.shift lines cols) (place.shift lines cols) c next =
      (stringMove mode place c next).shift lines cols := by
  unfold stringMove
  split
  · rfl
  cases mode with
  | plain =>
    simp only [StringMode.shift]
    split
    · exact escapeMove_shift .plain place next
    · split <;> rfl
  | text =>
    simp only [StringMode.shift]
    split
    · exact escapeMove_shift .text place next
    split
    · rfl
    split
    · split <;> rfl
    split
    · split <;> rfl
    · rfl
  | hole opening =>
    simp only [StringMode.shift]
    split
    · rfl
    · split <;> rfl
  | nested opening =>
    simp only [StringMode.shift]
    split
    · exact escapeMove_shift (.nested opening) place next
    · split <;> rfl

theorem scanString_shift {cs : List Char} (h : ∀ c ∈ cs, c ≠ '\n') (mode : StringMode)
    (place : Place) (taken : List Char) (errors : List LexError) :
    scanString (mode.shift lines cols) (place.shift lines cols) taken
        (errors.map (.shift lines cols)) cs =
      (scanString mode place taken errors cs).shift lines cols := by
  fun_induction scanString mode place taken errors cs with
  | case1 mode => simp [scanString, StringScan.shift, StringMode.unfinished_shift]
  | case2 mode place taken errors c rest hmove =>
    simp [scanString, stringMove_shift, hmove, StringMove.shift, StringScan.shift,
      StringMode.unfinished_shift]
  | case3 mode place taken errors c rest hmove =>
    simp [scanString, stringMove_shift, hmove, StringMove.shift, StringScan.shift, StringEnd.shift,
      Place.next_shift (h c List.mem_cons_self)]
  | case4 mode place taken errors c rest mode' error hmove ih =>
    rw [scanString, stringMove_shift, hmove]
    simp only [StringMove.shift]
    rw [← ih fun c hc => h c (List.mem_cons_of_mem _ hc), Place.next_shift (h c List.mem_cons_self)]
    cases error <;> rfl
  | case5 mode place taken errors c mode' error d rest hmove ih =>
    rw [scanString, stringMove_shift, hmove]
    simp only [StringMove.shift]
    rw [← ih fun c hc => h c (List.mem_cons_of_mem _ (List.mem_cons_of_mem _ hc)),
      Place.after_shift (by simpa using And.intro (h c (by simp)) (h d (by simp)))]
    cases error <;> rfl
  | case6 mode place taken errors c mode' error hmove =>
    rw [scanString, stringMove_shift, hmove]
    simp only [StringMove.shift, StringScan.shift, StringMode.unfinished_shift,
      Place.next_shift (h c List.mem_cons_self)]
    cases error <;> rfl

theorem StringScan.toScan_shift (s : StringScan) (start : Place) (kind : TokenKind) :
    (s.shift lines cols).toScan (start.shift lines cols) kind =
      (s.toScan start kind).shift lines cols := by
  obtain ⟨taken, rest, place, errors, ending⟩ := s
  cases ending with
  | closed =>
    cases errors with
    | nil => rfl
    | cons e errors =>
      simp [toScan, shift, StringEnd.shift, Scan.shift, Lexeme.shift, Token.shift,
        Place.upTo_shift]
  | unterminated =>
    simp [toScan, shift, StringEnd.shift, Scan.shift, Scan.invalid, Lexeme.shift, Token.shift,
      LexError.shift, Place.upTo_shift]
  | openHole opening =>
    simp [toScan, shift, StringEnd.shift, Scan.shift, Scan.invalid, Lexeme.shift, Token.shift,
      LexError.shift, Place.upTo_shift]

/-! ## Texts -/

theorem NumberScan.toScan_shift (n : NumberScan) (start : Place) :
    n.toScan (start.shift lines cols) = (n.toScan start).shift lines cols := by
  unfold toScan
  split <;> rfl

theorem scanMark_shift (start : Place) (c : Char) (rest : List Char) :
    scanMark (start.shift lines cols) c rest = (scanMark start c rest).shift lines cols := by
  unfold scanMark
  simp only
  split
  · split
    · rfl
    · split <;> rfl
  · split <;> rfl

theorem scanToken_shift {c : Char} {rest : List Char} (h : ∀ x ∈ c :: rest, x ≠ '\n')
    (start : Place) :
    scanToken (start.shift lines cols) c rest = (scanToken start c rest).shift lines cols := by
  have hrest : ∀ x ∈ rest, x ≠ '\n' := fun x hx => h x (List.mem_cons_of_mem _ hx)
  unfold scanToken
  split
  · rw [Place.next_shift (h c List.mem_cons_self), ← StringScan.toScan_shift,
      ← scanString_shift hrest]
    rfl
  split
  · rw [Place.after_shift (by decide), ← StringScan.toScan_shift,
      ← scanString_shift fun x hx => hrest x (List.mem_of_mem_tail hx)]
    rfl
  split
  · exact NumberScan.toScan_shift _ start
  split
  · rfl
  · exact scanMark_shift start c rest

/-- A text of one line that stands elsewhere has the same lexemes, moved as it was. -/
theorem Lexemes.lexemes_shift {text : List Char} (h : ∀ c ∈ text, c ≠ '\n') (place : Place) :
    (ofChars (place.shift lines cols) text).lexemes =
      (ofChars place text).lexemes.map (.shift lines cols) := by
  induction place, text using cut_induction with
  | blank place skipped htrivia =>
    rw [lexemes_of_nil htrivia, lexemes_of_nil htrivia]
    rfl
  | token place skipped c rest htrivia ih =>
    obtain ⟨hskipped, hrest⟩ := List.forall_mem_append.1 h
    have hscan := append_scanToken (place.after skipped) c rest
    obtain ⟨hstretch, hleft⟩ := List.forall_mem_append.1 (hscan ▸ hrest)
    rw [lexemes_of_cons htrivia, lexemes_of_cons htrivia, Place.after_shift hskipped,
      scanToken_shift hrest]
    simp only [List.map_cons, List.cons.injEq]
    refine ⟨rfl, ?_⟩
    have hafter : ((place.after skipped).shift lines cols).after _ = _ :=
      Place.after_shift hstretch
    exact (congrArg (fun p => (ofChars p _).lexemes) hafter).trans (ih hleft)

end TypedTemplate
