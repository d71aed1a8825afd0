-- SUMMARY: An interpolated string that stands elsewhere is read as the same segments, moved as far.
import TypedTemplate.Proofs.Grammar.Shift
import TypedTemplate.Proofs.Template.Hole

/-!
# Moved interpolated strings

The segments of an interpolated string move with it. The expressions of its holes may hold
interpolated strings again, so this goes by induction on how deep they are nested. The
same induction shows that any depth is enough that the string is not longer than.
-/

namespace TypedTemplate

variable {lines cols : Nat}

/-! ## Pieces -/

/-- The piece of a body that is moved. -/
def Piece.shift (lines cols : Nat) : Piece → Piece
  | .text cs       => .text cs
  | .hole place cs => .hole (place.shift lines cols) cs

def PieceMode.shift (lines cols : Nat) : PieceMode → PieceMode
  | .text cs                => .text cs
  | .hole opening cs quoted => .hole (opening.shift lines cols) cs quoted

theorem PieceMode.finish_shift (out : List Piece) (mode : PieceMode) :
    (mode.shift lines cols).finish (out.map (.shift lines cols)) =
      (mode.finish out).map (.shift lines cols) := by
  cases mode with
  | text cs => cases cs <;> rfl
  | hole opening cs quoted => rfl

theorem cutPieces_shift {cs : List Char} (h : ∀ c ∈ cs, c ≠ '\n') (out : List Piece)
    (mode : PieceMode) (place : Place) :
    cutPieces (out.map (.shift lines cols)) (mode.shift lines cols) (place.shift lines cols) cs =
      (cutPieces out mode place cs).map (.shift lines cols) := by
  fun_induction cutPieces out mode place cs with
  | case1 out mode place => rw [cutPieces, PieceMode.finish_shift, List.map_reverse]
  | case2 out place c cs d rest hdouble ih =>
    have hplace : (place.shift lines cols).after [c, d] = _ :=
      Place.after_shift fun x hx => h x (List.mem_append_left rest hx)
    rw [← ih fun x hx => h x (List.mem_append_right [c, d] hx), ← hplace, cutPieces.eq_def]
    simp only [PieceMode.shift, hdouble, if_true]
  | case3 out place c cs hdouble =>
    rw [cutPieces.eq_def, List.map_reverse, ← PieceMode.finish_shift]
    simp only [PieceMode.shift, hdouble, if_true]
  | case4 out place c rest cs hdouble hopen ih =>
    rw [← ih fun x hx => h x (List.mem_cons_of_mem c hx), cutPieces.eq_def]
    simp only [PieceMode.shift, ← PieceMode.finish_shift,
      ← Place.next_shift (h c List.mem_cons_self)]
    rw [if_neg hdouble, if_pos hopen]
  | case5 out place c rest cs hdouble hopen ih =>
    rw [← ih fun x hx => h x (List.mem_cons_of_mem c hx), cutPieces.eq_def]
    simp only [PieceMode.shift, ← Place.next_shift (h c List.mem_cons_self)]
    rw [if_neg hdouble, if_neg hopen]
  | case6 out place c opening cs quoted hescape d rest ih =>
    have hplace : (place.shift lines cols).after [c, d] = _ :=
      Place.after_shift fun x hx => h x (List.mem_append_left rest hx)
    rw [← ih fun x hx => h x (List.mem_append_right [c, d] hx), ← hplace, cutPieces.eq_def]
    simp only [PieceMode.shift, hescape, if_true]
  | case7 out place c opening cs quoted hescape =>
    rw [cutPieces.eq_def, List.map_reverse, ← PieceMode.finish_shift]
    simp only [PieceMode.shift, hescape, if_true]
  | case8 out place c rest opening cs quoted hescape hquote ih =>
    rw [← ih fun x hx => h x (List.mem_cons_of_mem c hx), cutPieces.eq_def]
    simp only [PieceMode.shift, ← Place.next_shift (h c List.mem_cons_self)]
    rw [if_neg hescape, if_pos hquote]
  | case9 out place c rest opening cs quoted hescape hquote hclose ih =>
    rw [← ih fun x hx => h x (List.mem_cons_of_mem c hx), cutPieces.eq_def]
    simp only [PieceMode.shift, ← Place.next_shift (h c List.mem_cons_self)]
    rw [if_neg hescape, if_neg hquote, if_pos hclose]
    rfl
  | case10 out place c rest opening cs quoted hescape hquote hclose ih =>
    rw [← ih fun x hx => h x (List.mem_cons_of_mem c hx), cutPieces.eq_def]
    simp only [PieceMode.shift, ← Place.next_shift (h c List.mem_cons_self)]
    rw [if_neg hescape, if_neg hquote, if_neg hclose]

theorem pieces_shift {body : List Char} (h : ∀ c ∈ body, c ≠ '\n') (place : Place) :
    pieces (place.shift lines cols) body = (pieces place body).map (.shift lines cols) :=
  cutPieces_shift h [] (.text []) place

/-- The characters of the hole that is being read. -/
def PieceMode.holeChars : PieceMode → List Char
  | .text _      => []
  | .hole _ cs _ => cs

theorem PieceMode.mem_finish {mode : PieceMode} {out : List Piece} {opening : Place}
    {text : List Char} (h : .hole opening text ∈ mode.finish out) :
    .hole opening text ∈ out ∨ text = mode.holeChars.reverse := by
  cases mode with
  | text cs => exact .inl (by cases cs <;> simpa [finish] using h)
  | hole opening' cs quoted =>
    rcases List.mem_cons.1 h with heq | h
    · cases heq
      exact .inr rfl
    · exact .inl h

/-- The text of a hole is a part of the body. -/
theorem sublist_of_mem_cutPieces {out : List Piece} {mode : PieceMode} {place opening : Place}
    {cs text : List Char} (h : .hole opening text ∈ cutPieces out mode place cs) :
    .hole opening text ∈ out ∨ text.Sublist (mode.holeChars.reverse ++ cs) := by
  fun_induction cutPieces out mode place cs with
  | case1 out mode place =>
    rcases PieceMode.mem_finish (List.mem_reverse.1 h) with h | rfl
    · exact .inl h
    · exact .inr (List.sublist_append_left _ _)
  | case2 out place c cs d rest hdouble ih =>
    exact (ih h).imp_right fun h => (h.cons d).cons c
  | case3 out place c cs hdouble =>
    rcases PieceMode.mem_finish (List.mem_reverse.1 h) with h | rfl
    · exact .inl h
    · exact .inr (List.nil_sublist _)
  | case4 out place c rest cs hdouble hopen ih =>
    rcases ih h with h | h
    · rcases PieceMode.mem_finish h with h | rfl
      · exact .inl h
      · exact .inr (List.nil_sublist _)
    · exact .inr (h.cons c)
  | case5 out place c rest cs hdouble hopen ih =>
    exact (ih h).imp_right fun h => h.cons c
  | case6 out place c opening' cs quoted hescape d rest ih =>
    simpa [PieceMode.holeChars] using ih h
  | case7 out place c opening' cs quoted hescape =>
    rcases PieceMode.mem_finish (List.mem_reverse.1 h) with h | rfl
    · exact .inl h
    · exact .inr (by simp [PieceMode.holeChars])
  | case8 out place c rest opening' cs quoted hescape hquote ih =>
    simpa [PieceMode.holeChars] using ih h
  | case9 out place c rest opening' cs quoted hescape hquote hclose ih =>
    rcases ih h with h | h
    · rcases List.mem_cons.1 h with heq | h
      · cases heq
        exact .inr (List.sublist_append_left _ _)
      · exact .inl h
    · exact .inr ((h.cons c).trans (List.sublist_append_right _ _))
  | case10 out place c rest opening' cs quoted hescape hquote hclose ih =>
    simpa [PieceMode.holeChars] using ih h

theorem sublist_of_mem_pieces {place opening : Place} {body text : List Char}
    (h : .hole opening text ∈ pieces place body) : text.Sublist body :=
  (sublist_of_mem_cutPieces h).resolve_left (by simp)

/-! ## Holes -/

theorem splitFormatFrom_sublist (s : ColonSearch) (before cs : List Char) :
    (splitFormatFrom s before cs).1.Sublist (before.reverse ++ cs) := by
  fun_induction splitFormatFrom s before cs <;> simp_all

/-- The expression of a hole is a part of the hole's text. -/
theorem splitFormat_sublist (cs : List Char) : (splitFormat cs).1.Sublist cs :=
  splitFormatFrom_sublist _ [] cs

namespace ParseError

theorem loop_ne_nil (r : ParseError → ParseError → Bool) (a : ParseError)
    (as out : List ParseError) : List.eraseRepsBy.loop r a as out ≠ [] := by
  induction as generalizing a out with
  | nil => simp [List.eraseRepsBy.loop]
  | cons b as ih =>
    rw [List.eraseRepsBy.loop]
    split
    · exact ih a out
    · exact ih b (a :: out)

/-- Sorting errors leaves some. -/
theorem inOrder_ne_nil {errors : List ParseError} (h : errors ≠ []) : inOrder errors ≠ [] := by
  unfold inOrder
  generalize hsorted : errors.mergeSort _ = sorted
  cases sorted with
  | nil =>
    have hlength := congrArg List.length hsorted
    rw [List.length_mergeSort] at hlength
    exact absurd (List.eq_nil_of_length_eq_zero hlength) h
  | cons e sorted => exact loop_ne_nil _ e sorted []

end ParseError

namespace Grammar

/-- A text that is no expression has an error. -/
theorem standalone_ne_error (interpolate : Token → Interpolation) (place : Place)
    (text : List Char) : standalone interpolate place text ≠ .error [] := by
  unfold standalone
  dsimp only
  split
  · split
    · simp
    · rename_i hfaults
      simpa using ParseError.inOrder_ne_nil (by simpa using hfaults)
  · simpa using ParseError.inOrder_ne_nil (by simp)

theorem formatSpec_shift (place : Place) (text : List Char) :
    formatSpec (place.shift lines cols) text =
      shiftResult (.shift lines cols) (.shift lines cols) (formatSpec place text) := by
  unfold formatSpec
  dsimp only
  rw [Place.spanOf_shift]
  split <;> rfl

/-- A hole is read without errors when its text is an expression with, maybe, a specifier. -/
theorem hole_eq_ok {parse : Place → List Char → Standalone} {place : Place} {text : List Char}
    {segment : Segment} (herror : ∀ place text, parse place text ≠ .error []) :
    hole parse place text = (segment, []) ↔
      (Text.trimChars (splitFormat text).1).isEmpty = false ∧
        ∃ e format, parse (place.next '\x7b') (splitFormat text).1 = .ok e ∧
          (splitFormat text).2.map
            (formatSpec (((place.next '\x7b').after (splitFormat text).1).next ':')) =
              format.map .ok ∧
            segment = .hole e format (place.span (Text.byteSize text + 2)) := by
  unfold hole
  obtain ⟨body, spec?⟩ := splitFormat text
  dsimp only
  cases hempty : (Text.trimChars body).isEmpty with
  | true => simp
  | false =>
    simp only [Bool.false_eq_true, if_false, true_and]
    cases hvalue : parse (place.next '\x7b') body with
    | error errors =>
      cases errors with
      | nil => exact absurd hvalue (herror _ _)
      | cons e errors => simp
    | ok e =>
      generalize spec?.map _ = format?
      cases format? with
      | none => simp [eq_comm]
      | some format =>
        cases format with
        | error e' =>
          have hnone : ∀ x : Option FormatSpec, some (.error e') ≠ x.map Except.ok := by
            intro x
            cases x <;> simp
          simp [hnone]
        | ok spec => simp [eq_comm]

/-- A hole is read alike where it is moved, if its expression is. -/
theorem hole_shift {parse parse' : Place → List Char → Standalone} {place : Place}
    {text : List Char} (hline : ∀ c ∈ text, c ≠ '\n')
    (hparse : parse' ((place.next '\x7b').shift lines cols) (splitFormat text).1 =
      shiftResult (List.map (.shift lines cols)) (.shift lines cols)
        (parse (place.next '\x7b') (splitFormat text).1)) :
    hole parse' (place.shift lines cols) text =
      ((hole parse place text).1.shift lines cols,
        (hole parse place text).2.map (.shift lines cols)) := by
  have hstart : (place.shift lines cols).next '\x7b' = _ := Place.next_shift (by decide)
  have hbody : ∀ c ∈ (splitFormat text).1, c ≠ '\n' :=
    fun c hc => hline c ((splitFormat_sublist text).subset hc)
  have hformat : (((place.next '\x7b').shift lines cols).after (splitFormat text).1).next ':' = _ :=
    (congrArg (Place.next · ':') (Place.after_shift hbody)).trans (Place.next_shift (by decide))
  unfold hole
  dsimp only
  rw [hstart, hparse, hformat, Place.span_shift]
  split
  · rfl
  · cases (splitFormat text).2 with
    | none =>
      cases parse (place.next '\x7b') (splitFormat text).1 <;>
        simp [shiftResult, Segment.shift, Expr.shift]
    | some spec =>
      rw [Option.map_some, Option.map_some, formatSpec_shift]
      cases parse (place.next '\x7b') (splitFormat text).1 <;>
        cases formatSpec _ spec <;> simp [shiftResult, Segment.shift, Expr.shift]

/-! ## Strings -/

/-- Pieces are read alike where they are moved, if the holes among them are. -/
theorem segments_shift {parse parse' : Place → List Char → Standalone} {ps : List Piece}
    (hhole : ∀ place text, .hole place text ∈ ps →
      hole parse' (place.shift lines cols) text =
        ((hole parse place text).1.shift lines cols,
          (hole parse place text).2.map (.shift lines cols))) :
    segments parse' (ps.map (.shift lines cols)) = (segments parse ps).shift lines cols := by
  have hpiece : ∀ p ∈ ps, segmentOf parse' (p.shift lines cols) =
      ((segmentOf parse p).1.shift lines cols, (segmentOf parse p).2.map (.shift lines cols)) := by
    intro p hp
    cases p with
    | text cs => rfl
    | hole place text => exact hhole place text hp
  rw [segments_eq, segments_eq, Interpolation.shift, Segment.shiftAll_eq_map]
  refine congrArg₂ Interpolation.mk ?_ ?_
  · rw [List.map_map, List.map_map]
    exact List.map_congr_left fun p hp => congrArg Prod.fst (hpiece p hp)
  · rw [List.flatMap_map, List.map_flatMap]
    exact List.flatMap_congr fun p hp => congrArg Prod.snd (hpiece p hp)

theorem interpolation_succ (depth : Nat) (token : Token) :
    interpolation (depth + 1) token = segments (standalone (interpolation depth))
      (pieces (interpolatedBody token).1 (interpolatedBody token).2) :=
  rfl

/-- What is between the quotes is a part of the string. -/
theorem interpolatedBody_sublist (token : Token) :
    (interpolatedBody token).2.Sublist token.lexeme.toList :=
  (List.dropLast_sublist _).trans (List.drop_sublist _ _)

theorem length_interpolatedBody_le (token : Token) :
    (interpolatedBody token).2.length ≤ token.lexeme.length - 1 := by
  rw [interpolatedBody, List.length_dropLast, List.length_drop, String.length_toList]
  omega

theorem interpolation_of_empty {token : Token} (h : token.lexeme.length = 0) (depth : Nat) :
    interpolation depth token = ⟨[], []⟩ := by
  cases depth with
  | zero => rfl
  | succ depth =>
    have hempty : token.lexeme.toList = [] :=
      List.eq_nil_of_length_eq_zero (String.length_toList ▸ h)
    simp [interpolation_succ, interpolatedBody, hempty, pieces, cutPieces, PieceMode.finish,
      segments]

theorem interpolatedBody_shift (token : Token) :
    interpolatedBody (token.shift lines cols) =
      ((interpolatedBody token).1.shift lines cols, (interpolatedBody token).2) := by
  simp only [interpolatedBody, Token.span_shift, Token.lexeme_shift, Place.shift, Span.shift,
    Prod.mk.injEq, Place.mk.injEq, and_true, true_and]
  omega

theorem interpolation_shift_of_empty {depth depth' : Nat} {token : Token}
    (hempty : token.lexeme.length = 0) : interpolation depth' (token.shift lines cols) =
      (interpolation depth token).shift lines cols := by
  have hempty' : (token.shift lines cols).lexeme.length = 0 := hempty
  rw [interpolation_of_empty hempty', interpolation_of_empty hempty]
  rfl

/-- The interpolated strings of a text are read alike where they are moved, if those are that are
not longer than it. -/
theorem moves_of_short {read read' : Token → Interpolation} {place : Place} {text : List Char}
    (hline : ∀ c ∈ text, c ≠ '\n')
    (h : ∀ token : Token, (∀ c ∈ token.lexeme.toList, c ≠ '\n') →
      token.lexeme.length ≤ text.length →
        read' (token.shift lines cols) = (read token).shift lines cols) :
    Moves lines cols read read' (Lexemes.ofChars place text).lexemes := by
  intro lexeme hlexeme hkind
  have hverbatim := Lexemes.verbatim _ _ lexeme hlexeme (by rw [hkind]; decide)
  have hstretch := Lexemes.stretch_sublist hlexeme
  refine h lexeme.token ?_ ?_
  · rw [hverbatim, String.toList_ofList]
    exact fun c hc => hline c (hstretch.subset hc)
  · rw [hverbatim, String.length_ofList]
    exact hstretch.length_le

/-- An interpolated string that is moved is read as its segments and errors, moved. The strings in
its holes are shorter than it is, so a depth is as good as any other that is not below its length.
-/
theorem interpolation_shift {depth depth' : Nat} {token : Token}
    (hline : ∀ c ∈ token.lexeme.toList, c ≠ '\n') (hdepth : token.lexeme.length ≤ depth)
    (hdepth' : token.lexeme.length ≤ depth') :
    interpolation depth' (token.shift lines cols) =
      (interpolation depth token).shift lines cols := by
  induction depth generalizing depth' token with
  | zero => exact interpolation_shift_of_empty (Nat.le_zero.1 hdepth)
  | succ depth ih =>
    cases depth' with
    | zero => exact interpolation_shift_of_empty (Nat.le_zero.1 hdepth')
    | succ depth' =>
      have hbody := interpolatedBody_sublist token
      have hlength := length_interpolatedBody_le token
      rw [interpolation_succ, interpolation_succ, interpolatedBody_shift]
      dsimp only
      rw [pieces_shift fun c hc => hline c (hbody.subset hc)]
      refine segments_shift fun place text hmem => ?_
      have htext := sublist_of_mem_pieces hmem
      have htextLine : ∀ c ∈ text, c ≠ '\n' :=
        fun c hc => hline c (hbody.subset (htext.subset hc))
      have hexpr := splitFormat_sublist text
      have hexprLine : ∀ c ∈ (splitFormat text).1, c ≠ '\n' :=
        fun c hc => htextLine c (hexpr.subset hc)
      have hshort := Nat.le_trans hexpr.length_le (Nat.le_trans htext.length_le hlength)
      refine hole_shift htextLine (standalone_shift hexprLine ?_)
      refine moves_of_short hexprLine fun token' hline' hshort' => ?_
      exact ih hline' (by omega) (by omega)

/-- A text of one line is parsed as the same expression or with the same errors wherever it stands.
Any depth is enough that is not below its length. -/
theorem standalone_interpolation_shift {depth depth' : Nat} {text : List Char}
    (hline : ∀ c ∈ text, c ≠ '\n') (hdepth : text.length ≤ depth) (hdepth' : text.length ≤ depth')
    (place : Place) :
    standalone (interpolation depth') (place.shift lines cols) text =
      shiftResult (List.map (.shift lines cols)) (.shift lines cols)
        (standalone (interpolation depth) place text) :=
  standalone_shift hline <| moves_of_short hline fun _ hline' hshort =>
    interpolation_shift hline' (Nat.le_trans hshort hdepth) (Nat.le_trans hshort hdepth')

end Grammar

/-- A text of one line is parsed, moved, wherever it stands, with any depth that is not below its
length: as the same expression or with the same errors. -/
theorem Expr.standalone_of_parse {text : String} (hline : ∀ c ∈ text.toList, c ≠ '\n')
    {depth : Nat} (hdepth : text.length ≤ depth) (lines cols : Nat) :
    Grammar.standalone (Grammar.interpolation depth) (Place.first.shift lines cols) text.toList =
      shiftResult (List.map (.shift lines cols)) (.shift lines cols) (parse text) :=
  Grammar.standalone_interpolation_shift hline (String.length_toList ▸ Nat.le_succ text.length)
    (String.length_toList ▸ hdepth) .first

end TypedTemplate
