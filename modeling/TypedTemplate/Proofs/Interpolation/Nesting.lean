-- SUMMARY: An interpolated string nests in another if its quotes hide its braces and colons.
import TypedTemplate.Proofs.Interpolation.Nested

/-!
# Strings inside interpolated strings

The readers of a hole know plain strings only. A dollar sign before a quote means nothing to
them, and every quote that is no escape opens a string or closes one. So an interpolated string
in a hole is read as the grammar has it if and only if no closing brace and no colon of it is
outside of the quotes counted in this way.
-/

namespace TypedTemplate

/-! ## The scan of a hole -/

/-- What a scan in the mode has ahead of it when it comes to the closing quote without faults, with
`rest` behind that quote. -/
def StringMode.Ahead (mode : StringMode) (cs rest : List Char) : Prop :=
  match mode with
  | .plain | .text => ∃ s, cs = s ++ '"' :: rest
  | .hole _ => ∃ h s, HoleText h ∧ cs = h ++ '\x7d' :: (s ++ '"' :: rest)
  | .nested _ => ∃ q h s, Quotable q ∧ HoleText h ∧
      cs = q ++ '"' :: (h ++ '\x7d' :: (s ++ '"' :: rest))

section Moves

variable {mode mode' : StringMode} {opening place : Place} {c d : Char} {next : Option Char}
  {error : Option LexError}

theorem stringMove_hole (h : stringMove (.hole opening) place c next = .one mode error) :
    isLineEnd c = false ∧ (c = '\x7d' ∧ mode = .text ∨ c = '"' ∧ mode = .nested opening ∨
      c ≠ '\x7d' ∧ c ≠ '"' ∧ mode = .hole opening) := by
  unfold stringMove at h
  grind

theorem stringMove_nested (h : stringMove (.nested opening) place c next = .one mode error) :
    isLineEnd c = false ∧ (c = '"' ∧ mode = .hole opening ∨ c ≠ '"' ∧ mode = .nested opening ∧
      (c = '\\' → ∀ d ∈ next, isLineEnd d = true)) := by
  unfold stringMove escapeMove at h
  grind

theorem stringMove_hole_two : stringMove (.hole opening) place c next ≠ .two mode error := by
  unfold stringMove
  grind

theorem stringMove_nested_two
    (h : stringMove (.nested opening) place c (some d) = .two mode error) :
    mode = .nested opening ∧ c = '\\' ∧ (error = none → isEscape d = true) := by
  unfold stringMove escapeMove at h
  grind

theorem mode_of_stringMove_close (h : stringMove mode place c next = .close) :
    mode = .plain ∨ mode = .text := by
  unfold stringMove escapeMove at h
  grind

end Moves

/-- A hole that the scan passes without faults holds a text that can stand in a hole, up to its
closing brace. -/
theorem ahead_of_scanString {mode : StringMode} {place : Place} {taken cs : List Char}
    {errors : List LexError} (hclosed : (scanString mode place taken errors cs).ending = .closed)
    (herrors : (scanString mode place taken errors cs).errors = []) :
    mode.Ahead cs (scanString mode place taken errors cs).rest := by
  fun_induction scanString mode place taken errors cs with
  | case1 mode => cases mode <;> cases hclosed
  | case2 mode => cases mode <;> cases hclosed
  | case3 mode place taken errors c rest hclose =>
    have hquote : '"' :: rest = c :: rest := by rw [stringMove_close hclose]
    rcases mode_of_stringMove_close hclose with rfl | rfl <;> exact ⟨[], hquote.symm⟩
  | case4 mode place taken errors c rest mode' error hmove ih =>
    obtain ⟨s, hs⟩ := exists_closed hclosed
    have ih := ih hclosed herrors
    cases mode with
    | plain => exact ⟨c :: s, congrArg (c :: ·) hs⟩
    | text => exact ⟨c :: s, congrArg (c :: ·) hs⟩
    | hole opening =>
      obtain ⟨hline, ⟨rfl, rfl⟩ | ⟨rfl, rfl⟩ | ⟨hbrace, hquote, rfl⟩⟩ := stringMove_hole hmove
      · -- behind the hole anything may follow, other holes too, up to the closing quote
        exact ⟨[], s, .nil, congrArg ('\x7d' :: ·) hs⟩
      · obtain ⟨q, h, s, hq, hh, hcs⟩ := ih
        exact ⟨'"' :: (q ++ '"' :: h), s, .string hq hh, by simpa using hcs⟩
      · obtain ⟨h, s, hh, hcs⟩ := ih
        exact ⟨c :: h, s, .char hline hquote hbrace hh, congrArg (c :: ·) hcs⟩
    | nested opening =>
      obtain ⟨hline, ⟨rfl, rfl⟩ | ⟨hquote, rfl, hescape⟩⟩ := stringMove_nested hmove
      · obtain ⟨h, s, hh, hcs⟩ := ih
        exact ⟨[], h, s, .nil, hh, congrArg ('"' :: ·) hcs⟩
      · obtain ⟨q, h, s, hq, hh, hcs⟩ := ih
        have hplain : c ≠ '\\' := fun hc => scanString_lineEnd (hescape hc) hclosed
        exact ⟨c :: q, h, s, .char hline hplain hquote hq, hh, congrArg (c :: ·) hcs⟩
  | case5 mode place taken errors c mode' error d rest hmove ih =>
    obtain ⟨s, hs⟩ := exists_closed hclosed
    cases mode with
    | plain => exact ⟨c :: d :: s, congrArg (c :: d :: ·) hs⟩
    | text => exact ⟨c :: d :: s, congrArg (c :: d :: ·) hs⟩
    | hole opening => exact absurd hmove stringMove_hole_two
    | nested opening =>
      obtain ⟨rfl, rfl, hescape⟩ := stringMove_nested_two hmove
      obtain ⟨q, h, s, hq, hh, hcs⟩ := ih hclosed herrors
      have hnone : error = none := by
        cases error with
        | none => rfl
        | some e => exact absurd (nil_of_errors_scanString herrors) (by simp)
      exact ⟨'\\' :: d :: q, h, s, .escape (hescape hnone) hq, hh,
        congrArg ('\\' :: d :: ·) hcs⟩
  | case6 mode place taken errors c mode' error hmove => cases mode' <;> cases hclosed

/-- A hole that starts a literal without faults is closed behind a text that can stand in it. -/
theorem exists_holeText {place : Place} {taken cs : List Char} (hbrace : cs.head? ≠ some '\x7b')
    (hclosed : (scanString .text place taken [] ('\x7b' :: cs)).ending = .closed)
    (herrors : (scanString .text place taken [] ('\x7b' :: cs)).errors = []) :
    ∃ h s, HoleText h ∧
      cs = h ++ '\x7d' :: (s ++ '"' :: (scanString .text place taken [] ('\x7b' :: cs)).rest) := by
  have hmove : stringMove .text place '\x7b' cs.head? = .one (.hole place) none := by
    simp [stringMove, hbrace, (by decide : isLineEnd '\x7b' = false)]
  have hscan : scanString .text place taken [] ('\x7b' :: cs) =
      scanString (.hole place) (place.next '\x7b') ('\x7b' :: taken) [] cs := by
    rw [scanString, hmove]
    rfl
  rw [hscan] at hclosed herrors ⊢
  exact ahead_of_scanString hclosed herrors

/-! ## The cut of a hole -/

theorem PieceMode.finish_eq (mode : PieceMode) (out : List Piece) :
    ∃ more, mode.finish out = more ++ out := by
  cases mode with
  | text cs =>
    cases cs with
    | nil => exact ⟨[], rfl⟩
    | cons c cs => exact ⟨[_], rfl⟩
  | hole opening cs quoted => exact ⟨[_], rfl⟩

/-- Pieces that are cut out stay the first ones. -/
theorem prefix_cutPieces (out : List Piece) (mode : PieceMode) (place : Place) (cs : List Char) :
    out.reverse <+: cutPieces out mode place cs := by
  have hfinish : ∀ (mode : PieceMode) out, out.reverse <+: (mode.finish out).reverse := by
    intro mode out
    obtain ⟨more, hmore⟩ := mode.finish_eq out
    rw [hmore, List.reverse_append]
    exact List.prefix_append _ _
  fun_induction cutPieces out mode place cs with
  | case1 | case3 | case7 => exact hfinish _ _
  | case2 _ _ _ _ _ _ _ ih => exact ih
  | case4 _ _ _ _ cs _ _ ih => exact (hfinish (.text cs) _).trans ih
  | case5 _ _ _ _ _ _ _ ih => exact ih
  | case6 _ _ _ _ _ _ _ _ _ ih => exact ih
  | case8 _ _ _ _ _ _ _ _ _ ih => exact ih
  | case9 _ _ _ _ _ _ _ _ _ _ ih =>
    rw [List.reverse_cons] at ih
    exact (List.prefix_append _ _).trans ih
  | case10 _ _ _ _ _ _ _ _ _ _ ih => exact ih

/-- A body that starts with a hole has the hole for its first piece. -/
theorem exists_pieces_hole {h : List Char} (hh : HoleText h) (hbrace : h.head? ≠ some '\x7b')
    (place : Place) (s : List Char) :
    ∃ more, pieces place ('\x7b' :: (h ++ '\x7d' :: s)) = .hole place h :: more := by
  have hhead : (h ++ '\x7d' :: s).head? ≠ some '\x7b' := head?_append_ne hbrace (by decide)
  have hcut := hh.cutsTo place [] [] (place.next '\x7b') ('\x7d' :: s)
  obtain ⟨more, hmore⟩ := prefix_cutPieces [.hole place h] (.text [])
    (((place.next '\x7b').after h).next '\x7d') s
  refine ⟨more, ?_⟩
  rw [pieces, cutPieces_open hhead]
  simp only [PieceMode.finish, List.append_nil] at hcut ⊢
  rw [hcut, cutPieces_close, List.reverse_reverse, ← hmore]
  rfl

theorem splitFormatFrom_of_none {search : ColonSearch} {before cs : List Char}
    (h : (splitFormatFrom search before cs).2 = none) :
    (splitFormatFrom search before cs).1 = before.reverse ++ cs := by
  fun_induction splitFormatFrom search before cs <;> simp_all

/-- Without a specifier the whole hole is the expression. -/
theorem splitFormat_of_none {cs : List Char} (h : (splitFormat cs).2 = none) :
    splitFormat cs = (cs, none) :=
  Prod.ext (splitFormatFrom_of_none h) h

/-! ## The literal -/

theorem Text.byteSize_eq_zero {cs : List Char} (h : byteSize cs = 0) : cs = [] := by
  cases cs with
  | nil => rfl
  | cons c cs =>
    have hpos := Char.utf8Size_pos c
    rw [byteSize_cons] at h
    omega

/-- Two starts of a text that take the same space are the same. -/
theorem Text.append_inj_of_byteSize {cs cs' ds ds' : List Char} (h : cs ++ ds = cs' ++ ds')
    (hsize : byteSize cs = byteSize cs') : cs = cs' := by
  rcases List.append_eq_append_iff.1 h with ⟨as, rfl, -⟩ | ⟨as, rfl, -⟩
  all_goals
    rw [byteSize_append] at hsize
    rw [Text.byteSize_eq_zero (by omega : byteSize as = 0), List.append_nil]

/-- The literal that starts with a hole and is scanned without faults. -/
theorem exists_scanToken_hole {place : Place} {cs : List Char} (hbrace : cs.head? ≠ some '\x7b')
    (h : (scanToken place '$' ('"' :: '\x7b' :: cs)).lexeme.errors = []) :
    ∃ body s rest, HoleText body ∧ cs = body ++ '\x7d' :: (s ++ '"' :: rest) ∧
      scanToken place '$' ('"' :: '\x7b' :: cs) = .valid place .interpolatedString
        ('$' :: '"' :: ('\x7b' :: (body ++ '\x7d' :: s) ++ ['"'])) rest := by
  have htoken : scanToken place '$' ('"' :: '\x7b' :: cs) =
      (scanString .text (place.after ['$', '"']) ['"', '$'] [] ('\x7b' :: cs)).toScan place
        .interpolatedString := rfl
  rw [htoken] at h ⊢
  obtain ⟨hclosed, herrors, -⟩ := StringScan.closed_of_errors h
  obtain ⟨body, s, hbody, hcs⟩ := exists_holeText hbrace hclosed herrors
  refine ⟨body, s, _, hbody, hcs, ?_⟩
  have hliteral : '\x7b' :: cs = '\x7b' :: (body ++ '\x7d' :: s) ++ '"' :: (scanString .text
      (place.after ['$', '"']) ['"', '$'] [] ('\x7b' :: cs)).rest :=
    (congrArg ('\x7b' :: ·) hcs).trans (by simp)
  rw [StringScan.toScan_eq_valid h, stretch_of_closed hliteral]
  rfl

namespace Grammar

variable {g : Grammar}

/-- An interpolated string with nothing behind it is read as its segments. -/
theorem expr_interpolated {lexeme : Lexeme} {min : Nat} {e : Expr} {rest : List Lexeme}
    (hkind : lexeme.token.kind = .interpolatedString) (h : (g.expr min [lexeme]).Yields e rest) :
    ∃ ss, g.interpolate lexeme.token = ⟨ss, []⟩ ∧ e = .interpolated ss lexeme.token.span := by
  unfold expr at h
  obtain ⟨lhs, mid, hle, hoperand, hclimb⟩ := Reply.yields_andThen.1 h
  simp only [operand, atom?, hkind, UnaryOp.ofToken?, Reply.yields_taking, Reply.yields_recording,
    Reply.yields_ok] at hoperand
  obtain ⟨herrors, rfl, rfl⟩ := hoperand
  rw [climb_of_stops _ stops_nil] at hclimb
  obtain ⟨rfl, -⟩ := Reply.yields_ok.1 hclimb
  refine ⟨(g.interpolate lexeme.token).segments, ?_, rfl⟩
  rw [← herrors]

/-- The first piece is read as the first segment. -/
theorem hole_of_segments {parse : Place → List Char → Standalone} {place : Place}
    {body : List Char} {ps : List Piece} {segment : Segment} {ss : List Segment}
    (h : segments parse (.hole place body :: ps) = ⟨segment :: ss, []⟩) :
    hole parse place body = (segment, []) := by
  rw [segments_eq] at h
  obtain ⟨hsegments, herrors⟩ := Interpolation.mk.inj h
  refine Prod.ext (List.cons.inj hsegments).1 ?_
  exact (List.append_eq_nil_iff.1 herrors).1

end Grammar

/-! ## Nesting -/

namespace Expr

variable {text : String} {e : Expr}

/-- A text that is parsed as an interpolated string is one token, read as its segments. -/
theorem interpolation_of_parse {lexeme : Lexeme} {more : List Lexeme} {ss : List Segment}
    {span : Span} (hlexemes : lexemesOf text = lexeme :: more)
    (hkind : lexeme.token.kind = .interpolatedString)
    (h : parse text = .ok (.interpolated ss span)) :
    Grammar.interpolation (text.length + 1) lexeme.token = ⟨ss, []⟩ := by
  obtain ⟨-, -, hterminals⟩ := parse_eq_ok h
  rw [terminalsOf, hlexemes] at hterminals
  obtain rfl : more = [] := List.map_eq_nil_iff.1 (List.cons.inj hterminals).2
  obtain ⟨hyields, -⟩ := Grammar.standalone_eq_ok.1 h
  rw [lexemesOf] at hlexemes
  rw [hlexemes] at hyields
  obtain ⟨ss', hread, heq⟩ := Grammar.expr_interpolated hkind hyields
  cases heq
  exact hread

/-- A text without faults that starts with a literal and a hole has a text in the hole that can
stand there. -/
theorem exists_lexeme_hole {cs : List Char} (hchars : text.toList = '$' :: '"' :: '\x7b' :: cs)
    (hbrace : cs.head? ≠ some '\x7b') (hlexes : Lexes text) :
    ∃ body s rest lexeme more, HoleText body ∧ cs = body ++ '\x7d' :: (s ++ '"' :: rest) ∧
      lexemesOf text = lexeme :: more ∧ lexeme.token.kind = .interpolatedString ∧
      Grammar.interpolatedBody lexeme.token = (⟨1, 3⟩, '\x7b' :: (body ++ '\x7d' :: s)) := by
  have hlexemes : lexemesOf text =
      (Lexemes.ofChars .first ('$' :: '"' :: '\x7b' :: cs)).lexemes := by rw [lexemesOf, hchars]
  rw [Lexemes.lexemes_of_cons (skipTrivia_token _ (by decide : Counts '$'))] at hlexemes
  rw [Lexes, hlexemes] at hlexes
  obtain ⟨hfaultless, -⟩ := List.forall_mem_cons.1 hlexes
  obtain ⟨body, s, rest, hbody, hcs, hscan⟩ := exists_scanToken_hole hbrace hfaultless
  refine ⟨body, s, rest, _, _, hbody, hcs, hlexemes, ?_, ?_⟩
  all_goals rw [hscan]
  · rfl
  · generalize '\x7b' :: (body ++ '\x7d' :: s) = literal
    simp [Scan.valid, Grammar.interpolatedBody, Place.spanOf, Place.span, Place.first]

/-- The literal around a text is read as one hole with the whole text in it only if the text can
stand in a hole, and then there is no specifier in it. -/
theorem holeText_of_parse_nested {tree : Expr} {span : Span} (he : parse text = .ok e)
    (h : parse ("$\"\x7b" ++ text ++ "\x7d\"") = .ok (.interpolated
      [.hole tree none ⟨1, 3, Text.byteSize text.toList + 2⟩] span)) :
    HoleText text.toList ∧ (splitFormat text.toList).2 = none := by
  have hbrace : (text.toList ++ ['\x7d', '"']).head? ≠ some '\x7b' :=
    head?_append_ne (head?_ne_of_parse he) (by decide)
  have hchars : ("$\"\x7b" ++ text ++ "\x7d\"").toList =
      '$' :: '"' :: '\x7b' :: (text.toList ++ ['\x7d', '"']) := by simp
  obtain ⟨body, s, rest, lexeme, more, hbody, hcs, hlexemes, hkind, hread⟩ :=
    exists_lexeme_hole hchars hbrace (parse_eq_ok h).1
  have hsegments := interpolation_of_parse hlexemes hkind h
  have hhead : body.head? ≠ some '\x7b' := by
    cases hempty : body with
    | nil => simp
    | cons c cs => simpa [hcs, hempty] using hbrace
  obtain ⟨more, hmore⟩ := exists_pieces_hole hbody hhead ⟨1, 3⟩ s
  rw [Grammar.interpolation_succ, hread, hmore] at hsegments
  obtain ⟨-, tree', format, -, hformat, hsegment⟩ :=
    (Grammar.hole_eq_ok (Grammar.standalone_ne_error _)).1 (Grammar.hole_of_segments hsegments)
  obtain ⟨-, rfl, hspan⟩ := Segment.hole.inj hsegment
  -- The hole that was cut out starts where the text starts, and its span says that it is as long.
  have hsize : Text.byteSize text.toList + 2 = Text.byteSize body + 2 := (Span.mk.inj hspan).2.2
  obtain rfl := Text.append_inj_of_byteSize hcs (Nat.add_right_cancel hsize)
  exact ⟨hbody, Option.map_eq_none_iff.1 hformat⟩

/-- An expression is read in a hole as it is alone, moved, if it can stand there and has no colon of
a specifier. -/
theorem parse_nested_of_holeText (he : parse text = .ok e)
    (hline : ∀ c ∈ text.toList, isLineEnd c = false) (hhole : HoleText text.toList)
    (hsearch : (splitFormat text.toList).2 = none) :
    parse ("$\"\x7b" ++ text ++ "\x7d\"") = .ok (.interpolated
      [.hole (e.shift 0 3) none ⟨1, 3, Text.byteSize text.toList + 2⟩]
      ⟨1, 1, Text.byteSize text.toList + 5⟩) := by
  have hnone : Unescaped "".toList := by simp [Unescaped]
  have hchars : "$\"\x7b" ++ text ++ "\x7d\"" =
      "$\"" ++ "" ++ "\x7b" ++ text ++ "\x7d" ++ "" ++ "\"" := by
    rw [← String.toList_inj]
    simp
  have hparse := parse_enclosed hnone hnone hline he hhole (splitFormat_of_none hsearch)
  simpa [hchars, textSegments, Text.byteSize] using hparse

/-- The expression of a text nests if and only if the text can stand in a hole and the search
for a specifier finds none in it. That is so for every text whose interpolated strings would be
plain strings without their dollar signs. -/
theorem parse_nested (he : parse text = .ok e) (hline : ∀ c ∈ text.toList, isLineEnd c = false) :
    (parse ("$\"\x7b" ++ text ++ "\x7d\"") = .ok (.interpolated
      [.hole (e.shift 0 3) none ⟨1, 3, Text.byteSize text.toList + 2⟩]
      ⟨1, 1, Text.byteSize text.toList + 5⟩) ↔
        HoleText text.toList ∧ (splitFormat text.toList).2 = none) ∧
    (CommentFree text → Shallow text →
      parse ("$\"\x7b" ++ text ++ "\x7d\"") = .ok (.interpolated
        [.hole (e.shift 0 3) none ⟨1, 3, Text.byteSize text.toList + 2⟩]
        ⟨1, 1, Text.byteSize text.toList + 5⟩)) := by
  refine ⟨⟨holeText_of_parse_nested he, fun h => parse_nested_of_holeText he hline h.1 h.2⟩, ?_⟩
  intro hcomments hshallow
  refine parse_nested_of_holeText he hline
    ((enclosable_of_parse he hcomments hshallow).holeText hline) ?_
  rw [splitFormat_of_searches (searches_of_parse he hcomments hshallow)]

theorem parse_nested_shallow :
    ∃ e, parse "$\"\x7bx\x7d\" ?? y.z(\"\x7d:\")" = .ok e ∧
      parse "$\"\x7b$\"\x7bx\x7d\" ?? y.z(\"\x7d:\")\x7d\"" =
        .ok (.interpolated [.hole (e.shift 0 3) none ⟨1, 3, 21⟩] ⟨1, 1, 24⟩) := by
  have hok : (parse "$\"\x7bx\x7d\" ?? y.z(\"\x7d:\")").isOk = true := by decide +kernel
  cases he : parse "$\"\x7bx\x7d\" ?? y.z(\"\x7d:\")" with
  | error errors => simp [he, Except.isOk, Except.toBool] at hok
  | ok e =>
    have hcomments : CommentFree "$\"\x7bx\x7d\" ?? y.z(\"\x7d:\")" := by
      unfold CommentFree
      decide +kernel
    have hstrings : ∀ lexeme ∈ lexemesOf "$\"\x7bx\x7d\" ?? y.z(\"\x7d:\")",
        lexeme.token.kind = .interpolatedString → lexeme.token.lexeme = "$\"\x7bx\x7d\"" := by
      decide +kernel
    have hquotable : Quotable "\x7bx\x7d".toList :=
      .char (by decide) (by decide) (by decide) (.char (by decide) (by decide) (by decide)
        (.char (by decide) (by decide) (by decide) .nil))
    have hshallow : Shallow "$\"\x7bx\x7d\" ?? y.z(\"\x7d:\")" := fun lexeme hlexeme hkind =>
      ⟨"\x7bx\x7d".toList, by rw [hstrings lexeme hlexeme hkind]; rfl, hquotable⟩
    exact ⟨e, rfl, (parse_nested he (by decide)).2 hcomments hshallow⟩

/-- The readers of the outer string do not see that the brace stands between the quotes of a string
in the inner one. -/
theorem not_parse_nested :
    (∃ e, parse "$\"\x7b\"\x7d\"\x7d\"" = .ok e) ∧ CommentFree "$\"\x7b\"\x7d\"\x7d\"" ∧
      (∀ c ∈ "$\"\x7b\"\x7d\"\x7d\"".toList, isLineEnd c = false) ∧
        ¬ ∃ e, parse ("$\"\x7b" ++ "$\"\x7b\"\x7d\"\x7d\"" ++ "\x7d\"") = .ok e := by
  have hok : (parse "$\"\x7b\"\x7d\"\x7d\"").isOk = true := by decide +kernel
  have hnested : (parse ("$\"\x7b" ++ "$\"\x7b\"\x7d\"\x7d\"" ++ "\x7d\"")).isOk = false := by
    decide +kernel
  refine ⟨?_, ?_, by decide, ?_⟩
  · cases he : parse "$\"\x7b\"\x7d\"\x7d\"" with
    | error errors => simp [he, Except.isOk, Except.toBool] at hok
    | ok e => exact ⟨e, rfl⟩
  · unfold CommentFree
    decide +kernel
  · rintro ⟨e, he⟩
    rw [he] at hnested
    cases hnested

end Expr

end TypedTemplate
