-- SUMMARY: What the holes of an interpolated string are read into lies where the string does.
import TypedTemplate.Proofs.Grammar.Region
import TypedTemplate.Proofs.Interpolation.Nested

/-!
# Holes in a region

A hole is parsed as a text of its own, from a place that is computed from that of the string
around it. The place is right: the text of the hole, and the specifier behind its colon, stand in
the unit exactly where they are taken to stand. So a fault in a hole, however deep, lies in the
string.
-/

namespace TypedTemplate

variable {R : Region} {Q : Place → List Char → Prop}

/-! ## Pieces -/

/-- The text of a hole stands behind a brace at the place of the hole, as `Q` has it. -/
def Piece.Stands (Q : Place → List Char → Prop) : Piece → Prop
  | .text _        => True
  | .hole place cs => Q place ('\x7b' :: cs)

/-- So does the hole that is being cut out, together with the text `cs` that is left. -/
def PieceMode.Stands (Q : Place → List Char → Prop) (cs : List Char) : PieceMode → Prop
  | .text _               => True
  | .hole opening taken _ => Q opening ('\x7b' :: (taken.reverse ++ cs))

theorem PieceMode.Stands.finish (hQ : Standing Q) {mode : PieceMode} {cs : List Char}
    (h : mode.Stands Q cs) {out : List Piece} (hout : ∀ p ∈ out, p.Stands Q) :
    ∀ p ∈ mode.finish out, p.Stands Q := by
  cases mode with
  | text taken => cases taken <;> simpa [PieceMode.finish, Piece.Stands] using hout
  | hole opening taken quoted =>
    exact List.forall_mem_cons.2 ⟨hQ.of_prefix h ⟨cs, rfl⟩, hout⟩

theorem stands_cutPieces (hQ : Standing Q) {out : List Piece} {mode : PieceMode} {place : Place}
    {cs : List Char} (h : Q place cs) (hmode : mode.Stands Q cs) (hout : ∀ p ∈ out, p.Stands Q) :
    ∀ p ∈ cutPieces out mode place cs, p.Stands Q := by
  -- The characters of a hole are kept as they are, so that one more joins those before it.
  fun_induction cutPieces out mode place cs with
  | case1 out mode place => exact fun p hp => hmode.finish hQ hout p (List.mem_reverse.1 hp)
  | case2 out place c cs d rest hdouble ih => exact ih (hQ.tail (hQ.tail h)) trivial hout
  | case3 out place c cs hdouble =>
    have hfinish : (PieceMode.text (c :: cs)).Stands Q [] := trivial
    exact fun p hp => hfinish.finish hQ hout p (List.mem_reverse.1 hp)
  | case4 out place c rest cs hdouble hopen ih =>
    obtain rfl : c = '\x7b' := by simpa using hopen
    have hfinish : (PieceMode.text cs).Stands Q rest := trivial
    exact ih (hQ.tail h) h (hfinish.finish hQ hout)
  | case5 out place c rest cs hdouble hopen ih => exact ih (hQ.tail h) trivial hout
  | case6 out place c opening cs quoted hescape d rest ih =>
    exact ih (hQ.tail (hQ.tail h)) (by simpa [PieceMode.Stands] using hmode) hout
  | case7 out place c opening cs quoted hescape =>
    have hfinish : (PieceMode.hole opening (c :: cs) quoted).Stands Q [] := by
      simpa [PieceMode.Stands] using hmode
    exact fun p hp => hfinish.finish hQ hout p (List.mem_reverse.1 hp)
  | case8 out place c rest opening cs quoted hescape hquote ih =>
    exact ih (hQ.tail h) (by simpa [PieceMode.Stands] using hmode) hout
  | case9 out place c rest opening cs quoted hescape hquote hclose ih =>
    exact ih (hQ.tail h) trivial (hmode.finish hQ hout)
  | case10 out place c rest opening cs quoted hescape hquote hclose ih =>
    exact ih (hQ.tail h) (by simpa [PieceMode.Stands] using hmode) hout

/-- What is between the quotes of an interpolated string stands where it is taken to stand. -/
theorem stands_interpolatedBody (hQ : Standing Q) {token : Token} {s : List Char}
    (hs : token.lexeme.toList = '$' :: '"' :: s) (h : Q token.span.place token.lexeme.toList) :
    Q (Grammar.interpolatedBody token).1 (Grammar.interpolatedBody token).2 := by
  rw [hs] at h
  have hbody := hQ.tail (hQ.tail h)
  rw [Grammar.interpolatedBody, hs]
  exact hQ.of_prefix hbody (List.dropLast_prefix s)

/-- A hole's text is its expression and, behind a colon, its specifier. -/
theorem append_splitFormatFrom (s : ColonSearch) (before cs : List Char) :
    (splitFormatFrom s before cs).1 ++
      ((splitFormatFrom s before cs).2.map (':' :: ·)).getD [] = before.reverse ++ cs := by
  fun_induction splitFormatFrom s before cs <;> simp_all

theorem append_splitFormat {cs body : List Char} {spec? : Option (List Char)}
    (h : splitFormat cs = (body, spec?)) : body ++ (spec?.map (':' :: ·)).getD [] = cs := by
  have happend := append_splitFormatFrom ⟨0, 0, false⟩ [] cs
  rwa [show splitFormatFrom ⟨0, 0, false⟩ [] cs = _ from h] at happend

/-! ## Errors in order -/

theorem sublist_eraseRepsBy_loop {α : Type} (r : α → α → Bool) (a : α) (as out : List α) :
    (List.eraseRepsBy.loop r a as out).Sublist (out.reverse ++ a :: as) := by
  induction as generalizing a out with
  | nil => simp [List.eraseRepsBy.loop]
  | cons b as ih =>
    rw [List.eraseRepsBy.loop]
    split
    · have hdrop : (a :: as).Sublist (a :: b :: as) := .cons_cons a (List.sublist_cons_self b as)
      exact (ih a out).trans (hdrop.append_left _)
    · simpa using ih b (a :: out)

theorem eraseReps_sublist {α : Type} [BEq α] (as : List α) : as.eraseReps.Sublist as := by
  cases as with
  | nil => exact List.Sublist.refl _
  | cons a as => exact sublist_eraseRepsBy_loop _ a as []

theorem Region.Holds.inOrder {errors : List ParseError} (h : R.Holds errors) :
    R.Holds (ParseError.inOrder errors) :=
  (holds_list _).2 fun _ he => h.mem (List.mem_mergeSort.1 ((eraseReps_sublist _).subset he))

/-! ## Holes -/

namespace Grammar

variable {parse : Place → List Char → Standalone} {place : Place} {text : List Char}

theorem holds_formatSpec (h : R place) (spec : List Char) : R.Holds (formatSpec place spec) := by
  unfold formatSpec
  dsimp only
  split <;> simpa using h

theorem holds_hole (hparse : ∀ place text, R.Covers place text → R.Holds (parse place text))
    (h : R.Covers place ('\x7b' :: text)) : R.Holds (hole parse place text) := by
  cases hsplit : splitFormat text with
  | mk body spec? =>
    have hplace : R place := h.start
    have htext : R.Covers (place.next '\x7b') (body ++ (spec?.map (':' :: ·)).getD []) :=
      (append_splitFormat hsplit).symm ▸ h.tail
    have hvalue : R.Holds (parse (place.next '\x7b') body) := hparse _ _ htext.left
    have hformat : R.Holds
        (spec?.map (formatSpec (((place.next '\x7b').after body).next ':'))) := by
      cases spec? with
      | none => simp
      | some spec => simpa using holds_formatSpec (Region.Covers.tail htext.right).start spec
    unfold hole
    simp only [hsplit]
    split
    · simp [hplace]
    · split <;> split <;> simp_all [or_imp]

theorem holds_segments (hparse : ∀ place text, R.Covers place text → R.Holds (parse place text))
    {ps : List Piece} (h : ∀ p ∈ ps, p.Stands R.Covers) : R.Holds (segments parse ps) := by
  have hpiece : ∀ p ∈ ps, R.Holds (segmentOf parse p).1 ∧ R.Holds (segmentOf parse p).2 := by
    intro p hp
    cases p with
    | text cs => simp [segmentOf]
    | hole place text => exact (Region.holds_pair _ _).1 (holds_hole hparse (h _ hp))
  rw [segments_eq, Region.holds_interpolation]
  constructor
  · exact (Region.holds_list _).2 (List.forall_mem_map.2 fun p hp => (hpiece p hp).1)
  · refine (Region.holds_list _).2 fun e he => ?_
    obtain ⟨p, hp, he⟩ := List.mem_flatMap.1 he
    exact (hpiece p hp).2.mem he

/-- The faults of lexemes, as they are reported. -/
theorem holds_faults {lexemes : List Lexeme} (h : LieIn lexemes R) :
    R.Holds (lexemes.flatMap fun lexeme => lexeme.errors.map ParseError.ofLexError) := by
  refine (Region.holds_list _).2 fun e he => ?_
  obtain ⟨lexeme, hlexeme, he⟩ := List.mem_flatMap.1 he
  obtain ⟨fault, hfault, rfl⟩ := List.mem_map.1 he
  exact (Region.holds_parseError _).2 ((h lexeme hlexeme).errors fault hfault)

/-- The faults that a parser has met are those of lexemes given to it. -/
theorem holds_faultsMet {given : List Lexeme} {reply : Reply given Expr} (h : LieIn given R)
    (hreply : reply.LiesIn R) : R.Holds (faultsMet reply ++ reply.recorded) :=
  (holds_faults fun lexeme hlexeme => h lexeme (List.take_subset _ _ hlexeme)).append
    hreply.recorded

theorem liesIn_wholeExpr {g : Grammar} (hg : g.LiesIn R) {given : List Lexeme} (h : LieIn given R) :
    (g.wholeExpr given).LiesIn R := by
  refine (liesIn_expr hg h 0).andThen fun e rest _ he hrest => ?_
  cases rest with
  | nil => exact Reply.liesIn_ok he hrest
  | cons lexeme rest => exact Reply.liesIn_fail hrest.head.place hrest

theorem holds_standalone {interpolate : Token → Interpolation}
    (hinterpolate : R.Interpolates interpolate) (h : R.Covers place text) :
    R.Holds (standalone interpolate place text) := by
  have hlexemes := Lexemes.liesIn h
  have hfinish : R (Lexemes.ofChars place text).finish :=
    Lexemes.finish_ofChars place text ▸ h.finish
  have hg : Grammar.LiesIn ⟨_, interpolate⟩ R := ⟨hfinish, hinterpolate⟩
  have hreply := liesIn_wholeExpr hg hlexemes
  have hfaults := holds_faultsMet hlexemes hreply
  have hresult := hreply.result
  unfold standalone
  dsimp only
  split
  · rename_i e heq
    rw [heq] at hresult
    split
    · exact hresult
    · exact hfaults.inOrder
  · rename_i e heq
    rw [heq] at hresult
    exact (hfaults.append (Region.Holds.cons hresult (by simp))).inOrder

theorem liesIn_interpolation (depth : Nat) : R.Interpolates (interpolation depth) := by
  induction depth with
  | zero => exact fun _ _ _ => by simp [interpolation]
  | succ depth ih =>
    intro lexeme h hkind
    obtain ⟨s, hs⟩ := h.opening hkind
    have htoken := h.token
    have hbody := stands_interpolatedBody Region.standing_covers hs htoken
    rw [interpolation_succ]
    exact holds_segments (fun _ _ => holds_standalone ih)
      (stands_cutPieces Region.standing_covers hbody trivial (by simp))

end Grammar

end TypedTemplate
