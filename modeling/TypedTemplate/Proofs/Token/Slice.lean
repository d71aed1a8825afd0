-- SUMMARY: Part of a line, from the start of one token to the end of another, is cut as inside it.
import TypedTemplate.Proofs.Token.Line
import TypedTemplate.Proofs.Token.Prefix

/-!
# Slices

A token does not depend on what stands before it, apart from its place, and nothing behind it is
needed to tell where it ends. What stands between two tokens of a line are spaces only, since a
comment would take the rest of the line. So a slice of the line, from the start of one token to
the end of another, is cut into just those tokens that are there in the line.
-/

namespace TypedTemplate

/-! ## Spaces -/

theorem Bare.left {cs more : List Char} (h : Bare (cs ++ more)) : Bare cs := by
  refine ⟨fun c hc => h.1 c (by simp [List.head?_append, Option.mem_def.1 hc]), fun hslashes => ?_⟩
  exact h.2 (hslashes.trans (List.prefix_append cs more))

theorem skipTrivia_bare {cs : List Char} (h : Bare cs) : skipTrivia false [] cs = ([], cs) := by
  cases cs with
  | nil => rfl
  | cons c rest =>
    have hspace : isSpace c = false := h.1 c rfl
    rw [skipTrivia.eq_def]
    simp only [hspace, Bool.false_and, Bool.false_eq_true, if_false]
    split
    · exact absurd (List.prefix_append ['/', '/'] _) h.2
    · rfl

theorem skipTrivia_spaces {skipped cs : List Char} (h : ∀ c ∈ skipped, isSpace c = true)
    (hbare : Bare cs) : skipTrivia false [] (skipped ++ cs) = (skipped, cs) := by
  induction skipped with
  | nil => exact skipTrivia_bare hbare
  | cons c skipped ih =>
    obtain ⟨hc, hskipped⟩ := List.forall_mem_cons.1 h
    rw [List.cons_append, skipTrivia_space _ hc, ih hskipped]

/-- Before a token on the same line there are no comments. -/
theorem Trivia.isSpace {cs rest : List Char} (h : Trivia cs rest)
    (hline : ∀ c ∈ cs ++ rest, c ≠ '\n') (hrest : rest ≠ []) : ∀ c ∈ cs, isSpace c = true := by
  induction h with
  | nil => simp
  | @space c cs rest hc _ ih =>
    refine List.forall_mem_cons.2 ⟨by simpa [TypedTemplate.isSpace] using hc, ih ?_ hrest⟩
    exact fun x hx => hline x (List.mem_cons_of_mem c hx)
  | @comment body cs rest hbody hhead _ ih =>
    -- the line would go on behind the comment
    cases hcs : cs ++ rest with
    | nil => exact absurd (List.append_eq_nil_iff.1 hcs).2 hrest
    | cons c more =>
      have hmem : c ∈ cs ++ rest := by simp [hcs]
      exact absurd (hhead c (by simp [hcs])) (hline c (by simp_all))

theorem skipTrivia_line {skipped rest : List Char} {c : Char}
    (h : skipTrivia false [] (skipped ++ c :: rest) = (skipped, c :: rest))
    (hline : ∀ x ∈ skipped ++ c :: rest, x ≠ '\n') :
    (∀ x ∈ skipped, isSpace x = true) ∧ Bare (c :: rest) := by
  have htrivia := trivia_skipTrivia (skipped ++ c :: rest)
  have hbare := (skips_skipTrivia false (skipped ++ c :: rest)).2
  rw [h] at htrivia hbare
  exact ⟨htrivia.isSpace hline (List.cons_ne_nil c rest), hbare⟩

/-! ## Slices -/

namespace Lexemes

variable {place : Place} {text : List Char} {own : List Lexeme}

/-- The first token and the lexemes of what is behind it do not need the end of the line. -/
theorem lexemes_token {skipped rest left more : List Char} {c : Char}
    (htrivia : skipTrivia false [] (skipped ++ c :: rest) = (skipped, c :: rest))
    (hline : ∀ x ∈ skipped ++ c :: rest, x ≠ '\n')
    (herrors : (scanToken (place.after skipped) c rest).lexeme.errors = [])
    (hrest : (scanToken (place.after skipped) c rest).rest = left ++ more) :
    (ofChars place (skipped ++
        ((scanToken (place.after skipped) c rest).lexeme.stretch ++ left))).lexemes =
      { (scanToken (place.after skipped) c rest).lexeme with skipped } ::
        (ofChars ((place.after skipped).after
          (scanToken (place.after skipped) c rest).lexeme.stretch) left).lexemes := by
  obtain ⟨hspaces, hbare⟩ := skipTrivia_line htrivia hline
  have happend := append_scanToken (place.after skipped) c rest
  have hle := length_scanToken_le (place.after skipped) c rest
  obtain ⟨cs, hcs, rfl⟩ : ∃ cs,
      (scanToken (place.after skipped) c rest).lexeme.stretch ++ left = c :: cs ∧
        rest = cs ++ more := by
    rw [hrest, ← List.append_assoc] at happend
    rw [hrest] at hle
    cases hstretch : (scanToken (place.after skipped) c rest).lexeme.stretch ++ left with
    | nil =>
      rw [hstretch, List.nil_append] at happend
      rw [happend, List.length_append, List.length_cons] at hle
      omega
    | cons d cs =>
      rw [hstretch] at happend
      obtain ⟨rfl, rfl⟩ := List.cons.inj happend
      exact ⟨cs, rfl, rfl⟩
  have hscan := scanToken_of_append hrest herrors
  rw [hcs, lexemes_of_cons (skipTrivia_spaces hspaces (Bare.left hbare)), hscan]

/-- The lexemes up to some token are those of the text up to its end. -/
theorem exists_start (hline : ∀ c ∈ text, c ≠ '\n') {post : List Lexeme}
    (hfaults : ∀ lexeme ∈ own, lexeme.errors = [])
    (h : (ofChars place text).lexemes = own ++ post) (hown : own ≠ []) :
    ∃ t after, text = t ++ after ∧ (ofChars place t).lexemes = own ∧
      ∀ last ∈ own.getLast?, last.token.span.endCol = (place.after t).col := by
  induction place, text using cut_induction generalizing own with
  | blank place skipped htrivia =>
    rw [lexemes_of_nil htrivia] at h
    exact absurd (List.append_eq_nil_iff.1 h.symm).1 hown
  | token place skipped c rest htrivia ih =>
    have happend := append_scanToken (place.after skipped) c rest
    obtain ⟨first, own, rfl⟩ := List.exists_cons_of_ne_nil hown
    rw [lexemes_of_cons htrivia] at h
    obtain ⟨rfl, hrest⟩ := List.cons.inj h
    obtain ⟨herrors, hfaults⟩ := List.forall_mem_cons.1 hfaults
    have hlineToken : ∀ x ∈ (scanToken (place.after skipped) c rest).lexeme.stretch ++
        (scanToken (place.after skipped) c rest).rest, x ≠ '\n' := by
      rw [happend]
      exact fun x hx => hline x (List.mem_append_right _ hx)
    obtain ⟨hlineStretch, hlineRest⟩ := List.forall_mem_append.1 hlineToken
    obtain ⟨t, after, hsplit, hlexemes, hlast⟩ : ∃ t after,
        (scanToken (place.after skipped) c rest).rest = t ++ after ∧
        (ofChars ((place.after skipped).after
          (scanToken (place.after skipped) c rest).lexeme.stretch) t).lexemes = own ∧
        ∀ last ∈ ({ (scanToken (place.after skipped) c rest).lexeme with skipped } ::
          own).getLast?, last.token.span.endCol = (((place.after skipped).after
            (scanToken (place.after skipped) c rest).lexeme.stretch).after t).col := by
      cases own with
      | nil =>
        refine ⟨[], _, rfl, lexemes_of_nil rfl, fun last hlast => ?_⟩
        obtain rfl : _ = last := by simpa using hlast
        show Span.endCol (scanToken _ c rest).lexeme.token.span = _
        rw [span_scanToken herrors, Place.after_nil,
          Place.after_of_not_mem fun hmem => hlineStretch _ hmem rfl]
        rfl
      | cons second own =>
        rw [List.getLast?_cons_cons]
        exact ih hlineRest hfaults hrest (List.cons_ne_nil second own)
    refine ⟨skipped ++ ((scanToken (place.after skipped) c rest).lexeme.stretch ++ t), after,
      ?_, ?_, ?_⟩
    · rw [← happend, hsplit]
      simp
    · rw [lexemes_token htrivia hline herrors hsplit, hlexemes]
    · rwa [Place.after_append, Place.after_append]

/-- The lexemes from some token on are those of the text from its start on, where nothing has been
skipped before it. -/
theorem exists_end (hline : ∀ c ∈ text, c ≠ '\n') {pre : List Lexeme} {first : Lexeme}
    (hfirst : first.errors = []) (h : (ofChars place text).lexemes = pre ++ first :: own) :
    ∃ before t, text = before ++ t ∧
      (ofChars (place.after before) t).lexemes = { first with skipped := [] } :: own ∧
      first.token.span.place = place.after before := by
  induction place, text using cut_induction generalizing pre with
  | blank place skipped htrivia =>
    rw [lexemes_of_nil htrivia] at h
    simp at h
  | token place skipped c rest htrivia ih =>
    rw [lexemes_of_cons htrivia] at h
    cases pre with
    | nil =>
      obtain ⟨rfl, rfl⟩ := List.cons.inj h
      have hbare := (skipTrivia_line htrivia hline).2
      refine ⟨skipped, c :: rest, rfl, ?_, ?_⟩
      · rw [lexemes_of_cons (skipTrivia_bare hbare)]
        rfl
      · show Span.place (scanToken _ c rest).lexeme.token.span = _
        rw [span_scanToken hfirst, Place.place_spanOf]
    | cons lexeme pre =>
      have happend := append_scanToken (place.after skipped) c rest
      obtain ⟨before, t, hsplit, hlexemes, hplace⟩ := ih
        (fun x hx => hline x (List.mem_append_right _ (happend ▸ List.mem_append_right _ hx)))
        (List.cons.inj h).2
      refine ⟨skipped ++ ((scanToken (place.after skipped) c rest).lexeme.stretch ++ before), t,
        ?_, ?_, ?_⟩
      · rw [← happend, hsplit]
        simp
      · rwa [Place.after_append, Place.after_append]
      · rwa [Place.after_append, Place.after_append]

/-- The lexemes from one token to another are those of the text from the start of the first to the
end of the last, which is the text that a span over them covers. -/
theorem exists_slice (hline : ∀ c ∈ text, c ≠ '\n') {pre post : List Lexeme} {first : Lexeme}
    (hfaults : ∀ lexeme ∈ first :: own, lexeme.errors = [])
    (h : (ofChars place text).lexemes = pre ++ (first :: own) ++ post) :
    ∃ p t, Slice place text p t ∧ (ofChars p t).lexemes = { first with skipped := [] } :: own ∧
      ∀ s : Span, s.Over (first :: own) → s = p.spanOf t := by
  have hfirst := hfaults first List.mem_cons_self
  rw [List.append_assoc, List.cons_append] at h
  obtain ⟨before, rest, rfl, hlexemes, hplace⟩ := exists_end hline hfirst h
  have hlineRest := (List.forall_mem_append.1 hline).2
  have hfaults' : ∀ lexeme ∈ { first with skipped := [] } :: own, lexeme.errors = [] :=
    List.forall_mem_cons.2 ⟨hfirst, (List.forall_mem_cons.1 hfaults).2⟩
  obtain ⟨t, after, rfl, hown, hlast⟩ :=
    exists_start hlineRest hfaults' hlexemes (List.cons_ne_nil _ _)
  refine ⟨place.after before, t, ⟨before, after, (List.append_assoc ..).symm, rfl⟩, hown, ?_⟩
  intro s hover
  have hover' : s.Over ({ first with skipped := [] } :: own) := hover.of_token rfl
  obtain ⟨first', hhead, last, hmem, hsameLine, hsameCol, hend⟩ := hover'
  obtain rfl : _ = first' := by simpa using hhead
  rw [hlast last hmem, Place.after_of_not_mem fun hmem => (List.forall_mem_append.1 hlineRest).1 _
    hmem rfl] at hend
  rw [← hplace]
  obtain ⟨line, col, len⟩ := s
  simp only [Span.endCol, ← hplace, Span.place] at hsameLine hsameCol hend
  simp only [Place.spanOf, Place.span, Span.place, Span.mk.injEq]
  omega

end Lexemes

end TypedTemplate
