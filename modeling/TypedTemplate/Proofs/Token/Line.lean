-- SUMMARY: Tokens of one line stand one behind the other, and a span can go from one to another.
import TypedTemplate.Proofs.Token.Read
import TypedTemplate.Proofs.Token.Region

/-!
# Lines of tokens

Where the tokens stand on one line, in order, the span from one of them to another is
found by merging, and covers all that is between them.
-/

namespace TypedTemplate

/-- The tokens stand on one line, each behind the one before it. -/
def InLine (own : List Lexeme) : Prop :=
  own.Pairwise fun a b =>
    a.token.span.line = b.token.span.line ∧ a.token.span.endCol ≤ b.token.span.col

/-- The span goes from the first of the lexemes to the last one. -/
def Span.Over (s : Span) (own : List Lexeme) : Prop :=
  ∃ first ∈ own.head?, ∃ last ∈ own.getLast?, s.line = first.token.span.line ∧
    s.col = first.token.span.col ∧ s.endCol = last.token.span.endCol

theorem Span.over_singleton (lexeme : Lexeme) : lexeme.token.span.Over [lexeme] :=
  ⟨lexeme, rfl, lexeme, rfl, rfl, rfl, rfl⟩

/-- Only the tokens count, not what was skipped before them. -/
theorem Span.Over.of_token {s : Span} {lexeme lexeme' : Lexeme} {own : List Lexeme}
    (h : s.Over (lexeme :: own)) (htoken : lexeme'.token = lexeme.token) :
    s.Over (lexeme' :: own) := by
  obtain ⟨first, hfirst, last, hlast, hline, hcol, hend⟩ := h
  obtain rfl : lexeme = first := by simpa using hfirst
  cases own with
  | nil =>
    obtain rfl : lexeme = last := by simpa using hlast
    exact ⟨lexeme', rfl, lexeme', rfl, htoken ▸ hline, htoken ▸ hcol, htoken ▸ hend⟩
  | cons second own =>
    exact ⟨lexeme', rfl, last, by simpa using hlast, htoken ▸ hline, htoken ▸ hcol, hend⟩

theorem Span.le_endCol (s : Span) : s.col ≤ s.endCol := Nat.le_add_right _ _

/-- Merging gives the span from the first to the last of the lexemes of both and of those between
them. -/
theorem Span.Over.merge {a b : Span} {as bs : List Lexeme} (between : List Lexeme) (ha : a.Over as)
    (hb : b.Over bs) (h : InLine (as ++ between ++ bs)) :
    (a.merge b).Over (as ++ between ++ bs) := by
  obtain ⟨first, hfirst, last, hlast, hline, hcol, hend⟩ := ha
  obtain ⟨first', hfirst', last', hlast', hline', hcol', hend'⟩ := hb
  have hacross : ∀ x ∈ as, ∀ y ∈ bs,
      x.token.span.line = y.token.span.line ∧ x.token.span.endCol ≤ y.token.span.col :=
    fun x hx y hy => (List.pairwise_append.1 h).2.2 x (List.mem_append_left _ hx) y hy
  have hlines := (hacross first (List.mem_of_head? hfirst) first' (List.mem_of_head? hfirst')).1
  have hbefore := (hacross last (List.mem_of_getLast? hlast) first' (List.mem_of_head? hfirst')).2
  have hle := a.le_endCol
  have hle' := b.le_endCol
  have hmerge : a.merge b = ⟨a.line, a.col, b.endCol - a.col⟩ := by
    unfold Span.merge
    rw [if_pos (by omega), Nat.min_eq_left (by omega), Nat.max_eq_right (by omega)]
  refine ⟨first, ?_, last', ?_, ?_, ?_, ?_⟩
  · simp [List.head?_append, Option.mem_def.1 hfirst]
  · simp [List.getLast?_append, Option.mem_def.1 hlast']
  · rw [hmerge, hline]
  · rw [hmerge, hcol]
  · rw [hmerge, ← hend']
    simp only [Span.endCol] at *
    omega

/-- A token without faults has the span of its stretch. -/
theorem span_scanToken {start : Place} {c : Char} {rest : List Char}
    (h : (scanToken start c rest).lexeme.errors = []) :
    (scanToken start c rest).lexeme.token.span =
      start.spanOf (scanToken start c rest).lexeme.stretch := by
  have hvalid : (scanToken start c rest).lexeme.token.kind ≠ .invalid :=
    fun hkind => (sound_scanToken start c rest).1 hkind h
  exact congrArg Token.span ((whole_scanToken start c rest).2 hvalid)

/-- On a line the places of a text are to the right of where it starts. -/
theorem Region.covers_line {p : Place} {cs : List Char} (hline : ∀ c ∈ cs, c ≠ '\n') :
    Region.Covers (fun q => q.line = p.line ∧ p.col ≤ q.col) p cs := by
  intro pre hpre
  rw [Place.after_of_not_mem fun hmem => hline _ (hpre.subset hmem) rfl]
  exact ⟨rfl, Nat.le_add_right _ _⟩

namespace Lexemes

variable {place : Place} {text : List Char}

/-- The text of a token without faults stands where its span starts. -/
theorem stands {Q : Place → List Char → Prop} (hQ : Standing Q) (h : Q place text) :
    ∀ lexeme ∈ (ofChars place text).lexemes, lexeme.errors = [] →
      Q lexeme.token.span.place lexeme.token.lexeme.toList := by
  induction place, text using cut_induction with
  | blank place skipped htrivia => simp [lexemes_of_nil htrivia]
  | token place skipped c rest htrivia ih =>
    have htoken := hQ.right h
    rw [← append_scanToken (place.after skipped) c rest] at htoken
    rw [lexemes_of_cons htrivia]
    refine List.forall_mem_cons.2 ⟨fun herrors => ?_, ih (hQ.right htoken)⟩
    have hvalid : (scanToken (place.after skipped) c rest).lexeme.token.kind ≠ .invalid :=
      fun hkind => (sound_scanToken _ c rest).1 hkind herrors
    have hverbatim := verbatim_scanToken (place.after skipped) c rest hvalid
    show Q (Span.place (scanToken _ c rest).lexeme.token.span)
      (scanToken (place.after skipped) c rest).lexeme.token.lexeme.toList
    rw [span_scanToken herrors, hverbatim, String.toList_ofList]
    exact hQ.left htoken

/-- The tokens of a text of one line stand on this line in order. -/
theorem inLine (hline : ∀ c ∈ text, c ≠ '\n')
    (h : ∀ lexeme ∈ (ofChars place text).lexemes, lexeme.errors = []) :
    InLine (ofChars place text).lexemes := by
  induction place, text using cut_induction with
  | blank place skipped htrivia => simp [lexemes_of_nil htrivia, InLine]
  | token place skipped c rest htrivia ih =>
    have happend := append_scanToken (place.after skipped) c rest
    rw [lexemes_of_cons htrivia] at h ⊢
    rw [← happend] at hline
    obtain ⟨herrors, hrest⟩ := List.forall_mem_cons.1 h
    have hlineRest := fun x hx => hline x (List.mem_append_right _ (List.mem_append_right _ hx))
    have hstretch : '\n' ∉ (scanToken (place.after skipped) c rest).lexeme.stretch :=
      fun hmem => hline _ (List.mem_append_right _ (List.mem_append_left _ hmem)) rfl
    have hbehind := liesIn (Region.covers_line (p := (place.after skipped).after
      (scanToken (place.after skipped) c rest).lexeme.stretch) hlineRest)
    refine List.pairwise_cons.2 ⟨fun other hother => ?_, ih hlineRest hrest⟩
    obtain ⟨hsame, hle⟩ := (hbehind other hother).token.start
    rw [Place.after_of_not_mem hstretch] at hsame hle
    show Span.line (scanToken _ c rest).lexeme.token.span = _ ∧ Span.endCol _ ≤ _
    rw [span_scanToken herrors]
    exact ⟨hsame.symm, hle⟩

end Lexemes

end TypedTemplate
