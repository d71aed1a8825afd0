-- SUMMARY: Parsing finishes, and without errors only if there are none in any hole at any depth.
import TypedTemplate.Proofs.Grammar.Progress
import TypedTemplate.Proofs.Interpolation.Shift
import TypedTemplate.Proofs.Token.Region
import TypedTemplate.Proofs.Token.Separator

/-!
# Faultless holes

A hole is a text of its own, in which there may be interpolated strings again. What is recorded
in a hole is recorded in the text around it, so a text that is parsed without errors has none in its
holes, nor in the holes of these. How deep they are nested does not matter: a hole is shorter than
the string around it, and the depth that is allowed is the length of the text.
-/

namespace TypedTemplate

/-! ## Strings of one line -/

theorem ne_lineFeed_scanToken (start : Place) {c : Char} (hc : c ≠ '\n') (rest : List Char) :
    ∀ x ∈ (scanToken start c rest).lexeme.stretch, x ≠ '\n' := by
  have happend := append_scanToken start c rest
  by_cases hmem : '\n' ∈ rest
  · -- the token ends before the first line feed
    obtain ⟨before, after, rfl, hbefore⟩ := List.eq_append_cons_of_mem hmem
    obtain ⟨left, ⟨used, rfl⟩, hrest⟩ := leaves_scanToken_newline after start c before
    have hstretch :
        (scanToken start c (used ++ left ++ '\n' :: after)).lexeme.stretch = c :: used := by
      rw [hrest] at happend
      exact List.append_cancel_right (happend.trans (by simp))
    rw [hstretch]
    refine List.forall_mem_cons.2 ⟨hc, ?_⟩
    rintro x hx rfl
    exact hbefore (List.mem_append_left left hx)
  · rintro x hx rfl
    have hx : '\n' ∈ c :: rest := happend ▸ List.mem_append_left _ hx
    rcases List.mem_cons.1 hx with heq | hx
    · exact hc heq.symm
    · exact hmem hx

theorem eq_dollar_of_interpolated {start : Place} {c : Char} {rest : List Char}
    (h : (scanToken start c rest).lexeme.token.kind = .interpolatedString) : c = '$' := by
  have hverbatim := verbatim_scanToken start c rest (by rw [h]; decide)
  have happend := append_scanToken start c rest
  obtain ⟨s, hs⟩ := exists_opening h
  rw [hverbatim, String.toList_ofList] at hs
  rw [hs] at happend
  exact (List.cons.inj happend).1.symm

/-- An interpolated string ends on its line. -/
theorem Lexemes.ne_lineFeed {place : Place} {text : List Char} :
    ∀ lexeme ∈ (ofChars place text).lexemes, lexeme.token.kind = .interpolatedString →
      ∀ c ∈ lexeme.token.lexeme.toList, c ≠ '\n' := by
  refine forall_mem_ofChars (fun start c rest skipped hkind => ?_) place text
  have hdollar : c = '$' := eq_dollar_of_interpolated hkind
  have hverbatim := verbatim_scanToken start c rest (by
    change _ = _ at hkind
    rw [hkind]
    decide)
  rw [hverbatim, String.toList_ofList]
  exact ne_lineFeed_scanToken start (by rw [hdollar]; decide) rest

/-! ## Depths -/

namespace Grammar

/-- A text of one line is read alike at all depths that are not below its length. -/
theorem standalone_depth {depth depth' : Nat} {place : Place} {text : List Char}
    (hline : ∀ c ∈ text, c ≠ '\n') (h : text.length ≤ depth) (h' : text.length ≤ depth') :
    standalone (interpolation depth') place text = standalone (interpolation depth) place text := by
  have hshift : ∀ depth'', text.length ≤ depth'' →
      standalone (interpolation depth'') (place.shift 0 0) text =
        shiftResult (List.map (.shift 0 0)) (.shift 0 0)
          (standalone (interpolation depth) place text) :=
    fun depth'' h'' => standalone_shift hline (moves_of_short hline fun token hline' hshort =>
      interpolation_shift hline' (Nat.le_trans hshort h) (Nat.le_trans hshort h''))
  exact (hshift depth' h').trans (hshift depth h).symm

theorem hole_congr {parse parse' : Place → List Char → Standalone} {place : Place} {cs : List Char}
    (h : parse' (place.next '\x7b') (splitFormat cs).1 =
      parse (place.next '\x7b') (splitFormat cs).1) :
    hole parse' place cs = hole parse place cs := by
  unfold hole
  dsimp only
  rw [h]

/-! ## Holes at any depth -/

/-- An interpolated string among the lexemes has a hole that opens at `place`, with the text `cs`
between its braces. -/
def HoleOf (lexemes : List Lexeme) (place : Place) (cs : List Char) : Prop :=
  ∃ lexeme ∈ lexemes, lexeme.token.kind = .interpolatedString ∧
    .hole place cs ∈ pieces (interpolatedBody lexeme.token).1 (interpolatedBody lexeme.token).2

/-- The lexemes of the expression in a hole. -/
def holeLexemes (place : Place) (cs : List Char) : List Lexeme :=
  (Lexemes.ofChars (place.next '\x7b') (splitFormat cs).1).lexemes

/-- There is such a hole in an interpolated string among the lexemes, or in one in a hole of these,
and so on. -/
inductive HoleWithin : (lexemes : List Lexeme) → (place : Place) → (cs : List Char) → Prop where
  | direct {lexemes : List Lexeme} {place : Place} {cs : List Char} :
      HoleOf lexemes place cs → HoleWithin lexemes place cs
  | inner {lexemes : List Lexeme} {place place' : Place} {cs cs' : List Char} :
      HoleOf lexemes place cs → HoleWithin (holeLexemes place cs) place' cs' →
        HoleWithin lexemes place' cs'

/-- Nothing is wrong in the hole: neither a token of its expression, nor the expression, nor the
specifier. -/
structure Faultless (place : Place) (cs : List Char) : Prop where
  lexed : ∀ lexeme ∈ holeLexemes place cs, lexeme.errors = []
  parsed : ∀ depth, cs.length ≤ depth → ∃ e, standalone (interpolation depth)
    (place.next '\x7b') (splitFormat cs).1 = .ok e
  recorded : ∀ depth, cs.length ≤ depth → (hole (standalone (interpolation depth)) place cs).2 = []

/-- The depth is enough for the interpolated string, which stands on one line and is read without
errors. -/
structure ReadsClean (depth : Nat) (lexeme : Lexeme) : Prop where
  line : ∀ c ∈ lexeme.token.lexeme.toList, c ≠ '\n'
  short : lexeme.token.lexeme.length ≤ depth
  errors : (interpolation depth lexeme.token).errors = []

/-- A hole of a string without errors has none, and can be read one less deep. -/
theorem ReadsClean.hole {depth : Nat} {lexeme : Lexeme} (h : ReadsClean depth lexeme)
    {place : Place} {cs : List Char}
    (hmem : .hole place cs ∈
      pieces (interpolatedBody lexeme.token).1 (interpolatedBody lexeme.token).2) :
    (∀ c ∈ cs, c ≠ '\n') ∧ ∃ depth', cs.length ≤ depth' ∧
      (Grammar.hole (standalone (interpolation depth')) place cs).2 = [] := by
  have htext := sublist_of_mem_pieces hmem
  have hbody := interpolatedBody_sublist lexeme.token
  have hlength := length_interpolatedBody_le lexeme.token
  refine ⟨fun c hc => h.line c (hbody.subset (htext.subset hc)), ?_⟩
  cases depth with
  | zero =>
    have hempty : lexeme.token.lexeme.toList = [] :=
      List.eq_nil_of_length_eq_zero (String.length_toList ▸ Nat.le_zero.1 h.short)
    simp [interpolatedBody, hempty, pieces, cutPieces, PieceMode.finish] at hmem
  | succ depth =>
    have hshort := h.short
    have htextLength := htext.length_le
    refine ⟨depth, by omega, ?_⟩
    have herrors := h.errors
    rw [interpolation_succ, segments_eq] at herrors
    exact List.flatMap_eq_nil_iff.1 herrors _ hmem

/-- What an expression takes without errors are strings without errors. -/
theorem errors_of_expr {g : Grammar} {given : List Lexeme} {e : Expr}
    (h : (g.expr 0 given).Yields e []) : ∀ lexeme ∈ given, g.Clean lexeme := by
  obtain ⟨used, hgiven, hused⟩ := consumes_expr g 0 given
  rw [h.2.1, List.append_nil] at hgiven
  exact hgiven ▸ hused e [] h

/-- Where a hole is read without errors, nothing is wrong in it, and the strings in it are read
without errors too. -/
theorem faultless_of_hole {depth : Nat} {place : Place} {cs : List Char}
    (hline : ∀ c ∈ cs, c ≠ '\n') (hshort : cs.length ≤ depth)
    (h : (hole (standalone (interpolation depth)) place cs).2 = []) :
    Faultless place cs ∧ ∀ lexeme ∈ holeLexemes place cs,
      lexeme.token.kind = .interpolatedString → ReadsClean depth lexeme := by
  have hexpr := splitFormat_sublist cs
  have hexprLine : ∀ c ∈ (splitFormat cs).1, c ≠ '\n' := fun c hc => hline c (hexpr.subset hc)
  have hdepth : ∀ depth', cs.length ≤ depth' →
      standalone (interpolation depth') (place.next '\x7b') (splitFormat cs).1 =
        standalone (interpolation depth) (place.next '\x7b') (splitFormat cs).1 :=
    fun depth' h' => standalone_depth hexprLine (Nat.le_trans hexpr.length_le hshort)
      (Nat.le_trans hexpr.length_le h')
  obtain ⟨-, e, -, hparse, -⟩ := (hole_eq_ok (standalone_ne_error _)).1 (Prod.ext rfl h)
  obtain ⟨hyields, hlexed⟩ := standalone_eq_ok.1 hparse
  refine ⟨⟨hlexed, fun depth' h' => ⟨e, (hdepth depth' h').trans hparse⟩, fun depth' h' => ?_⟩, ?_⟩
  · rw [hole_congr (hdepth depth' h')]
    exact h
  · intro lexeme hmem hkind
    refine ⟨Lexemes.ne_lineFeed lexeme hmem hkind, ?_, errors_of_expr hyields lexeme hmem hkind⟩
    have hverbatim := Lexemes.verbatim _ _ lexeme hmem (by rw [hkind]; decide)
    rw [hverbatim, String.length_ofList]
    exact Nat.le_trans (Lexemes.stretch_sublist hmem).length_le
      (Nat.le_trans hexpr.length_le hshort)

/-- The holes of strings without errors have none, however deep they are nested. -/
theorem HoleWithin.faultless {lexemes : List Lexeme} {place : Place} {cs : List Char}
    (h : HoleWithin lexemes place cs)
    (hclean : ∀ lexeme ∈ lexemes, lexeme.token.kind = .interpolatedString →
      ∃ depth, ReadsClean depth lexeme) : Faultless place cs := by
  induction h with
  | direct hhole =>
    obtain ⟨lexeme, hmem, hkind, hpiece⟩ := hhole
    obtain ⟨depth, hreads⟩ := hclean lexeme hmem hkind
    obtain ⟨hline, depth', hshort, hrecorded⟩ := hreads.hole hpiece
    exact (faultless_of_hole hline hshort hrecorded).1
  | inner hhole _ ih =>
    obtain ⟨lexeme, hmem, hkind, hpiece⟩ := hhole
    obtain ⟨depth, hreads⟩ := hclean lexeme hmem hkind
    obtain ⟨hline, depth', hshort, hrecorded⟩ := hreads.hole hpiece
    refine ih fun lexeme' hmem' hkind' => ⟨depth', ?_⟩
    exact (faultless_of_hole hline hshort hrecorded).2 lexeme' hmem' hkind'

end Grammar

/-! ## The theorem -/

namespace SourceUnit

open Grammar

/-- What the parser of units comes to on a text. -/
def replyOf (text : String) : Reply (Lexemes.ofChars .first text.toList).lexemes
    (Option Edition × List UseDecl × List ModuleDecl) :=
  (Grammar.ofText text.length (Lexemes.ofChars .first text.toList).finish).declarations
    (Lexemes.ofChars .first text.toList).finish (Lexemes.ofChars .first text.toList).lexemes

/-- The strings of a unit that is parsed are read without errors. -/
theorem readsClean_of_parse {text : String} {u : SourceUnit} (h : parse text = .ok u) :
    ∀ lexeme ∈ (Lexemes.ofChars .first text.toList).lexemes,
      lexeme.token.kind = .interpolatedString → ReadsClean (text.length + 1) lexeme := by
  obtain ⟨⟨rest, hyields⟩, -⟩ := parse_eq_ok.1 ⟨u.span, h⟩
  obtain ⟨d, -, hrest⟩ := exists_gets_declarations
    (Grammar.ofText text.length (Lexemes.ofChars .first text.toList).finish)
    (Lexemes.ofChars .first text.toList).finish (Lexemes.ofChars .first text.toList).lexemes
  obtain ⟨used, hgiven, hused⟩ := consumes_declarations
    (g := Grammar.ofText text.length (Lexemes.ofChars .first text.toList).finish)
    (Lexemes.ofChars .first text.toList).finish (Lexemes.ofChars .first text.toList).lexemes
  rw [hrest, List.append_nil] at hgiven
  intro lexeme hmem hkind
  refine ⟨Lexemes.ne_lineFeed lexeme hmem hkind, ?_, ?_⟩
  · have hverbatim := Lexemes.verbatim _ _ lexeme hmem (by rw [hkind]; decide)
    rw [hverbatim, String.length_ofList]
    refine Nat.le_succ_of_le ?_
    rw [← String.length_toList]
    exact (Lexemes.stretch_sublist hmem).length_le
  · exact hused _ rest hyields lexeme (hgiven ▸ hmem) hkind

/-- Parsing always finishes. Each turn of a loop of the parser, in a unit or in a hole, takes a
lexeme or ends the loop, whatever the lexemes are. All lexemes of a unit are taken. And
a unit is parsed without errors only if nothing is wrong with its tokens, nothing was
recorded, and nothing is wrong in any hole at any depth. -/
theorem parse_finishes (text : String) :
    (∀ g : Grammar, g.Progress) ∧
    (∃ d, (replyOf text).result = .ok d ∧ (replyOf text).rest = []) ∧
    ∀ u, parse text = .ok u →
      (∀ lexeme ∈ (Lexemes.ofChars .first text.toList).lexemes, lexeme.errors = []) ∧
      (replyOf text).recorded = [] ∧
      ∀ place cs, HoleWithin (Lexemes.ofChars .first text.toList).lexemes place cs →
        Faultless place cs := by
  refine ⟨progress, exists_gets_declarations _ _ _, fun u hu => ?_⟩
  obtain ⟨⟨rest, hyields⟩, hlexed⟩ := parse_eq_ok.1 ⟨u.span, hu⟩
  refine ⟨hlexed, hyields.2.2, fun place cs hhole => hhole.faultless fun lexeme hmem hkind => ?_⟩
  exact ⟨_, readsClean_of_parse hu lexeme hmem hkind⟩

/-- A function that returns a string with a string in its hole. -/
def nestedText : String :=
  "module M \x7b type T \x7b fn F(n: int) -> string \x7b " ++
    "return $\"\x7b$\"\x7bn\x7d\"\x7d\"; \x7d \x7d \x7d"

theorem parse_finishes_nested : ∃ u, parse nestedText = .ok u ∧
    HoleWithin (Lexemes.ofChars .first nestedText.toList).lexemes ⟨1, 58⟩ ['n'] ∧
      Faultless ⟨1, 58⟩ ['n'] := by
  have hchars : nestedText.toList = _ := toList_append_of_eq_ofList rfl rfl
  have houter : HoleOf (Lexemes.ofChars .first nestedText.toList).lexemes ⟨1, 55⟩
      ['$', '"', '\x7b', 'n', '\x7d', '"'] := by
    rw [hchars, HoleOf]
    decide +kernel
  have hinner : HoleOf (holeLexemes ⟨1, 55⟩ ['$', '"', '\x7b', 'n', '\x7d', '"'])
      ⟨1, 58⟩ ['n'] := by
    unfold HoleOf
    decide +kernel
  have hwithin := HoleWithin.inner houter (.direct hinner)
  have hok : (parse nestedText).isOk = true := by
    rw [parse, ← String.length_toList, hchars]
    decide +kernel
  cases hu : parse nestedText with
  | error errors =>
    rw [hu] at hok
    cases hok
  | ok u => exact ⟨u, rfl, hwithin, ((parse_finishes nestedText).2.2 u hu).2.2 _ _ hwithin⟩

end SourceUnit

end TypedTemplate
