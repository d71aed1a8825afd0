-- SUMMARY: How the stretch of a token is spelled, and that trivia and stretches make up the text.
import TypedTemplate.Proofs.Token.Cut

/-!
# Stretches

Cutting loses nothing: the trivia and the stretches of the lexemes, one behind the
other, are the text. The kind of a token says how its stretch is spelled, which is all that
a reader needs to know who looks at characters and not at tokens.
-/

namespace TypedTemplate

/-! ## Cutting a text to its end -/

namespace Lexemes

/-- Induction on a text as it is cut: it is all trivia, or there is a token behind its trivia and a
text behind the token. -/
@[elab_as_elim]
theorem cut_induction {P : Place → List Char → Prop}
    (blank : ∀ place skipped, skipTrivia false [] skipped = (skipped, []) → P place skipped)
    (token : ∀ place skipped c rest,
      skipTrivia false [] (skipped ++ c :: rest) = (skipped, c :: rest) →
        P ((place.after skipped).after (scanToken (place.after skipped) c rest).lexeme.stretch)
          (scanToken (place.after skipped) c rest).rest → P place (skipped ++ c :: rest))
    (place : Place) (text : List Char) : P place text := by
  have happend := append_skipTrivia false [] text
  cases htrivia : skipTrivia false [] text with
  | mk skipped rest =>
    have hsplit : skipped ++ rest = text := by simpa [htrivia] using happend
    cases rest with
    | nil =>
      obtain rfl : skipped = text := by simpa using hsplit
      exact blank place skipped htrivia
    | cons c rest =>
      have hlt := length_rest_lt htrivia (place.after skipped)
      rw [← hsplit] at htrivia ⊢
      exact token place skipped c rest htrivia (cut_induction blank token _ _)
termination_by text.length

/-- The stretches of the lexemes are parts of the text. -/
theorem stretch_sublist {place : Place} {text : List Char} {lexeme : Lexeme}
    (h : lexeme ∈ (ofChars place text).lexemes) : lexeme.stretch.Sublist text := by
  induction place, text using cut_induction with
  | blank place skipped htrivia => simp [lexemes_of_nil htrivia] at h
  | token place skipped c rest htrivia ih =>
    have hscan := append_scanToken (place.after skipped) c rest
    rw [lexemes_of_cons htrivia] at h
    refine List.Sublist.trans ?_ (List.sublist_append_right _ _)
    rw [← hscan]
    rcases List.mem_cons.1 h with rfl | h
    · exact List.sublist_append_left _ _
    · exact (ih h).trans (List.sublist_append_right _ _)

/-- A text none of whose characters starts trivia is made of stretches only. -/
theorem flatMap_stretch {text : List Char} (h : ∀ c ∈ text, Counts c) (place : Place) :
    (ofChars place text).lexemes.flatMap (·.stretch) = text := by
  induction place, text using cut_induction with
  | blank place skipped htrivia =>
    rw [lexemes_of_nil htrivia]
    cases skipped with
    | nil => rfl
    | cons c cs => simp [skipTrivia_token cs (h c List.mem_cons_self)] at htrivia
  | token place skipped c rest htrivia ih =>
    cases skipped with
    | cons d cs =>
      rw [List.cons_append, skipTrivia_token _ (h d (by simp))] at htrivia
      simp at htrivia
    | nil =>
      have hscan := append_scanToken (place.after []) c rest
      rw [lexemes_of_cons htrivia, List.flatMap_cons, List.nil_append, ih]
      · exact hscan
      · exact fun x hx => h x (List.mem_append_right _ (hscan ▸ List.mem_append_right _ hx))

theorem trailing_ofCharsOnto (out : List Lexeme) (place : Place) (text : List Char) :
    (ofCharsOnto out place text).trailing = (ofChars place text).trailing := by
  unfold ofChars
  induction place, text using cut_induction generalizing out with
  | blank place skipped htrivia =>
    rw [ofCharsOnto, ofCharsOnto]
    split <;> simp_all
  | token place skipped c rest htrivia ih =>
    rw [ofCharsOnto_of_cons htrivia, ofCharsOnto_of_cons htrivia]
    exact (ih _).trans (ih _).symm

/-- A text is cut up to its end. -/
theorem finish_ofCharsOnto (out : List Lexeme) (place : Place) (text : List Char) :
    (ofCharsOnto out place text).finish = place.after text := by
  induction place, text using cut_induction generalizing out with
  | blank place skipped htrivia =>
    rw [ofCharsOnto]
    split <;> simp_all
  | token place skipped c rest htrivia ih =>
    rw [ofCharsOnto_of_cons htrivia]
    refine (ih _).trans ?_
    rw [← Place.after_append, ← Place.after_append, append_scanToken]

theorem finish_ofChars (place : Place) (text : List Char) :
    (ofChars place text).finish = place.after text :=
  finish_ofCharsOnto [] place text

end Lexemes

theorem Lexemes.trailing_of_nil {place : Place} {text skipped : List Char}
    (h : skipTrivia false [] text = (skipped, [])) : (ofChars place text).trailing = skipped := by
  rw [ofChars, ofCharsOnto]
  split <;> simp_all

theorem Lexemes.trailing_of_cons {place : Place} {text skipped rest : List Char} {c : Char}
    (h : skipTrivia false [] text = (skipped, c :: rest)) :
    (ofChars place text).trailing =
      let scan := scanToken (place.after skipped) c rest
      (ofChars ((place.after skipped).after scan.lexeme.stretch) scan.rest).trailing := by
  rw [ofChars, ofCharsOnto_of_cons h]
  exact trailing_ofCharsOnto _ _ _

/-- A token keeps its stretch as its text. -/
def Lexeme.Verbatim (lexeme : Lexeme) : Prop :=
  lexeme.token.kind ≠ .invalid → lexeme.token.lexeme = String.ofList lexeme.stretch

theorem StringScan.verbatim_toScan (s : StringScan) (start : Place) (kind : TokenKind) :
    (s.toScan start kind).lexeme.Verbatim := by
  unfold toScan Lexeme.Verbatim
  cases s.ending with
  | closed =>
    simp only
    split
    · exact fun _ => rfl
    · simp
  | unterminated => simp [Scan.invalid]
  | openHole opening => simp [Scan.invalid]

theorem verbatim_scanMark (start : Place) (c : Char) (rest : List Char) :
    (scanMark start c rest).lexeme.Verbatim := by
  unfold scanMark Lexeme.Verbatim Scan.valid Scan.invalid
  grind

theorem verbatim_scanToken (start : Place) (c : Char) (rest : List Char) :
    (scanToken start c rest).lexeme.Verbatim := by
  unfold scanToken
  split
  · exact StringScan.verbatim_toScan _ _ _
  split
  · exact StringScan.verbatim_toScan _ _ _
  split
  · unfold NumberScan.toScan
    split
    · exact fun _ => rfl
    · exact fun hkind => absurd rfl hkind
  split
  · exact fun _ => rfl
  · exact verbatim_scanMark start c rest

theorem Lexemes.verbatim (place : Place) (text : List Char) :
    ∀ lexeme ∈ (ofChars place text).lexemes, lexeme.Verbatim :=
  forall_mem_ofChars (fun start c rest _ => verbatim_scanToken start c rest) place text

/-! ## Spellings -/

/-- The text between the quotes of a string: a quote or backslash stands there only as an escape. -/
inductive Quotable : List Char → Prop where
  | nil : Quotable []
  | char {c : Char} {cs : List Char} :
      isLineEnd c = false → c ≠ '\\' → c ≠ '"' → Quotable cs → Quotable (c :: cs)
  | escape {c : Char} {cs : List Char} :
      isEscape c = true → Quotable cs → Quotable ('\\' :: c :: cs)

/-- The characters of numbers. -/
def Numeral (cs : List Char) : Prop := ∀ c ∈ cs, isWordChar c = true ∨ c ∈ ['.', '+', '-']

/-- How the stretch of a token of the kind is spelled where the text goes on with `rest`. -/
inductive Spelled : TokenKind → (stretch rest : List Char) → Prop where
  | string {s rest : List Char} : Quotable s → Spelled .stringLiteral ('"' :: (s ++ ['"'])) rest
  | interpolated {s rest : List Char} :
      Spelled .interpolatedString ('$' :: '"' :: (s ++ ['"'])) rest
  | number {kind : TokenKind} {cs rest : List Char} :
      kind = .intLiteral ∨ kind = .floatLiteral → Numeral cs → Spelled kind cs rest
  | word {cs rest : List Char} : (∀ c ∈ cs, isWordChar c = true) → Spelled (.ofWord cs) cs rest
  | pair {c d : Char} {kind : TokenKind} {rest : List Char} :
      pairMark c d = some kind → Spelled kind [c, d] rest
  | mark {c : Char} {kind : TokenKind} {rest : List Char} :
      singleMark c = some kind → (∀ d ∈ rest.head?, pairMark c d = none) → Spelled kind [c] rest

theorem stringMove_close {mode : StringMode} {place : Place} {c : Char} {next : Option Char}
    (h : stringMove mode place c next = .close) : c = '"' := by
  unfold stringMove escapeMove at h
  grind

/-- A string ends with a quote. -/
theorem exists_closed {mode : StringMode} {place : Place} {taken : List Char}
    {errors : List LexError} {cs : List Char}
    (h : (scanString mode place taken errors cs).ending = .closed) :
    ∃ s, cs = s ++ '"' :: (scanString mode place taken errors cs).rest := by
  fun_induction scanString mode place taken errors cs with
  | case1 mode => cases mode <;> cases h
  | case2 mode => cases mode <;> cases h
  | case3 mode place taken errors c rest hclose => exact ⟨[], by rw [stringMove_close hclose]; rfl⟩
  | case4 mode place taken errors c rest mode' error hmove ih =>
    obtain ⟨s, hs⟩ := ih h
    exact ⟨c :: s, congrArg (c :: ·) hs⟩
  | case5 mode place taken errors c mode' error d rest hmove ih =>
    obtain ⟨s, hs⟩ := ih h
    exact ⟨c :: d :: s, congrArg (c :: d :: ·) hs⟩
  | case6 mode place taken errors c mode' error hmove => cases mode' <;> cases h

/-- Faults are not forgotten. -/
theorem errors_scanString (mode : StringMode) (place : Place) (taken : List Char)
    (errors : List LexError) (cs : List Char) :
    errors <:+ (scanString mode place taken errors cs).errors := by
  fun_induction scanString mode place taken errors cs with
  | case1 => exact List.suffix_refl _
  | case2 => exact List.suffix_refl _
  | case3 => exact List.suffix_refl _
  | case4 _ _ _ _ _ _ _ error _ ih => exact (List.suffix_append _ _).trans ih
  | case5 _ _ _ _ _ _ error _ _ _ ih => exact (List.suffix_append _ _).trans ih
  | case6 => exact List.suffix_append _ _

theorem nil_of_errors_scanString {mode : StringMode} {place : Place} {taken : List Char}
    {errors : List LexError} {cs : List Char}
    (h : (scanString mode place taken errors cs).errors = []) : errors = [] :=
  List.suffix_nil.1 (h ▸ errors_scanString mode place taken errors cs)

theorem stringMove_plain_one {mode : StringMode} {place : Place} {c : Char} {next : Option Char}
    {error : Option LexError} (h : stringMove .plain place c next = .one mode error) :
    mode = .plain ∧ isLineEnd c = false ∧ c ≠ '"' ∧
      (c = '\\' → ∀ d ∈ next, isLineEnd d = true) := by
  unfold stringMove escapeMove at h
  grind

theorem stringMove_plain_two {mode : StringMode} {place : Place} {c d : Char}
    {error : Option LexError} (h : stringMove .plain place c (some d) = .two mode error) :
    mode = .plain ∧ c = '\\' ∧ (error = none → isEscape d = true) := by
  unfold stringMove escapeMove at h
  grind

theorem scanString_lineEnd {mode : StringMode} {place : Place} {taken : List Char}
    {errors : List LexError} {cs : List Char} (h : ∀ c ∈ cs.head?, isLineEnd c = true) :
    (scanString mode place taken errors cs).ending ≠ .closed := by
  cases cs with
  | nil => cases mode <;> simp [scanString, StringMode.unfinished]
  | cons c cs =>
    have hline : isLineEnd c = true := h c rfl
    cases mode <;> simp [scanString, stringMove, hline, StringMode.unfinished]

/-- A string without holes and faults is quotable between its quotes. -/
theorem exists_quotable {mode : StringMode} {place : Place} {taken cs : List Char}
    {errors : List LexError} (hmode : mode = .plain)
    (hclosed : (scanString mode place taken errors cs).ending = .closed)
    (herrors : (scanString mode place taken errors cs).errors = []) :
    ∃ s, Quotable s ∧ cs = s ++ '"' :: (scanString mode place taken errors cs).rest := by
  fun_induction scanString mode place taken errors cs with
  | case1 mode => cases mode <;> cases hclosed
  | case2 mode => cases mode <;> cases hclosed
  | case3 mode place taken errors c rest hclose =>
    exact ⟨[], .nil, by rw [stringMove_close hclose]; rfl⟩
  | case4 mode place taken errors c rest mode' error hmove ih =>
    subst hmode
    obtain ⟨hmode', hline, hquote, hescape⟩ := stringMove_plain_one hmove
    obtain ⟨s, hs, hcs⟩ := ih hmode' hclosed herrors
    refine ⟨c :: s, .char hline (fun hc => ?_) hquote hs, congrArg (c :: ·) hcs⟩
    exact scanString_lineEnd (hescape hc) hclosed
  | case5 mode place taken errors c mode' error d rest hmove ih =>
    subst hmode
    obtain ⟨hmode', rfl, hescape⟩ := stringMove_plain_two hmove
    obtain ⟨s, hs, hcs⟩ := ih hmode' hclosed herrors
    have hnone : error = none := by
      cases error with
      | none => rfl
      | some e => exact absurd (nil_of_errors_scanString herrors) (by simp)
    exact ⟨'\\' :: d :: s, .escape (hescape hnone) hs, congrArg ('\\' :: d :: ·) hcs⟩
  | case6 mode place taken errors c mode' error hmove => cases mode' <;> cases hclosed

theorem StringScan.closed_of_errors {s : StringScan} {start : Place} {kind : TokenKind}
    (h : (s.toScan start kind).lexeme.errors = []) :
    s.ending = .closed ∧ s.errors = [] ∧ (s.toScan start kind).lexeme.token.kind = kind := by
  unfold toScan at h ⊢
  cases hending : s.ending with
  | closed =>
    simp only [hending] at h ⊢
    split at h
    · simp_all [Scan.valid]
    · simp_all
  | unterminated => simp [hending, Scan.invalid] at h
  | openHole opening => simp [hending, Scan.invalid] at h

/-- A string that is scanned without faults is a token. -/
theorem StringScan.toScan_eq_valid {s : StringScan} {start : Place} {kind : TokenKind}
    (h : (s.toScan start kind).lexeme.errors = []) :
    s.toScan start kind = .valid start kind (s.toScan start kind).lexeme.stretch s.rest := by
  obtain ⟨hclosed, herrors, -⟩ := closed_of_errors h
  simp [toScan, hclosed, herrors, Scan.valid]

namespace Numeral

variable {cs ds : List Char}

theorem nil : Numeral [] := by simp [Numeral]

theorem append (h : Numeral cs) (h' : Numeral ds) : Numeral (cs ++ ds) :=
  List.forall_mem_append.2 ⟨h, h'⟩

theorem of_word (h : ∀ c ∈ cs, isWordChar c = true) : Numeral cs := fun c hc => .inl (h c hc)

theorem cons {c : Char} (hc : isWordChar c = true ∨ c ∈ ['.', '+', '-']) (h : Numeral cs) :
    Numeral (c :: cs) :=
  List.forall_mem_cons.2 ⟨hc, h⟩

theorem digits (cs : List Char) : Numeral (splitWhile Char.isDigit cs).1 := by
  refine of_word fun c hc => ?_
  have hdigit : c.isDigit = true := List.all_eq_true.1 List.all_takeWhile c hc
  simp [isWordChar, Char.isAlphanum, hdigit]

theorem fraction (cs : List Char) : Numeral (scanFraction cs).1 := by
  unfold scanFraction
  split
  · split
    · exact cons (.inr (by simp)) (digits _)
    · exact nil
  · exact nil

theorem sign (cs : List Char) : Numeral (scanSign cs).1 := by
  unfold scanSign Numeral
  split <;> simp

theorem endNumber {kind : TokenKind} {rest : List Char} (h : Numeral cs) :
    Numeral (endNumber cs kind rest).taken := by
  unfold TypedTemplate.endNumber
  split
  · split
    · exact h.append (of_word fun c hc => List.all_eq_true.1 List.all_takeWhile c hc)
    · exact h
  · exact h

theorem exponent {kind : TokenKind} {rest : List Char} (h : Numeral cs) :
    Numeral (scanExponent cs kind rest).taken := by
  unfold scanExponent
  split
  · rename_i e afterE
    split
    · rename_i he
      have hmark : isWordChar e = true := by
        rcases Bool.or_eq_true_iff.1 he with he | he <;> rw [beq_iff_eq.1 he] <;> decide
      have htaken : Numeral (cs ++ e :: (scanSign afterE).1 ++
          (splitWhile Char.isDigit (scanSign afterE).2).1) :=
        (h.append (cons (.inl hmark) (sign _))).append (digits _)
      simp only
      split
      · exact htaken
      · exact htaken.endNumber
    · exact h.endNumber
  · exact h

theorem number (cs : List Char) : Numeral (scanNumber cs).taken :=
  ((digits cs).append (fraction _)).exponent

end Numeral

theorem spelled_scanMark {start : Place} {c : Char} {rest : List Char}
    (h : (scanMark start c rest).lexeme.errors = []) :
    Spelled (scanMark start c rest).lexeme.token.kind (scanMark start c rest).lexeme.stretch
      (scanMark start c rest).rest := by
  have hsingle : (∀ d ∈ rest.head?, pairMark c d = none) →
      Spelled (scanMark start c rest).lexeme.token.kind (scanMark start c rest).lexeme.stretch
        (scanMark start c rest).rest := by
    intro hpair
    cases hmark : singleMark c with
    | some kind =>
      have hscan : scanMark start c rest = .valid start kind [c] rest := by
        unfold scanMark
        cases rest with
        | nil => simp [hmark]
        | cons d rest => simp [hmark, hpair d rfl]
      rw [hscan]
      exact .mark hmark hpair
    | none =>
      exfalso
      unfold scanMark at h
      cases rest with
      | nil => simp [hmark, Scan.invalid] at h
      | cons d rest => simp [hmark, hpair d rfl, Scan.invalid] at h
  cases rest with
  | nil => exact hsingle (by simp)
  | cons d rest =>
    cases hpair : pairMark c d with
    | none => exact hsingle (by simpa using hpair)
    | some kind =>
      have hscan : scanMark start c (d :: rest) = .valid start kind [c, d] rest := by
        simp [scanMark, hpair]
      rw [hscan]
      exact .pair hpair

/-- Behind its opening a string that is closed reads on up to the closing quote. -/
theorem stretch_of_closed {mode : StringMode} {start place : Place} {kind : TokenKind}
    {opening s cs : List Char} (hcs : cs = s ++ '"' :: (scanString mode place opening [] cs).rest) :
    ((scanString mode place opening [] cs).toScan start kind).lexeme.stretch =
      opening.reverse ++ s ++ ['"'] := by
  have happend : _ ++ (scanString mode place opening [] cs).rest = opening.reverse ++ cs :=
    append_scanString mode place opening [] cs
  have hclosed : opening.reverse ++ cs =
      opening.reverse ++ s ++ ['"'] ++ (scanString mode place opening [] cs).rest := by
    conv => lhs; rw [hcs]
    simp
  rw [StringScan.stretch_toScan]
  exact List.append_cancel_right (happend.trans hclosed)

/-- Every token without faults is spelled as its kind is. -/
theorem spelled_scanToken {start : Place} {c : Char} {rest : List Char}
    (h : (scanToken start c rest).lexeme.errors = []) :
    Spelled (scanToken start c rest).lexeme.token.kind (scanToken start c rest).lexeme.stretch
      (scanToken start c rest).rest := by
  unfold scanToken at h ⊢
  split at h
  case isTrue hquote =>
    rw [if_pos hquote, beq_iff_eq.1 hquote]
    rw [beq_iff_eq.1 hquote] at h
    obtain ⟨hclosed, herrors, hkind⟩ := StringScan.closed_of_errors h
    obtain ⟨s, hs, hrest⟩ := exists_quotable rfl hclosed herrors
    rw [hkind, stretch_of_closed hrest]
    exact .string hs
  case isFalse hquote =>
    rw [if_neg hquote]
    split at h
    case isTrue hdollar =>
      rw [if_pos hdollar]
      obtain ⟨hclosed, herrors, hkind⟩ := StringScan.closed_of_errors h
      obtain ⟨s, hrest⟩ := exists_closed hclosed
      rw [hkind, stretch_of_closed hrest]
      exact .interpolated
    case isFalse hdollar =>
      rw [if_neg hdollar]
      split at h
      case isTrue hdigit =>
        rw [if_pos hdigit, NumberScan.stretch_toScan]
        unfold NumberScan.toScan at h ⊢
        cases hkind : (scanNumber (c :: rest)).kind with
        | error detail => simp [hkind, Scan.invalid] at h
        | ok kind => exact .number (scanNumber_kind hkind) (Numeral.number _)
      case isFalse hdigit =>
        rw [if_neg hdigit]
        split at h
        case isTrue hstart =>
          rw [if_pos hstart]
          exact .word fun x hx => List.all_eq_true.1 List.all_takeWhile x hx
        case isFalse hstart =>
          rw [if_neg hstart]
          exact spelled_scanMark h

end TypedTemplate
