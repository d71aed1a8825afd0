-- SUMMARY: Texts that are cut into one token and nothing else, alone and where more text follows.
import TypedTemplate.Proofs.Template.Body
import TypedTemplate.Proofs.Token.Shift

/-!
# Single tokens

An identifier and a string without faults are cut as one lexeme, which has no trivia before
it, covers the text and is not faulty. Nothing is left behind it. The scan of a string stops at its
closing quote, so what comes behind the quote changes nothing, and faults do not depend on where
the string stands. A text that is cut as one interpolated string without faults is therefore the
same token inside any other text.
-/

namespace TypedTemplate

/-! ## Tokens alone -/

/-- The cut of a text that is one token of the kind `kind`. -/
def Lexemes.single (kind : TokenKind) (place : Place) (cs : List Char) : Lexemes :=
  ⟨[⟨[], cs, ⟨kind, String.ofList cs, place.spanOf cs⟩, []⟩], [], place.after cs⟩

/-- A text is one token when the scan of its first token takes it all. -/
theorem Lexemes.ofChars_eq_single {kind : TokenKind} {place : Place} {c : Char} {cs : List Char}
    (hc : Counts c) (h : scanToken place c cs = .valid place kind (c :: cs) []) :
    ofChars place (c :: cs) = single kind place (c :: cs) := by
  have hnil (out : List Lexeme) (place : Place) :
      ofCharsOnto out place [] = ⟨out.reverse, [], place⟩ := by
    rw [ofCharsOnto]
    rfl
  rw [ofChars, ofCharsOnto_of_cons (skipTrivia_token cs hc)]
  simp only [Place.after_nil, h, Scan.valid, hnil]
  rfl

theorem IsIdentifier.ofChars_eq_single {x : String} (h : IsIdentifier x) (place : Place) :
    Lexemes.ofChars place x.toList = .single .identifier place x.toList := by
  obtain ⟨⟨c, hhead, hstart⟩, hword, hkind⟩ := h
  cases hx : x.toList with
  | nil => simp [hx] at hhead
  | cons d cs =>
    obtain rfl : d = c := by simpa [hx] using hhead
    rw [hx] at hword hkind
    have hopens := opens_of_isWordChar (isWordChar_of_isWordStart hstart)
    have hsplit : splitWhile isWordChar (d :: cs) = (d :: cs, []) := by
      have hsplit : splitWhile isWordChar ((d :: cs) ++ []) = (d :: cs, []) :=
        splitWhile_append hword (by simp)
      rwa [List.append_nil] at hsplit
    refine Lexemes.ofChars_eq_single hopens.1 ?_
    simp [scanToken, hopens.2.1, hopens.2.2, isDigit_of_isWordStart hstart, hstart, hsplit, hkind]

/-- A string without holes that is scanned without faults. -/
theorem Scans.ofChars_quoted {body : List Char} (h : Scans .plain body .plain) (place : Place) :
    Lexemes.ofChars place ('"' :: (body ++ ['"'])) =
      .single .stringLiteral place ('"' :: (body ++ ['"'])) :=
  Lexemes.ofChars_eq_single (by decide) (scanToken_quoted h [] place)

/-- An interpolated string without faults. -/
theorem FillsLiteral.ofChars {body : List Char} (h : FillsLiteral body) (place : Place) :
    Lexemes.ofChars place ('$' :: '"' :: (body ++ ['"'])) =
      .single .interpolatedString place ('$' :: '"' :: (body ++ ['"'])) :=
  Lexemes.ofChars_eq_single (by decide) (h [] place)

/-! ## What comes behind -/

theorem stringMove_close_any {mode : StringMode} {place : Place} {c : Char}
    {next : Option Char} (h : stringMove mode place c next = .close) (next' : Option Char) :
    stringMove mode place c next' = .close := by
  obtain rfl := stringMove_close h
  cases mode <;> first | rfl | cases h

/-- A string that is closed does not reach into what comes behind it. -/
theorem scanString_append {mode : StringMode} {place : Place} {taken : List Char}
    {errors : List LexError} {cs : List Char} (more : List Char)
    (h : (scanString mode place taken errors cs).ending = .closed) :
    scanString mode place taken errors (cs ++ more) =
      { scanString mode place taken errors cs with
        rest := (scanString mode place taken errors cs).rest ++ more } := by
  fun_induction scanString mode place taken errors cs with
  | case1 mode => cases mode <;> cases h
  | case2 mode => cases mode <;> cases h
  | case3 mode place taken errors c rest hclose =>
    rw [List.cons_append, scanString, stringMove_close_any hclose]
  | case4 mode place taken errors c rest mode' error hmove ih =>
    cases rest with
    | nil => cases mode' <;> cases h
    | cons d rest =>
      rw [← ih h, List.cons_append, scanString, List.cons_append, List.head?_cons]
      rw [List.head?_cons] at hmove
      rw [hmove]
  | case5 mode place taken errors c mode' error d rest hmove ih =>
    rw [← ih h, List.cons_append, scanString, List.cons_append, List.head?_cons]
    rw [List.head?_cons] at hmove
    rw [hmove]
  | case6 mode place taken errors c mode' error hmove => cases mode' <;> cases h

/-! ## Where it stands -/

/-- The scan of a token is as far from any place as from any other. -/
theorem scanToken_shift_any {c : Char} {rest : List Char} (h : ∀ x ∈ c :: rest, x ≠ '\n')
    (start : Place) :
    scanToken start c rest = (scanToken ⟨0, 0⟩ c rest).shift start.line start.col := by
  rw [← scanToken_shift h]
  simp [Place.shift]

/-- The text is one interpolated string, cut without faults. -/
def IsLiteral (text : String) : Prop :=
  ∃ lexeme, (Lexemes.ofChars .first text.toList).lexemes = [lexeme] ∧ lexeme.errors = [] ∧
    lexeme.token.kind = .interpolatedString ∧ lexeme.token.lexeme = text

instance : DecidablePred IsLiteral := fun text =>
  decidable_of_iff ((Lexemes.ofChars .first text.toList).lexemes.length = 1 ∧
    ∀ lexeme ∈ (Lexemes.ofChars .first text.toList).lexemes, lexeme.errors = [] ∧
      lexeme.token.kind = .interpolatedString ∧ lexeme.token.lexeme = text) (by
    rw [List.length_eq_one_iff]
    constructor
    · rintro ⟨⟨lexeme, hlexemes⟩, h⟩
      rw [hlexemes, List.forall_mem_singleton] at h
      exact ⟨lexeme, hlexemes, h⟩
    · rintro ⟨lexeme, hlexemes, h⟩
      rw [hlexemes, List.forall_mem_singleton]
      exact ⟨⟨lexeme, rfl⟩, h⟩)

theorem ne_lineFeed_literal {body : List Char} (hline : ∀ c ∈ body, c ≠ '\n') :
    ∀ c ∈ '$' :: '"' :: (body ++ ['"']), c ≠ '\n' := by
  simp only [List.mem_cons, List.mem_append, List.not_mem_nil, or_false]
  rintro c (rfl | rfl | hc | rfl)
  · decide
  · decide
  · exact hline c hc
  · decide

/-- A text of one line that is a literal between its quotes is one wherever it stands. -/
theorem IsLiteral.fillsLiteral {body : List Char}
    (h : IsLiteral (String.ofList ('$' :: '"' :: (body ++ ['"'])))) (hline : ∀ c ∈ body, c ≠ '\n') :
    FillsLiteral body := by
  have hnewline := ne_lineFeed_literal hline
  obtain ⟨lexeme, hlexemes, herrors, hkind, htext⟩ := h
  rw [String.toList_ofList, Lexemes.lexemes_of_cons (skipTrivia_token _ (by decide)),
    Place.after_nil] at hlexemes
  obtain ⟨rfl, -⟩ := List.cons.inj hlexemes
  have hstretch : (scanToken .first '$' ('"' :: (body ++ ['"']))).lexeme.stretch =
      '$' :: '"' :: (body ++ ['"']) := by
    have hverbatim := verbatim_scanToken .first '$' ('"' :: (body ++ ['"'])) (by rw [hkind]; decide)
    exact String.ofList_injective (hverbatim.symm.trans htext)
  intro rest place
  have hfirst := scanToken_shift_any hnewline .first
  have hplace := scanToken_shift_any hnewline place
  have htoken : scanToken place '$' ('"' :: (body ++ ['"'])) =
      (scanString .text (place.after ['$', '"']) ['"', '$'] [] (body ++ ['"'])).toScan place
        .interpolatedString := rfl
  have happend := append_scanToken place '$' ('"' :: (body ++ ['"']))
  generalize hscan : scanString .text (place.after ['$', '"']) ['"', '$'] [] (body ++ ['"']) = s
    at htoken
  have hfaultless : (s.toScan place .interpolatedString).lexeme.errors = [] := by
    rw [hfirst] at herrors
    rw [← htoken, hplace]
    simpa [Scan.shift, Lexeme.shift] using herrors
  have htaken : s.taken.reverse = '$' :: '"' :: (body ++ ['"']) := by
    rw [← StringScan.stretch_toScan s place .interpolatedString, ← htoken, hplace, ← hstretch, hfirst]
    rfl
  have hrest : s.rest = [] := by
    rw [htoken, StringScan.stretch_toScan, htaken, rest_toScan] at happend
    exact List.self_eq_append_right.1 happend.symm
  obtain ⟨hclosed, hnone, -⟩ := StringScan.closed_of_errors hfaultless
  have hmore := scanString_append rest (hscan ▸ hclosed)
  rw [hscan, hrest, List.nil_append, List.append_assoc, List.singleton_append] at hmore
  change (scanString .text (place.after ['$', '"']) ['"', '$'] [] (body ++ '"' :: rest)).toScan place
    .interpolatedString = _
  rw [hmore]
  simp [StringScan.toScan, hclosed, hnone, htaken]

end TypedTemplate
