-- SUMMARY: Cutting a text into lexemes, one at a time.
import TypedTemplate.Token.Scan

/-!
# Lexemes

A text is cut by skipping trivia, scanning one token and going on behind it. Each
lexeme of a text is thus one scan, and what holds of all scans holds of all lexemes.
-/

namespace TypedTemplate

/-! ## Texts as written -/

/-- The characters of a text that is written out are evaluated at once, where evaluating `toList`
would encode the text and decode it again. -/
theorem toList_of_eq_ofList {text : String} {cs : List Char} (h : text = String.ofList cs) :
    text.toList = cs := by
  rw [h, String.toList_ofList]

theorem toList_append_of_eq_ofList {s t : String} {cs ds : List Char} (hs : s = String.ofList cs)
    (ht : t = String.ofList ds) : (s ++ t).toList = cs ++ ds := by
  rw [String.toList_append, toList_of_eq_ofList hs, toList_of_eq_ofList ht]

/-! ## Lexemes of a text -/

namespace Lexemes

variable {out : List Lexeme} {place : Place} {text skipped rest : List Char} {c : Char}

theorem ofCharsOnto_of_nil (h : skipTrivia false [] text = (skipped, [])) :
    (ofCharsOnto out place text).lexemes = out.reverse := by
  rw [ofCharsOnto]
  split <;> simp_all

theorem ofCharsOnto_of_cons (h : skipTrivia false [] text = (skipped, c :: rest)) :
    ofCharsOnto out place text =
      let scan := scanToken (place.after skipped) c rest
      ofCharsOnto ({ scan.lexeme with skipped } :: out)
        ((place.after skipped).after scan.lexeme.stretch) scan.rest := by
  rw [ofCharsOnto]
  split <;> simp_all

theorem length_rest_lt (h : skipTrivia false [] text = (skipped, c :: rest)) (start : Place) :
    (scanToken start c rest).rest.length < text.length := by
  have hle := length_skipTrivia_le false [] text
  rw [h] at hle
  exact Nat.lt_of_le_of_lt (length_scanToken_le start c rest) hle

/-- The lexemes cut before stand in front of those of the rest. -/
theorem lexemes_ofCharsOnto (out : List Lexeme) (place : Place) (text : List Char) :
    (ofCharsOnto out place text).lexemes = out.reverse ++ (ofChars place text).lexemes := by
  unfold ofChars
  cases h : skipTrivia false [] text with
  | mk skipped rest =>
    cases rest with
    | nil => simp [ofCharsOnto_of_nil h]
    | cons c rest =>
      have hlt := length_rest_lt h (place.after skipped)
      rw [ofCharsOnto_of_cons h, ofCharsOnto_of_cons h, lexemes_ofCharsOnto (_ :: out),
        lexemes_ofCharsOnto [_]]
      simp
termination_by text.length

theorem lexemes_of_nil (h : skipTrivia false [] text = (skipped, [])) :
    (ofChars place text).lexemes = [] :=
  ofCharsOnto_of_nil h

theorem lexemes_of_cons (h : skipTrivia false [] text = (skipped, c :: rest)) :
    (ofChars place text).lexemes =
      let scan := scanToken (place.after skipped) c rest
      { scan.lexeme with skipped } ::
        (ofChars ((place.after skipped).after scan.lexeme.stretch) scan.rest).lexemes := by
  rw [ofChars, ofCharsOnto_of_cons h, lexemes_ofCharsOnto]
  rfl

/-- What holds of every scan, whatever trivia stand before it, holds of every lexeme. -/
theorem forall_mem_ofChars {P : Lexeme → Prop}
    (h : ∀ start c rest skipped, P { (scanToken start c rest).lexeme with skipped })
    (place : Place) (text : List Char) : ∀ lexeme ∈ (ofChars place text).lexemes, P lexeme := by
  cases htrivia : skipTrivia false [] text with
  | mk skipped rest =>
    cases rest with
    | nil => simp [lexemes_of_nil htrivia]
    | cons c rest =>
      have hlt := length_rest_lt htrivia (place.after skipped)
      rw [lexemes_of_cons htrivia]
      intro lexeme hlexeme
      rcases List.mem_cons.1 hlexeme with rfl | hmem
      · exact h _ _ _ _
      · exact forall_mem_ofChars h _ _ lexeme hmem
termination_by text.length

end Lexemes

/-! ## Nothing is lost -/

theorem append_skipTrivia (comment : Bool) (skipped cs : List Char) :
    (skipTrivia comment skipped cs).1 ++ (skipTrivia comment skipped cs).2 =
      skipped.reverse ++ cs := by
  fun_induction skipTrivia comment skipped cs <;> simp_all

theorem append_splitWhile (p : Char → Bool) (cs : List Char) :
    (splitWhile p cs).1 ++ (splitWhile p cs).2 = cs :=
  List.takeWhile_append_dropWhile

theorem append_scanFraction (cs : List Char) :
    (scanFraction cs).1 ++ (scanFraction cs).2 = cs := by
  unfold scanFraction
  split
  · rename_i d rest
    split
    · exact congrArg ('.' :: ·) (append_splitWhile Char.isDigit (d :: rest))
    · rfl
  · rfl

theorem append_scanSign (cs : List Char) : (scanSign cs).1 ++ (scanSign cs).2 = cs := by
  unfold scanSign
  split <;> rfl

theorem append_endNumber (taken : List Char) (kind : TokenKind) (rest : List Char) :
    (endNumber taken kind rest).taken ++ (endNumber taken kind rest).rest = taken ++ rest := by
  unfold endNumber
  split
  · split
    · exact (List.append_assoc ..).trans (congrArg (taken ++ ·) (append_splitWhile isWordChar _))
    · rfl
  · rfl

theorem append_scanExponent (taken : List Char) (kind : TokenKind) (rest : List Char) :
    (scanExponent taken kind rest).taken ++ (scanExponent taken kind rest).rest =
      taken ++ rest := by
  unfold scanExponent
  split
  · rename_i e afterE
    have hexponent : taken ++ e :: (scanSign afterE).1 ++
        (splitWhile Char.isDigit (scanSign afterE).2).1 ++
        (splitWhile Char.isDigit (scanSign afterE).2).2 = taken ++ e :: afterE := by
      have hdigits := append_splitWhile Char.isDigit (scanSign afterE).2
      have hsign := append_scanSign afterE
      simp only [List.append_assoc, List.cons_append, hdigits, hsign]
    split
    · simp only
      split
      · exact hexponent
      · exact (append_endNumber ..).trans hexponent
    · exact append_endNumber ..
  · rfl

theorem append_scanNumber (cs : List Char) :
    (scanNumber cs).taken ++ (scanNumber cs).rest = cs := by
  have hwhole := append_splitWhile Char.isDigit cs
  have hfraction := append_scanFraction (splitWhile Char.isDigit cs).2
  unfold scanNumber
  rw [append_scanExponent, List.append_assoc, hfraction, hwhole]

theorem append_scanMark (start : Place) (c : Char) (rest : List Char) :
    (scanMark start c rest).lexeme.stretch ++ (scanMark start c rest).rest = c :: rest := by
  unfold scanMark Scan.valid Scan.invalid
  grind

theorem append_scanString (mode : StringMode) (place : Place) (taken : List Char)
    (errors : List LexError) (cs : List Char) :
    (scanString mode place taken errors cs).taken.reverse ++
      (scanString mode place taken errors cs).rest = taken.reverse ++ cs := by
  fun_induction scanString mode place taken errors cs <;> simp_all

theorem StringScan.stretch_toScan (s : StringScan) (start : Place) (kind : TokenKind) :
    (s.toScan start kind).lexeme.stretch = s.taken.reverse := by
  unfold toScan Scan.valid Scan.invalid
  grind

theorem NumberScan.stretch_toScan (n : NumberScan) (start : Place) :
    (n.toScan start).lexeme.stretch = n.taken := by
  unfold toScan Scan.valid Scan.invalid
  grind

/-- A token is cut from the front of the text. -/
theorem append_scanToken (start : Place) (c : Char) (rest : List Char) :
    (scanToken start c rest).lexeme.stretch ++ (scanToken start c rest).rest = c :: rest := by
  unfold scanToken
  split
  · rename_i hquote
    rw [StringScan.stretch_toScan, rest_toScan, append_scanString, beq_iff_eq.1 hquote]
    rfl
  split
  · rename_i hdollar
    obtain ⟨rfl, hhead⟩ : c = '$' ∧ rest.head? = some '"' := by simpa using hdollar
    rw [StringScan.stretch_toScan, rest_toScan, append_scanString]
    cases rest with
    | nil => cases hhead
    | cons d rest =>
      cases hhead
      rfl
  split
  · rw [NumberScan.stretch_toScan, NumberScan.rest_toScan, append_scanNumber]
  split
  · exact append_splitWhile isWordChar (c :: rest)
  · exact append_scanMark start c rest

/-! ## Tokens and faults -/

/-- The token is invalid just when there are faults in its text. -/
def Lexeme.Sound (lexeme : Lexeme) : Prop :=
  lexeme.token.kind = .invalid ↔ lexeme.errors ≠ []

theorem TokenKind.ofWord_eq (cs : List Char) :
    ofWord cs = .identifier ∨ (cs, ofWord cs) ∈ keywords := by
  unfold ofWord
  cases h : keywords.lookup cs with
  | none => exact .inl rfl
  | some kind =>
    obtain ⟨before, after, heq, -⟩ := List.lookup_eq_some_iff.1 h
    exact .inr (by simp [heq])

theorem TokenKind.ofWord_ne_invalid (cs : List Char) : ofWord cs ≠ .invalid := by
  rcases ofWord_eq cs with h | h
  · simp [h]
  · intro heq
    rw [heq] at h
    simp [keywords] at h

theorem Scan.sound_valid {start : Place} {kind : TokenKind} {stretch rest : List Char}
    (h : kind ≠ .invalid) : (valid start kind stretch rest).lexeme.Sound := by
  simp [valid, Lexeme.Sound, h]

theorem Scan.sound_invalid {errors : List LexError} {last : LexError} {stretch rest : List Char} :
    (invalid errors last stretch rest).lexeme.Sound := by
  simp [invalid, Lexeme.Sound]

theorem StringScan.sound_toScan {start : Place} {kind : TokenKind} (s : StringScan)
    (h : kind ≠ .invalid) : (s.toScan start kind).lexeme.Sound := by
  unfold toScan
  cases s.ending with
  | closed =>
    simp only
    split
    · exact Scan.sound_valid h
    · simp_all [Lexeme.Sound]
  | unterminated => exact Scan.sound_invalid
  | openHole opening => exact Scan.sound_invalid

theorem NumberScan.sound_toScan {start : Place} (n : NumberScan)
    (h : ∀ kind, n.kind = .ok kind → kind ≠ .invalid) : (n.toScan start).lexeme.Sound := by
  unfold toScan
  split
  · exact Scan.sound_valid (h _ ‹_›)
  · exact Scan.sound_invalid

theorem scanNumber_kind {cs : List Char} {kind : TokenKind} (h : (scanNumber cs).kind = .ok kind) :
    kind = .intLiteral ∨ kind = .floatLiteral := by
  unfold scanNumber scanExponent endNumber at h
  grind

theorem singleMark_ne {c : Char} {kind : TokenKind} (h : singleMark c = some kind) :
    kind ≠ .invalid := by
  unfold singleMark at h
  split at h <;> cases h <;> decide

theorem pairMark_ne {c d : Char} {kind : TokenKind} (h : pairMark c d = some kind) :
    kind ≠ .invalid := by
  unfold pairMark at h
  split at h <;> cases h <;> decide

theorem sound_scanMark (start : Place) (c : Char) (rest : List Char) :
    (scanMark start c rest).lexeme.Sound := by
  unfold scanMark
  dsimp only
  split
  · split
    · exact Scan.sound_valid (pairMark_ne ‹_›)
    · split
      · exact Scan.sound_valid (singleMark_ne ‹_›)
      · exact Scan.sound_invalid
  · split
    · exact Scan.sound_valid (singleMark_ne ‹_›)
    · exact Scan.sound_invalid

/-- A token is invalid just when there are faults in its text. -/
theorem sound_scanToken (start : Place) (c : Char) (rest : List Char) :
    (scanToken start c rest).lexeme.Sound := by
  unfold scanToken
  split
  · exact StringScan.sound_toScan _ (by decide)
  split
  · exact StringScan.sound_toScan _ (by decide)
  split
  · refine NumberScan.sound_toScan _ ?_
    intro kind hkind
    rcases scanNumber_kind hkind with rfl | rfl <;> decide
  split
  · exact Scan.sound_valid (TokenKind.ofWord_ne_invalid _)
  · exact sound_scanMark start c rest

theorem Lexemes.sound (place : Place) (text : List Char) :
    ∀ lexeme ∈ (ofChars place text).lexemes, lexeme.Sound :=
  forall_mem_ofChars (fun start c rest _ => sound_scanToken start c rest) place text

/-! ## Identifiers -/

/-- An identifier is a word. -/
def Lexeme.Worded (lexeme : Lexeme) : Prop :=
  lexeme.token.kind = .identifier → ∀ c ∈ lexeme.token.lexeme.toList, isWordChar c = true

theorem Scan.worded_valid {start : Place} {kind : TokenKind} {stretch rest : List Char}
    (h : kind ≠ .identifier) : (valid start kind stretch rest).lexeme.Worded :=
  fun hkind => absurd hkind h

theorem Scan.worded_invalid {errors : List LexError} {last : LexError} {stretch rest : List Char} :
    (invalid errors last stretch rest).lexeme.Worded := by
  simp [invalid, Lexeme.Worded]

theorem StringScan.worded_toScan {start : Place} {kind : TokenKind} (s : StringScan)
    (h : kind ≠ .identifier) : (s.toScan start kind).lexeme.Worded := by
  unfold toScan
  cases s.ending with
  | closed =>
    simp only
    split
    · exact Scan.worded_valid h
    · simp [Lexeme.Worded]
  | unterminated => exact Scan.worded_invalid
  | openHole opening => exact Scan.worded_invalid

theorem worded_scanMark (start : Place) (c : Char) (rest : List Char) :
    (scanMark start c rest).lexeme.Worded := by
  have hkinds : ∀ kind, (∃ d, pairMark c d = some kind) ∨ singleMark c = some kind →
      kind ≠ .identifier := by
    rintro kind (⟨d, h⟩ | h)
    · unfold pairMark at h
      split at h <;> cases h <;> decide
    · unfold singleMark at h
      split at h <;> cases h <;> decide
  unfold scanMark
  simp only
  split
  · split
    · exact Scan.worded_valid (hkinds _ (.inl ⟨_, ‹_›⟩))
    · split
      · exact Scan.worded_valid (hkinds _ (.inr ‹_›))
      · exact Scan.worded_invalid
  · split
    · exact Scan.worded_valid (hkinds _ (.inr ‹_›))
    · exact Scan.worded_invalid

theorem worded_scanToken (start : Place) (c : Char) (rest : List Char) :
    (scanToken start c rest).lexeme.Worded := by
  unfold scanToken
  split
  · exact StringScan.worded_toScan _ (by decide)
  split
  · exact StringScan.worded_toScan _ (by decide)
  split
  · unfold NumberScan.toScan
    split
    · rcases scanNumber_kind ‹_› with rfl | rfl <;> exact Scan.worded_valid (by decide)
    · exact Scan.worded_invalid
  split
  · intro _ x hx
    simp only [Scan.valid, splitWhile, String.toList_ofList] at hx
    exact List.all_eq_true.1 List.all_takeWhile x hx
  · exact worded_scanMark start c rest

theorem Lexemes.worded (place : Place) (text : List Char) :
    ∀ lexeme ∈ (ofChars place text).lexemes, lexeme.Worded :=
  forall_mem_ofChars (fun start c rest _ => worded_scanToken start c rest) place text

end TypedTemplate
