-- SUMMARY: The tokens and the faults of a text lie where the text does.
import TypedTemplate.Proofs.Source.Region
import TypedTemplate.Proofs.Token.Stretch

/-!
# Lexemes in a region

A token stands where its text does, character by character, and a lexical fault starts at
a character that the scan was at. So the lexemes of a text that a region covers lie in the
region, the text of an interpolated string all through, since holes are read from it later.
-/

namespace TypedTemplate

variable {R : Region}

/-! ## Strings -/

/-- Where the hole that is being read opened. -/
def StringMode.opening? : StringMode → Option Place
  | .plain | .text                  => none
  | .hole opening | .nested opening => some opening

theorem StringMode.opening_unfinished {mode : StringMode} {opening : Place}
    (h : mode.unfinished = .openHole opening) : opening ∈ mode.opening? := by
  cases mode <;> cases h <;> rfl

/-- A fault is found at the character that is read, and a hole opens there. -/
theorem stringMove_place {mode mode' : StringMode} {place : Place} {c : Char} {next : Option Char}
    {error : Option LexError}
    (h : stringMove mode place c next = .one mode' error ∨
      stringMove mode place c next = .two mode' error) :
    (∀ e ∈ error, e.span.place = place) ∧
      ∀ opening ∈ mode'.opening?, opening = place ∨ opening ∈ mode.opening? := by
  unfold stringMove escapeMove at h
  cases mode <;> grind [StringMode.opening?, Place.place_span, Place.place_spanOf]

/-- The scan of a string is in the region: its faults, and the hole that is open in its mode. -/
structure StringMode.LiesIn (mode : StringMode) (errors : List LexError) (R : Region) : Prop where
  opening : ∀ opening ∈ mode.opening?, R opening
  errors : ∀ e ∈ errors, R e.span.place

theorem StringMode.LiesIn.move {mode mode' : StringMode} {place : Place} {c : Char}
    {next : Option Char} {errors : List LexError} {error : Option LexError}
    (h : mode.LiesIn errors R) (hplace : R place)
    (hmove : stringMove mode place c next = .one mode' error ∨
      stringMove mode place c next = .two mode' error) :
    mode'.LiesIn (error.toList ++ errors) R := by
  obtain ⟨herror, hopening⟩ := stringMove_place hmove
  constructor
  · intro opening hmem
    rcases hopening opening hmem with rfl | hmem
    · exact hplace
    · exact h.opening opening hmem
  · refine List.forall_mem_append.2 ⟨fun e he => ?_, h.errors⟩
    rw [herror e (by simpa using he)]
    exact hplace

/-- The faults of a string start in its text, and so does a hole that is left open. -/
theorem scanString_covered {mode : StringMode} {place : Place} (taken : List Char)
    {errors : List LexError} {cs : List Char} (h : R.Covers place cs)
    (hmode : mode.LiesIn errors R) :
    (∀ e ∈ (scanString mode place taken errors cs).errors, R e.span.place) ∧
      ∀ opening, (scanString mode place taken errors cs).ending = .openHole opening →
        R opening := by
  fun_induction scanString mode place taken errors cs with
  | case1 mode => exact ⟨hmode.errors, fun p hp => hmode.opening p (mode.opening_unfinished hp)⟩
  | case2 mode => exact ⟨hmode.errors, fun p hp => hmode.opening p (mode.opening_unfinished hp)⟩
  | case3 => exact ⟨hmode.errors, by simp⟩
  | case4 mode place taken errors c rest mode' error hmove ih =>
    exact ih h.tail (hmode.move h.start (.inl hmove))
  | case5 mode place taken errors c mode' error d rest hmove ih =>
    exact ih h.tail.tail (hmode.move h.start (.inr hmove))
  | case6 mode place taken errors c mode' error hmove =>
    have hmode' := hmode.move h.start (.inr hmove)
    exact ⟨hmode'.errors, fun p hp => hmode'.opening p (mode'.opening_unfinished hp)⟩

/-! ## Tokens -/

/-- The token of the lexeme stands in the region, and its faults start there. -/
structure Lexeme.StandsIn (lexeme : Lexeme) (R : Region) : Prop where
  token : R.Covers lexeme.token.span.place lexeme.token.lexeme.toList
  errors : ∀ e ∈ lexeme.errors, R e.span.place

namespace Scan

variable {start : Place} {kind : TokenKind} {stretch rest : List Char} {errors : List LexError}
  {last : LexError}

theorem standsIn_valid (h : R.Covers start stretch) :
    (valid start kind stretch rest).lexeme.StandsIn R :=
  ⟨by simpa [valid] using h, by simp [valid]⟩

/-- An invalid token has no text, so it is enough that it starts in the region. -/
theorem standsIn_mk_invalid {span : Span} (hspan : R span.place)
    (herrors : ∀ e ∈ errors, R e.span.place) :
    Lexeme.StandsIn ⟨[], stretch, ⟨.invalid, "", span⟩, errors⟩ R := by
  refine ⟨fun pre hpre => ?_, herrors⟩
  obtain rfl : pre = [] := List.prefix_nil.1 hpre
  exact hspan

theorem standsIn_invalid (herrors : ∀ e ∈ errors, R e.span.place) (hlast : R last.span.place) :
    (invalid errors last stretch rest).lexeme.StandsIn R :=
  standsIn_mk_invalid hlast (List.forall_mem_append.2 ⟨herrors, by simpa using hlast⟩)

end Scan

theorem StringScan.standsIn_toScan {s : StringScan} {start : Place} {kind : TokenKind}
    (h : R.Covers start s.taken.reverse) (herrors : ∀ e ∈ s.errors, R e.span.place)
    (hopening : ∀ opening, s.ending = .openHole opening → R opening) :
    (s.toScan start kind).lexeme.StandsIn R := by
  have herrors' : ∀ e ∈ s.errors.reverse, R e.span.place :=
    fun e he => herrors e (List.mem_reverse.1 he)
  unfold toScan
  cases hending : s.ending with
  | closed =>
    dsimp only
    split
    · exact Scan.standsIn_valid h
    · exact Scan.standsIn_mk_invalid h.start herrors'
  | unterminated => exact Scan.standsIn_invalid herrors' h.start
  | openHole opening => exact Scan.standsIn_invalid herrors' (hopening opening hending)

theorem NumberScan.standsIn_toScan {n : NumberScan} {start : Place} (h : R.Covers start n.taken) :
    (n.toScan start).lexeme.StandsIn R := by
  unfold toScan
  split
  · exact Scan.standsIn_valid h
  · exact Scan.standsIn_invalid (by simp) h.start

theorem standsIn_scanMark {start : Place} {c : Char} {rest : List Char}
    (h : R.Covers start (c :: rest)) : (scanMark start c rest).lexeme.StandsIn R := by
  unfold scanMark
  dsimp only
  split
  · rename_i d rest
    split
    · exact Scan.standsIn_valid (h.of_prefix ⟨rest, rfl⟩)
    split
    · exact Scan.standsIn_valid (h.of_prefix ⟨d :: rest, rfl⟩)
    · exact Scan.standsIn_invalid (by simp) h.start
  split
  · exact Scan.standsIn_valid (h.of_prefix ⟨[], rfl⟩)
  · exact Scan.standsIn_invalid (by simp) h.start

/-- A string that opens with `opening` behind `start` lies where its text does. -/
theorem standsIn_scanString {mode : StringMode} {start : Place} {kind : TokenKind}
    (opening : List Char) {cs : List Char} (hmode : mode.opening? = none)
    (h : R.Covers start (opening ++ cs)) :
    ((scanString mode (start.after opening) opening.reverse [] cs).toScan start
      kind).lexeme.StandsIn R := by
  have happend := append_scanString mode (start.after opening) opening.reverse [] cs
  rw [List.reverse_reverse] at happend
  -- The string is scanned from behind its opening, but its text is all that was taken.
  have hstart : mode.LiesIn [] R := ⟨by simp [hmode], by simp⟩
  obtain ⟨herrors, hopening⟩ := scanString_covered opening.reverse h.right hstart
  exact StringScan.standsIn_toScan (happend ▸ h).left herrors hopening

theorem standsIn_scanToken {start : Place} {c : Char} {rest : List Char}
    (h : R.Covers start (c :: rest)) : (scanToken start c rest).lexeme.StandsIn R := by
  unfold scanToken
  split
  · exact standsIn_scanString [c] rfl h
  split
  · rename_i hdollar
    obtain ⟨rfl, hhead⟩ : c = '$' ∧ rest.head? = some '"' := by simpa using hdollar
    obtain ⟨cs, rfl⟩ := List.head?_eq_some_iff.1 hhead
    exact standsIn_scanString ['$', '"'] rfl h
  split
  · have happend := append_scanNumber (c :: rest)
    exact NumberScan.standsIn_toScan (happend ▸ h).left
  split
  · exact Scan.standsIn_valid (h.of_prefix (List.takeWhile_prefix _))
  · exact standsIn_scanMark h

/-! ## Texts -/

/-- The lexeme lies in the region. The text of an interpolated string opens with a dollar sign and a
quote, and behind them are the texts of the holes. -/
structure Lexeme.LiesIn (lexeme : Lexeme) (R : Region) : Prop extends lexeme.StandsIn R where
  opening : lexeme.token.kind = .interpolatedString →
    ∃ s, lexeme.token.lexeme.toList = '$' :: '"' :: s

/-- Only interpolated strings are of their kind. -/
theorem Spelled.opening {kind : TokenKind} {stretch rest : List Char}
    (h : Spelled kind stretch rest) (hkind : kind = .interpolatedString) :
    ∃ s, stretch = '$' :: '"' :: s := by
  cases h with
  | string => cases hkind
  | interpolated => exact ⟨_, rfl⟩
  | number hnumber => rcases hnumber with rfl | rfl <;> cases hkind
  | word =>
    rcases TokenKind.ofWord_eq stretch with hword | hword
    · exact absurd (hword.symm.trans hkind) (by decide)
    · simp [hkind, TokenKind.keywords] at hword
  | pair hmark =>
    unfold pairMark at hmark
    split at hmark <;> cases hmark <;> cases hkind
  | mark hmark =>
    unfold singleMark at hmark
    split at hmark <;> cases hmark <;> cases hkind

theorem exists_opening {start : Place} {c : Char} {rest : List Char}
    (h : (scanToken start c rest).lexeme.token.kind = .interpolatedString) :
    ∃ s, (scanToken start c rest).lexeme.token.lexeme.toList = '$' :: '"' :: s := by
  have hvalid : (scanToken start c rest).lexeme.token.kind ≠ .invalid := by
    rw [h]
    decide
  have herrors : (scanToken start c rest).lexeme.errors = [] :=
    Decidable.byContradiction fun herrors => hvalid ((sound_scanToken start c rest).2 herrors)
  rw [verbatim_scanToken start c rest hvalid, String.toList_ofList]
  exact (spelled_scanToken herrors).opening h

namespace Lexemes

variable {place : Place} {text : List Char}

theorem opening : ∀ lexeme ∈ (ofChars place text).lexemes,
    lexeme.token.kind = .interpolatedString → ∃ s, lexeme.token.lexeme.toList = '$' :: '"' :: s :=
  forall_mem_ofChars (fun _ _ _ _ => exists_opening) place text

/-- The lexemes of a text lie where the text does. -/
theorem liesIn (h : R.Covers place text) :
    ∀ lexeme ∈ (ofChars place text).lexemes, lexeme.LiesIn R := by
  induction place, text using cut_induction with
  | blank place skipped htrivia => simp [lexemes_of_nil htrivia]
  | token place skipped c rest htrivia ih =>
    have htoken := standsIn_scanToken h.right
    rw [← append_scanToken (place.after skipped) c rest] at h
    rw [lexemes_of_cons htrivia]
    exact List.forall_mem_cons.2 ⟨⟨⟨htoken.token, htoken.errors⟩, exists_opening⟩, ih h.right.right⟩

end Lexemes

end TypedTemplate
