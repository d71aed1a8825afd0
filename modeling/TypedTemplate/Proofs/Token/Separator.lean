-- SUMMARY: No token extends over a line feed, whatever stands before it.
import TypedTemplate.Proofs.Token.Cut

/-!
# Separators

Words, numbers and marks end before any character that none of them can contain. A
line feed ends strings and comments too. So what follows a line feed is cut the same
whatever stands before it.
-/

namespace TypedTemplate

/-- A character that no word, number or mark goes on with. -/
structure Separates (d : Char) : Prop where
  word : isWordChar d = false
  sign : d ≠ '+' ∧ d ≠ '-' ∧ d ≠ '.'
  mark : ∀ c, pairMark c d = none

/-- Of the text `before` the separator `d` an end is left, and all that follows. -/
def Leaves (d : Char) (after before rest : List Char) : Prop :=
  ∃ left : List Char, left <:+ before ∧ rest = left ++ d :: after

namespace Leaves

variable {d : Char} {after : List Char}

theorem self (before : List Char) : Leaves d after before (before ++ d :: after) :=
  ⟨before, List.suffix_refl _, rfl⟩

theorem mono {before before' rest : List Char} (h : Leaves d after before rest)
    (hsuffix : before <:+ before') : Leaves d after before' rest := by
  obtain ⟨left, hleft, hrest⟩ := h
  exact ⟨left, hleft.trans hsuffix, hrest⟩

theorem cons {before rest : List Char} (c : Char) (h : Leaves d after before rest) :
    Leaves d after (c :: before) rest :=
  h.mono (List.suffix_cons c before)

theorem trans {f : List Char → List Char} {before rest : List Char}
    (hf : ∀ before : List Char, Leaves d after before (f (before ++ d :: after)))
    (h : Leaves d after before rest) : Leaves d after before (f rest) := by
  obtain ⟨left, hleft, rfl⟩ := h
  exact (hf left).mono hleft

end Leaves

/-! ## Words, numbers and marks -/

theorem isDigit_of_not_wordChar {d : Char} (h : isWordChar d = false) : d.isDigit = false := by
  simp only [isWordChar, Char.isAlphanum, Bool.or_eq_false_iff] at h
  exact h.1.2

theorem isWordStart_of_not_wordChar {d : Char} (h : isWordChar d = false) :
    isWordStart d = false := by
  cases hd : isWordStart d with
  | false => rfl
  | true => simp [isWordChar_of_isWordStart hd] at h

section

variable {d : Char} (after : List Char)

theorem leaves_splitWhile {p : Char → Bool} (hp : p d = false) (before : List Char) :
    Leaves d after before (splitWhile p (before ++ d :: after)).2 := by
  refine ⟨before.dropWhile p, List.dropWhile_suffix p, ?_⟩
  rw [splitWhile, List.dropWhile_append]
  split
  · simp_all
  · rfl

theorem scanFraction_of_ne {cs : List Char} (h : ∀ c ∈ cs.head?, c ≠ '.') :
    scanFraction cs = ([], cs) := by
  unfold scanFraction
  split
  · simp at h
  · rfl

theorem leaves_scanFraction (hd : Separates d) (before : List Char) :
    Leaves d after before (scanFraction (before ++ d :: after)).2 := by
  have hdigit := isDigit_of_not_wordChar hd.word
  match before with
  | [] =>
    rw [scanFraction_of_ne (by simpa using hd.sign.2.2)]
    exact .self []
  | c :: before =>
    by_cases hc : c = '.'
    · subst hc
      match before with
      | [] =>
        rw [show scanFraction (['.'] ++ d :: after) = ([], ['.'] ++ d :: after) by
          simp [scanFraction, hdigit]]
        exact .self ['.']
      | x :: before =>
        simp only [List.cons_append, scanFraction]
        split
        · exact (leaves_splitWhile after hdigit (x :: before)).cons '.'
        · exact .self ('.' :: x :: before)
    · rw [scanFraction_of_ne (by simpa using hc)]
      exact .self (c :: before)

theorem leaves_scanSign (hd : Separates d) (before : List Char) :
    Leaves d after before (scanSign (before ++ d :: after)).2 := by
  match before with
  | [] =>
    unfold scanSign
    split
    · exact absurd (by simp_all) hd.sign.1
    · exact absurd (by simp_all) hd.sign.2.1
    · exact .self []
  | c :: before =>
    have htail : Leaves d after (c :: before) (before ++ d :: after) := (Leaves.self before).cons c
    unfold scanSign
    split
    · rename_i heq
      rwa [← (List.cons.inj heq).2]
    · rename_i heq
      rwa [← (List.cons.inj heq).2]
    · exact .self (c :: before)

theorem leaves_endNumber (hd : Separates d) (taken : List Char) (kind : TokenKind)
    (before : List Char) :
    Leaves d after before (endNumber taken kind (before ++ d :: after)).rest := by
  match before with
  | [] =>
    simp only [List.nil_append, endNumber, isWordStart_of_not_wordChar hd.word]
    exact .self []
  | c :: before =>
    simp only [List.cons_append, endNumber]
    split
    · exact leaves_splitWhile after hd.word (c :: before)
    · exact .self (c :: before)

theorem leaves_scanExponent (hd : Separates d) (taken : List Char) (kind : TokenKind)
    (before : List Char) :
    Leaves d after before (scanExponent taken kind (before ++ d :: after)).rest := by
  have hdigit := isDigit_of_not_wordChar hd.word
  match before with
  | [] =>
    have hexponent : (d == 'e' || d == 'E') = false := by
      have hword := hd.word
      refine Bool.eq_false_iff.2 fun h => ?_
      rcases Bool.or_eq_true_iff.1 h with h | h <;> rw [beq_iff_eq.1 h] at hword <;>
        exact absurd hword (by decide)
    simp only [List.nil_append, scanExponent, hexponent]
    exact leaves_endNumber after hd taken kind []
  | c :: before =>
    simp only [List.cons_append, scanExponent]
    split
    · have hsign := leaves_scanSign after hd before
      have hdigits : Leaves d after before
          (splitWhile Char.isDigit (scanSign (before ++ d :: after)).2).2 :=
        hsign.trans (f := fun cs => (splitWhile Char.isDigit cs).2) (leaves_splitWhile after hdigit)
      obtain ⟨before', hle, heq⟩ := hdigits
      simp only [heq]
      split
      · exact ((Leaves.self before').mono hle).cons c
      · exact ((leaves_endNumber after hd _ _ before').mono hle).cons c
    · exact leaves_endNumber after hd taken kind (c :: before)

theorem leaves_scanNumber (hd : Separates d) {c : Char} (hc : c.isDigit = true)
    (before : List Char) :
    Leaves d after before (scanNumber (c :: (before ++ d :: after))).rest := by
  have hdigit := isDigit_of_not_wordChar hd.word
  have hwhole : Leaves d after before
      (splitWhile Char.isDigit (c :: (before ++ d :: after))).2 := by
    have h := leaves_splitWhile after hdigit before
    simpa [splitWhile, hc] using h
  obtain ⟨before₁, hle₁, h₁⟩ := hwhole
  obtain ⟨before₂, hle₂, h₂⟩ := leaves_scanFraction after hd before₁
  unfold scanNumber
  simp only [h₁, h₂]
  exact (leaves_scanExponent after hd _ _ before₂).mono (hle₂.trans hle₁)

theorem leaves_scanMark (hd : Separates d) (start : Place) (c : Char) (before : List Char) :
    Leaves d after before (scanMark start c (before ++ d :: after)).rest := by
  match before with
  | [] =>
    simp only [List.nil_append, scanMark, hd.mark c]
    cases singleMark c <;> exact .self []
  | x :: before =>
    simp only [List.cons_append, scanMark]
    cases pairMark c x with
    | some kind => exact (Leaves.self before).cons x
    | none => cases singleMark c <;> exact .self (x :: before)

theorem leaves_scanPlain (hd : Separates d) (start : Place) (c : Char) (before : List Char) :
    Leaves d after before
      (if c.isDigit then (scanNumber (c :: (before ++ d :: after))).toScan start
        else if isWordStart c then
          let (word, rest) := splitWhile isWordChar (c :: (before ++ d :: after))
          .valid start (.ofWord word) word rest
        else scanMark start c (before ++ d :: after)).rest := by
  split
  · rename_i hc
    rw [NumberScan.rest_toScan]
    exact leaves_scanNumber after hd hc before
  split
  · rename_i hc
    have hw := isWordChar_of_isWordStart hc
    have h := leaves_splitWhile after hd.word before
    simpa [Scan.valid, splitWhile, hw] using h
  · exact leaves_scanMark after hd start c before

end

/-! ## Line feeds -/

theorem separates_newline : Separates '\n' where
  word := by decide
  sign := by decide
  mark := by
    intro c
    unfold pairMark
    split <;> simp_all

theorem stringMove_newline (mode : StringMode) (place : Place) (next : Option Char) :
    stringMove mode place '\n' next = .stop := by
  simp [stringMove, isLineEnd]

theorem escapeMove_two {mode mode' : StringMode} {place : Place} {d : Char}
    {error : Option LexError} (h : escapeMove mode place (some d) = .two mode' error) :
    isLineEnd d = false := by
  simp only [escapeMove] at h
  cases hd : isLineEnd d with
  | false => rfl
  | true => simp [hd] at h

/-- A character is taken together with the next one only if that does not end the line. -/
theorem stringMove_two {mode mode' : StringMode} {place : Place} {c d : Char}
    {error : Option LexError} (h : stringMove mode place c (some d) = .two mode' error) :
    isLineEnd d = false := by
  unfold stringMove at h
  split at h
  · cases h
  cases mode with
  | plain =>
    simp only at h
    split at h
    · exact escapeMove_two h
    · split at h <;> cases h
  | text =>
    simp only at h
    split at h
    · exact escapeMove_two h
    split at h
    · cases h
    split at h
    · split at h
      · rename_i hbrace
        obtain rfl : d = '{' := by simpa using hbrace
        decide
      · cases h
    · split at h
      · split at h
        · rename_i hbrace
          obtain rfl : d = '}' := by simpa using hbrace
          decide
        · cases h
      · cases h
  | hole opening =>
    simp only at h
    split at h
    · cases h
    · split at h <;> cases h
  | nested opening =>
    simp only at h
    split at h
    · exact escapeMove_two h
    · split at h <;> cases h

/-- A string ends before a line feed. -/
theorem leaves_scanString (after : List Char) (mode : StringMode) (place : Place)
    (taken : List Char) (errors : List LexError) (before : List Char) :
    Leaves '\n' after before
      (scanString mode place taken errors (before ++ '\n' :: after)).rest := by
  match before with
  | [] =>
    rw [List.nil_append, scanString, stringMove_newline]
    exact .self []
  | c :: before =>
    rw [List.cons_append, scanString]
    cases hmove : stringMove mode place c (before ++ '\n' :: after).head? with
    | stop => exact .self (c :: before)
    | close => exact (Leaves.self before).cons c
    | one mode' error => exact (leaves_scanString after _ _ _ _ before).cons c
    | two mode' error =>
      match before with
      | [] => exact absurd (stringMove_two hmove) (by decide)
      | d :: before => exact ((leaves_scanString after _ _ _ _ before).cons d).cons c
termination_by before.length

/-- Every token ends before a line feed. -/
theorem leaves_scanToken_newline (after : List Char) (start : Place) (c : Char)
    (before : List Char) :
    Leaves '\n' after before (scanToken start c (before ++ '\n' :: after)).rest := by
  by_cases hquote : c = '"'
  · simp only [scanToken, hquote, beq_self_eq_true, if_true, rest_toScan]
    exact leaves_scanString after _ _ _ _ before
  by_cases hdollar : c = '$' ∧ (before ++ '\n' :: after).head? = some '"'
  · obtain ⟨rfl, hhead⟩ := hdollar
    cases before with
    | nil => simp at hhead
    | cons x before =>
      rw [scanToken, if_neg (by decide), if_pos (by simpa using hhead), rest_toScan]
      exact (leaves_scanString after _ _ _ _ before).cons x
  · have hstring : (c == '"') = false ∧
        (c == '$' && (before ++ '\n' :: after).head? == some '"') = false := by
      refine ⟨by simpa using hquote, Bool.eq_false_iff.2 fun h => hdollar ?_⟩
      simpa using h
    simp only [scanToken, hstring]
    exact leaves_scanPlain after separates_newline start c before

/-- Of `n` characters before a line feed trivia were skipped: up to a token before the line feed, or
up to the line feed and on as from there. -/
def SkipsTo (after : List Char) (n : Nat) (outcome : List Char × List Char) : Prop :=
  (∃ skipped c before, List.length before < n ∧
    outcome = (skipped, c :: (before ++ '\n' :: after))) ∨
  ∃ skipped, outcome = (skipped ++ (skipTrivia false [] ('\n' :: after)).1,
    (skipTrivia false [] ('\n' :: after)).2)

theorem SkipsTo.onto {after : List Char} {n m : Nat} {comment : Bool} {cs : List Char}
    (skipped : List Char) (h : SkipsTo after n (skipTrivia comment [] cs)) (hle : n ≤ m) :
    SkipsTo after m (skipTrivia comment skipped cs) := by
  rw [skipTrivia_onto]
  rcases h with ⟨skipped', c, before, hlt, heq⟩ | ⟨skipped', heq⟩
  · exact .inl ⟨skipped.reverse ++ skipped', c, before, Nat.lt_of_lt_of_le hlt hle, by rw [heq]⟩
  · exact .inr ⟨skipped.reverse ++ skipped', by rw [heq, List.append_assoc]⟩

theorem skipTrivia_newline (after : List Char) (comment : Bool) (before : List Char) :
    SkipsTo after before.length (skipTrivia comment [] (before ++ '\n' :: after)) := by
  match before with
  | [] =>
    refine .inr ⟨[], ?_⟩
    rw [List.nil_append, List.nil_append, skipTrivia.eq_def comment, skipTrivia.eq_def false]
    simp
  | c :: before =>
    rw [List.cons_append, skipTrivia.eq_def]
    simp only
    split
    · exact (skipTrivia_newline after true before).onto _ (Nat.le_succ _)
    split
    · exact (skipTrivia_newline after false before).onto _ (Nat.le_succ _)
    split
    · rename_i rest' heq _ _
      match before with
      | [] => simp at heq
      | x :: before =>
        obtain ⟨-, rfl⟩ : x = '/' ∧ before ++ '\n' :: after = rest' := by simpa using heq
        exact (skipTrivia_newline after true before).onto _ (by simp; omega)
    · exact .inl ⟨[], _, before, Nat.lt_succ_self _, rfl⟩
termination_by before.length

/-- What follows a line feed is cut the same whatever stands before it. -/
theorem exists_forms_newline (before after : List Char) (place : Place) :
    ∃ fs place', formsOf (Lexemes.ofChars place (before ++ '\n' :: after)).lexemes =
      fs ++ formsOf (Lexemes.ofChars place' ('\n' :: after)).lexemes := by
  rcases skipTrivia_newline after false before with ⟨skipped, c, before', hlt, htrivia⟩ |
    ⟨skipped, htrivia⟩
  · obtain ⟨before'', hsuffix, hrest⟩ :=
      leaves_scanToken_newline after (place.after skipped) c before'
    have hle := hsuffix.length_le
    obtain ⟨fs, place', hfs⟩ := exists_forms_newline before'' after
      ((place.after skipped).after
        (scanToken (place.after skipped) c (before' ++ '\n' :: after)).lexeme.stretch)
    refine ⟨(scanToken (place.after skipped) c (before' ++ '\n' :: after)).lexeme.token.form :: fs,
      place', ?_⟩
    rw [Lexemes.lexemes_of_cons htrivia]
    simp only [formsOf, List.map_cons, hrest, List.cons_append]
    exact congrArg _ hfs
  · obtain ⟨place', h⟩ := (Cuts.of_skipTrivia skipped htrivia rfl).exists_formsOf place
    exact ⟨[], place', h⟩
termination_by before.length

end TypedTemplate
