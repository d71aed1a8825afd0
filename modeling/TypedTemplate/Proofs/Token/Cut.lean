-- SUMMARY: How the start of a text is cut, whatever place it stands at and whatever follows.
import TypedTemplate.Proofs.Token.Lexeme

/-!
# Cuts

Where a token stands in the unit matters only for reports, so tokens are compared by
kind and text. A text cuts into some tokens before a rest of it, when it has these
tokens and those of the rest, at whatever place it stands. Cuts of the parts of a text
make up the cut of the whole, so each form of token needs one lemma.
-/

namespace TypedTemplate

/-! ## Characters -/

/-- A property of the characters of a list is decided on the list, where deciding a property of all
characters would try each of them. -/
instance decidableForallChars {P : Char → Prop} [DecidablePred P] (cs : List Char) :
    Decidable (∀ c ∈ cs, P c) :=
  List.decidableBAll P cs

theorem forall_ascii {P : Char → Prop} (h : ∀ n < 128, P (Char.ofNat n)) {c : Char}
    (hc : c.toNat < 128) : P c := by
  have hchar := h _ hc
  rwa [Char.ofNat_toNat] at hchar

theorem lt_of_isWordChar {c : Char} (h : isWordChar c = true) : c.toNat < 128 := by
  have hword : isWordChar c = (decide (c.val ≥ 65 ∧ c.val ≤ 90) ||
      decide (c.val ≥ 97) && decide (c.val ≤ 122) || decide (c.val ≥ 48) && decide (c.val ≤ 57) ||
      c == '_') := rfl
  simp only [hword, Bool.or_eq_true, Bool.and_eq_true, decide_eq_true_eq, beq_iff_eq, ge_iff_le,
    UInt32.le_iff_toNat_le] at h
  have hnat : c.toNat = c.val.toNat := rfl
  rcases h with ((⟨-, h⟩ | ⟨-, h⟩) | ⟨-, h⟩) | rfl
  · exact Nat.lt_of_le_of_lt h (by decide)
  · exact Nat.lt_of_le_of_lt h (by decide)
  · exact Nat.lt_of_le_of_lt h (by decide)
  · decide

/-- A character that starts no trivia. -/
def Counts (c : Char) : Prop := isSpace c = false ∧ c ≠ '/'

/-- A character that starts no trivia and no string. -/
def Opens (c : Char) : Prop := Counts c ∧ c ≠ '"' ∧ c ≠ '$'

instance (c : Char) : Decidable (Counts c) := by unfold Counts; infer_instance

instance (c : Char) : Decidable (Opens c) := by unfold Opens; infer_instance

theorem opens_of_isWordChar {c : Char} (h : isWordChar c = true) : Opens c := by
  have hascii : isWordChar c = true → Opens c :=
    forall_ascii (P := fun c => isWordChar c = true → Opens c) (by decide)
      (lt_of_isWordChar h)
  exact hascii h

theorem isWordChar_of_isWordStart {c : Char} (h : isWordStart c = true) : isWordChar c = true := by
  simp only [isWordStart, isWordChar, Char.isAlphanum, Bool.or_eq_true] at h ⊢
  grind

/-- What satisfies the condition is split off up to where it ends. -/
theorem splitWhile_append {p : Char → Bool} {w rest : List Char} (hw : ∀ x ∈ w, p x = true)
    (hrest : ∀ x ∈ rest.head?, p x = false) : splitWhile p (w ++ rest) = (w, rest) := by
  have htake : rest.takeWhile p = [] := by cases rest <;> simp_all
  have hdrop : rest.dropWhile p = rest := by cases rest <;> simp_all
  simp only [splitWhile, List.takeWhile_append_of_pos hw, List.dropWhile_append_of_pos hw, htake,
    hdrop, List.append_nil]

/-- Behind what is split off comes nothing that satisfies the condition. -/
theorem head_dropWhile (p : Char → Bool) (cs : List Char) :
    ∀ c ∈ (cs.dropWhile p).head?, p c = false := by
  have hhead := List.head?_dropWhile_not p cs
  cases hdrop : cs.dropWhile p with
  | nil => simp
  | cons c cs =>
    rw [hdrop] at hhead
    simpa using hhead

theorem isDigit_of_isWordStart {c : Char} (h : isWordStart c = true) : c.isDigit = false := by
  have hascii : isWordStart c = true → c.isDigit = false :=
    forall_ascii (P := fun c => isWordStart c = true → c.isDigit = false) (by decide)
      (lt_of_isWordChar (isWordChar_of_isWordStart h))
  exact hascii h

/-- A character that starts neither a number nor a word. -/
def Marks (c : Char) : Prop := Opens c ∧ c.isDigit = false ∧ isWordStart c = false

instance (c : Char) : Decidable (Marks c) := by unfold Marks; infer_instance

theorem marks_of_singleMark {c : Char} {kind : TokenKind} (h : singleMark c = some kind) :
    Marks c := by
  unfold singleMark at h
  split at h <;> first | decide | cases h

theorem marks_of_pairMark {c d : Char} {kind : TokenKind} (h : pairMark c d = some kind) :
    Marks c := by
  unfold pairMark at h
  split at h <;> first | decide | cases h

/-! ## Trivia -/

theorem skipTrivia_onto (comment : Bool) (skipped cs : List Char) :
    skipTrivia comment skipped cs =
      (skipped.reverse ++ (skipTrivia comment [] cs).1, (skipTrivia comment [] cs).2) := by
  cases cs with
  | nil => simp [skipTrivia]
  | cons c rest =>
    rw [skipTrivia.eq_def comment skipped, skipTrivia.eq_def comment []]
    simp only
    split
    · rw [skipTrivia_onto true (c :: skipped), skipTrivia_onto true [c]]
      simp
    split
    · rw [skipTrivia_onto false (c :: skipped), skipTrivia_onto false [c]]
      simp
    split
    · rename_i rest'
      rw [skipTrivia_onto true ('/' :: '/' :: skipped), skipTrivia_onto true ['/', '/']]
      simp
    · simp
termination_by cs.length

theorem skipTrivia_space {c : Char} (cs : List Char) (h : isSpace c = true) :
    skipTrivia false [] (c :: cs) = (c :: (skipTrivia false [] cs).1, (skipTrivia false [] cs).2) := by
  rw [skipTrivia.eq_def]
  simp only [h, Bool.false_and, Bool.false_eq_true, if_false, if_true]
  rw [skipTrivia_onto]
  rfl

theorem skipTrivia_token {c : Char} (cs : List Char) (h : Counts c) :
    skipTrivia false [] (c :: cs) = ([], c :: cs) := by
  obtain ⟨hspace, hslash⟩ := h
  rw [skipTrivia.eq_def]
  simp only [hspace, Bool.false_and, Bool.false_eq_true, if_false]
  split
  · simp_all
  · rfl

/-! ## Forms -/

/-- A token without its place. -/
structure Form where
  kind : TokenKind
  lexeme : String
deriving DecidableEq, Repr

/-- The token is neither faulty nor an interpolated string. -/
def Form.Plain (f : Form) : Prop := f.kind ≠ .invalid ∧ f.kind ≠ .interpolatedString

instance : DecidablePred Form.Plain := fun f => by unfold Form.Plain; infer_instance

def Token.form (token : Token) : Form := ⟨token.kind, token.lexeme⟩

/-- The tokens of lexemes without their places. -/
def formsOf (lexemes : List Lexeme) : List Form := lexemes.map (·.token.form)

/-- The tokens of a text that stands at `place`. -/
def tokensOf (place : Place) (cs : List Char) : List Token :=
  (Lexemes.ofChars place cs).lexemes.map (·.token)

theorem formsOf_ofChars (place : Place) (cs : List Char) :
    formsOf (Lexemes.ofChars place cs).lexemes = (tokensOf place cs).map Token.form := by
  rw [formsOf, tokensOf, List.map_map]
  rfl

/-- The text `cs` is cut into the tokens `fs` and then as its rest `rest` is where it stands. -/
def Cuts (cs : List Char) (fs : List Form) (rest : List Char) : Prop :=
  ∃ before, cs = before ++ rest ∧ ∀ place, ∃ ts : List Token,
    ts.map Token.form = fs ∧ tokensOf place cs = ts ++ tokensOf (place.after before) rest

namespace Cuts

variable {cs mid rest : List Char} {fs fs' : List Form} {c d : Char} {kind : TokenKind}

theorem refl (cs : List Char) : Cuts cs [] cs := ⟨[], rfl, fun _ => ⟨[], rfl, rfl⟩⟩

theorem trans (h : Cuts cs fs mid) (h' : Cuts mid fs' rest) : Cuts cs (fs ++ fs') rest := by
  obtain ⟨before, rfl, hcut⟩ := h
  obtain ⟨before', rfl, hcut'⟩ := h'
  refine ⟨before ++ before', (List.append_assoc ..).symm, fun place => ?_⟩
  obtain ⟨ts, rfl, hts⟩ := hcut place
  obtain ⟨ts', rfl, hts'⟩ := hcut' (place.after before)
  refine ⟨ts ++ ts', List.map_append, ?_⟩
  rw [hts, hts', Place.after_append, List.append_assoc]

theorem exists_formsOf (h : Cuts cs fs rest) (place : Place) :
    ∃ place', formsOf (Lexemes.ofChars place cs).lexemes =
      fs ++ formsOf (Lexemes.ofChars place' rest).lexemes := by
  obtain ⟨before, -, hcut⟩ := h
  obtain ⟨ts, rfl, hts⟩ := hcut place
  exact ⟨place.after before, by rw [formsOf_ofChars, formsOf_ofChars, hts, List.map_append]⟩

/-- A text that is cut to its end has no other tokens. -/
theorem forms_eq (h : Cuts cs fs []) (place : Place) :
    formsOf (Lexemes.ofChars place cs).lexemes = fs := by
  obtain ⟨place', h'⟩ := h.exists_formsOf place
  rw [h', Lexemes.lexemes_of_nil rfl]
  exact List.append_nil fs

/-- Two texts that differ in the trivia before their first token only are cut alike. -/
theorem of_skipTrivia (before : List Char) {skipped rest' : List Char}
    (hcs : skipTrivia false [] cs = (before ++ skipped, rest'))
    (hrest : skipTrivia false [] rest = (skipped, rest')) : Cuts cs [] rest := by
  have happend : before ++ skipped ++ rest' = cs := by
    simpa [hcs] using append_skipTrivia false [] cs
  have happend' : skipped ++ rest' = rest := by
    simpa [hrest] using append_skipTrivia false [] rest
  refine ⟨before, ?_, fun place => ⟨[], rfl, ?_⟩⟩
  · rw [← happend, ← happend', List.append_assoc]
  · unfold tokensOf
    cases rest' with
    | nil => rw [Lexemes.lexemes_of_nil hcs, Lexemes.lexemes_of_nil hrest]; rfl
    | cons c rest' =>
      rw [Lexemes.lexemes_of_cons hcs, Lexemes.lexemes_of_cons hrest, Place.after_append]
      rfl

/-- There are no faults in a text that is cut into tokens none of which is invalid. -/
theorem errors_eq_nil (h : Cuts cs fs []) (hfs : ∀ f ∈ fs, f.kind ≠ .invalid) (place : Place) :
    ∀ lexeme ∈ (Lexemes.ofChars place cs).lexemes, lexeme.errors = [] := by
  intro lexeme hlexeme
  refine Decidable.byContradiction fun herrors => ?_
  have hmem : lexeme.token.form ∈ fs := by
    rw [← h.forms_eq place]
    exact List.mem_map_of_mem hlexeme
  exact hfs _ hmem ((Lexemes.sound place cs lexeme hlexeme).2 herrors)

theorem space (h : isSpace c = true) : Cuts (c :: cs) [] cs := by
  exact of_skipTrivia [c] (skipTrivia_space cs h) rfl

/-- A text that starts with a token is cut as the scan of the token says. -/
theorem scan {f : Form} (hc : Counts c)
    (h : ∀ place, (scanToken place c cs).rest = rest ∧
      (scanToken place c cs).lexeme.token.form = f) : Cuts (c :: cs) [f] rest := by
  have happend (place : Place) : (scanToken place c cs).lexeme.stretch ++ rest = c :: cs := by
    rw [← (h place).1, append_scanToken]
  refine ⟨(scanToken .first c cs).lexeme.stretch, (happend .first).symm, fun place => ?_⟩
  obtain ⟨hrest, hform⟩ := h place
  have hstretch := List.append_cancel_right ((happend place).trans (happend .first).symm)
  refine ⟨[(scanToken place c cs).lexeme.token], congrArg ([·]) hform, ?_⟩
  rw [tokensOf, Lexemes.lexemes_of_cons (skipTrivia_token cs hc)]
  simp [tokensOf, hrest, hstretch]

theorem word {w : List Char} (hc : isWordStart c = true) (hw : ∀ x ∈ w, isWordChar x = true)
    (hrest : ∀ x ∈ rest.head?, isWordChar x = false) :
    Cuts (c :: (w ++ rest)) [⟨.ofWord (c :: w), String.ofList (c :: w)⟩] rest := by
  have hword := isWordChar_of_isWordStart hc
  have hopens := opens_of_isWordChar hword
  have hsplit : splitWhile isWordChar (c :: (w ++ rest)) = (c :: w, rest) :=
    splitWhile_append (List.forall_mem_cons.2 ⟨hword, hw⟩) hrest
  refine scan hopens.1 ?_
  intro place
  simp [scanToken, hopens.2.1, hopens.2.2, isDigit_of_isWordStart hc, hc, hsplit, Scan.valid,
    Token.form]

/-- A word ends with the text `cs` at the latest, if none goes on behind it. -/
theorem startsWord (hc : isWordStart c = true)
    (hrest : cs.dropWhile isWordChar = [] → ∀ x ∈ rest.head?, isWordChar x = false) :
    Cuts (c :: cs ++ rest)
      [⟨.ofWord (c :: cs.takeWhile isWordChar), String.ofList (c :: cs.takeWhile isWordChar)⟩]
      (cs.dropWhile isWordChar ++ rest) := by
  have hcs : c :: cs ++ rest =
      c :: (cs.takeWhile isWordChar ++ (cs.dropWhile isWordChar ++ rest)) := by
    rw [← List.append_assoc, List.takeWhile_append_dropWhile]
    rfl
  rw [hcs]
  refine word hc (fun x hx => List.all_eq_true.1 List.all_takeWhile x hx) ?_
  have hhead := head_dropWhile isWordChar cs
  cases hdrop : cs.dropWhile isWordChar with
  | nil => exact hrest hdrop
  | cons y ys =>
    rw [hdrop] at hhead
    exact hhead

theorem scanToken_mark (hc : Marks c) (place : Place) :
    scanToken place c cs = scanMark place c cs := by
  simp [scanToken, hc.1.2.1, hc.1.2.2, hc.2.1, hc.2.2]

theorem mark (h : singleMark c = some kind) (hpair : ∀ d ∈ cs.head?, pairMark c d = none) :
    Cuts (c :: cs) [⟨kind, String.ofList [c]⟩] cs := by
  have hc := marks_of_singleMark h
  refine scan hc.1.1 ?_
  intro place
  rw [scanToken_mark hc]
  cases cs with
  | nil => simp [scanMark, h, Scan.valid, Token.form]
  | cons d cs =>
    have hnone : pairMark c d = none := hpair d rfl
    simp [scanMark, h, hnone, Scan.valid, Token.form]

theorem pair (h : pairMark c d = some kind) :
    Cuts (c :: d :: cs) [⟨kind, String.ofList [c, d]⟩] cs := by
  have hc := marks_of_pairMark h
  refine scan hc.1.1 ?_
  intro place
  rw [scanToken_mark hc]
  simp [scanMark, h, Scan.valid, Token.form]

theorem skip (hc : isSpace c = true) (h : Cuts cs fs rest) : Cuts (c :: cs) fs rest :=
  (space hc).trans h

end Cuts

/-! ## Fixed texts -/

/-- The tokens of a text of words, marks and blanks, if none of them can go on behind the text. -/
def fixedForms : List Char → Option (List Form)
  | [] => some []
  | c :: cs =>
    if isSpace c then fixedForms cs
    else if isWordStart c then
      if (cs.dropWhile isWordChar).isEmpty then none
      else (fixedForms (cs.dropWhile isWordChar)).map
        (⟨.ofWord (c :: cs.takeWhile isWordChar), String.ofList (c :: cs.takeWhile isWordChar)⟩ :: ·)
    else
      match cs with
      | [] => none
      | d :: cs' =>
        match pairMark c d with
        | some kind => (fixedForms cs').map (⟨kind, String.ofList [c, d]⟩ :: ·)
        | none =>
          match singleMark c with
          | some kind => (fixedForms (d :: cs')).map (⟨kind, String.ofList [c]⟩ :: ·)
          | none => none
termination_by cs => cs.length
decreasing_by
  all_goals simp only [List.length_cons]
  all_goals first | omega | exact Nat.lt_succ_of_le (List.dropWhile_sublist isWordChar).length_le

/-- A fixed text is cut the same whatever follows. -/
theorem Cuts.fixed {cs : List Char} (fs : List Form) (h : fixedForms cs = some fs)
    (rest : List Char) : Cuts (cs ++ rest) fs rest := by
  fun_induction fixedForms cs generalizing fs with
  | case1 =>
    cases h
    exact .refl rest
  | case2 c cs hc ih => exact .skip hc (ih fs h)
  | case3 => cases h
  | case4 c cs hspace hstart hrest ih =>
    obtain ⟨fs, hfs, rfl⟩ := Option.map_eq_some_iff.1 h
    exact (Cuts.startsWord hstart fun hnil => absurd hnil (by simpa using hrest)).trans (ih fs hfs)
  | case5 => cases h
  | case6 c hspace hstart d cs kind hpair ih =>
    obtain ⟨fs, hfs, rfl⟩ := Option.map_eq_some_iff.1 h
    exact (Cuts.pair hpair).trans (ih fs hfs)
  | case7 c hspace hstart d cs hpair kind hmark ih =>
    obtain ⟨fs, hfs, rfl⟩ := Option.map_eq_some_iff.1 h
    exact (Cuts.mark hmark (by simpa using hpair)).trans (ih fs hfs)
  | case8 => cases h

/-- The word is an identifier of the unit language. -/
def IsIdentifier (x : String) : Prop :=
  (∃ c ∈ x.toList.head?, isWordStart c = true) ∧ (∀ c ∈ x.toList, isWordChar c = true) ∧
    TokenKind.ofWord x.toList = .identifier

/-- A name that starts like no keyword is none. -/
theorem isIdentifier_of_head {name : String} {c : Char} (hstart : name.toList.head? = some c)
    (hc : isWordStart c = true) (hkeyword : ∀ w ∈ TokenKind.keywords, w.1.head? ≠ some c)
    (hword : ∀ c ∈ name.toList, isWordChar c = true) : IsIdentifier name := by
  refine ⟨⟨c, hstart, hc⟩, hword, ?_⟩
  rcases TokenKind.ofWord_eq name.toList with hkind | hkind
  · exact hkind
  · exact absurd hstart (hkeyword _ hkind)

/-- An identifier is one token where the word ends. -/
theorem Cuts.identifier {x : String} (hx : IsIdentifier x) {rest : List Char}
    (hrest : ∀ c ∈ rest.head?, isWordChar c = false) :
    Cuts (x.toList ++ rest) [⟨.identifier, x⟩] rest := by
  obtain ⟨⟨c, hhead, hstart⟩, hword, hkind⟩ := hx
  cases hname : x.toList with
  | nil => simp [hname] at hhead
  | cons d cs =>
    obtain rfl : d = c := by simpa [hname] using hhead
    have htail : ∀ e ∈ cs, isWordChar e = true := fun e he => hword e (hname ▸ List.mem_cons_of_mem _ he)
    have hcut := Cuts.word hstart htail hrest
    rw [← hname, hkind, String.ofList_toList] at hcut
    exact hcut

end TypedTemplate
