-- SUMMARY: How the spelling of a model type is cut into tokens.
import TypedTemplate.Name.Spelling
import TypedTemplate.Proofs.Grammar.Brackets
import TypedTemplate.Proofs.Token.Separator

/-!
# Type names as tokens

The spelling of a model type is pasted into a unit between a colon and a closing
parenthesis. Whatever the type is called, the parenthesis ends it, and none of its
commas can be taken for the end of a parameter.
-/

namespace TypedTemplate

open Spelling

theorem isNameChar_cases {c : Char} (h : isNameChar c = true) :
    isWordChar c = true ∨ c = ':' ∨ c = '<' ∨ c = '>' ∨ c = ',' := by
  simp only [isNameChar, Bool.or_eq_true, beq_iff_eq] at h
  rcases h with (((h | h) | h) | h) | h
  · exact .inl h
  · exact .inr (.inl h)
  · exact .inr (.inr (.inl h))
  · exact .inr (.inr (.inr (.inl h)))
  · exact .inr (.inr (.inr (.inr h)))

/-- A character of a word leaves the brackets as they are. -/
theorem isPathFrom_word {depth : Nat} {fresh : Bool} {c : Char} {cs : List Char}
    (hc : isWordChar c = true) (h : isPathFrom depth fresh (c :: cs) = true) :
    isPathFrom depth false cs = true := by
  rw [isPathFrom.eq_def] at h
  split at h <;> simp_all [isWordChar]

/-- A colon has another one behind it. -/
theorem isPathFrom_colon {depth : Nat} {fresh : Bool} {d : Char} {cs : List Char} (hd : d ≠ ':') :
    isPathFrom depth fresh (':' :: d :: cs) = false := by
  rw [isPathFrom.eq_def]
  split <;> grind

theorem isPathFrom_dropWhile {depth : Nat} {cs : List Char}
    (h : isPathFrom depth false cs = true) :
    isPathFrom depth false (cs.dropWhile isWordChar) = true := by
  induction cs with
  | nil => exact h
  | cons c cs ih =>
    rw [List.dropWhile_cons]
    split
    · exact ih (isPathFrom_word ‹_› h)
    · exact h

theorem separates_rightParen : Separates ')' where
  word := by decide
  sign := by decide
  mark := by
    intro c
    unfold pairMark
    split <;> simp_all

/-- Before a closing parenthesis the text `cs` has tokens of its own, none of which closes one. They
nest as the brackets of the text do. -/
def TypeForms (after cs : List Char) : Prop :=
  ∃ fs, Cuts (cs ++ ')' :: after) fs (')' :: after) ∧ (∀ f ∈ fs, f.kind ≠ .rightParen) ∧
    ∀ depth fresh, isPathFrom depth fresh cs = true → CommasNested depth (fs.map (·.kind))

theorem TypeForms.cons {after cs cs' : List Char} {f : Form}
    (hcut : Cuts (cs ++ ')' :: after) [f] (cs' ++ ')' :: after)) (hkind : f.kind ≠ .rightParen)
    (hpath : ∀ depth fresh, isPathFrom depth fresh cs = true → (f.kind = .comma → depth ≠ 0) ∧
      ∀ d, nestStep depth f.kind = some d → ∃ fresh', isPathFrom d fresh' cs' = true)
    (h : TypeForms after cs') : TypeForms after cs := by
  obtain ⟨fs, hfs, hkinds, hnested⟩ := h
  refine ⟨f :: fs, hcut.trans hfs, ?_, ?_⟩
  · intro f' hf'
    rcases List.mem_cons.1 hf' with rfl | hf'
    · exact hkind
    · exact hkinds f' hf'
  · intro depth fresh h
    obtain ⟨hcomma, hstep⟩ := hpath depth fresh h
    refine ⟨hcomma, ?_⟩
    intro d hd
    obtain ⟨fresh', h'⟩ := hstep d hd
    exact hnested d fresh' h'

theorem TokenKind.nestStep_ofWord {depth d : Nat} {cs : List Char}
    (h : nestStep depth (ofWord cs) = some d) : d = depth := by
  rcases ofWord_eq cs with hword | hword
  · rw [hword] at h
    exact (Option.some.inj h).symm
  · exfalso
    simp only [keywords, List.mem_cons, Prod.mk.injEq, List.not_mem_nil, or_false] at hword
    rcases hword with h' | h' | h' | h' | h' | h' | h' | h' | h' <;> simp [h'.2, nestStep] at h

theorem TokenKind.ofWord_ne {kind : TokenKind} (cs : List Char) (hne : kind ≠ .identifier)
    (hkind : ∀ w ∈ keywords, w.2 ≠ kind) : ofWord cs ≠ kind := by
  rcases ofWord_eq cs with h | h
  · rw [h]
    exact hne.symm
  · exact hkind _ h

/-- A number stands in no type. -/
theorem NumberScan.form_toScan {n : NumberScan} (h : ∀ kind, n.kind = .ok kind →
    kind = .intLiteral ∨ kind = .floatLiteral) :
    ∃ f : Form, f.kind ≠ .rightParen ∧ f.kind ≠ .comma ∧ (∀ d, nestStep d f.kind = none) ∧
      ∀ place, (n.toScan place).lexeme.token.form = f := by
  unfold toScan
  cases hkind : n.kind with
  | error detail => exact ⟨⟨.invalid, ""⟩, by decide, by decide, fun _ => rfl, fun _ => rfl⟩
  | ok kind =>
    refine ⟨⟨kind, String.ofList n.taken⟩, ?_, ?_, ?_, fun _ => rfl⟩
    all_goals rcases h kind hkind with rfl | rfl <;> simp [nestStep]

theorem scanToken_digit {c : Char} (cs : List Char) (hc : c.isDigit = true) (place : Place) :
    scanToken place c cs = (scanNumber (c :: cs)).toScan place := by
  have hword : isWordChar c = true := by simp [isWordChar, Char.isAlphanum, hc]
  have hopens := opens_of_isWordChar hword
  simp [scanToken, hopens.2.1, hopens.2.2, hc]

/-- Before a closing parenthesis, the tokens of a type name. -/
theorem typeForms (after cs : List Char) (hcs : ∀ c ∈ cs, isNameChar c = true) :
    TypeForms after cs := by
  cases cs with
  | nil => exact ⟨[], .refl _, by simp, by simp [CommasNested]⟩
  | cons c cs =>
    have htail : ∀ x ∈ cs, isNameChar x = true := fun x hx => hcs x (List.mem_cons_of_mem c hx)
    have hsuffix : ∀ cs', cs' <:+ cs → ∀ x ∈ cs', isNameChar x = true :=
      fun cs' h x hx => htail x (h.subset hx)
    rcases isNameChar_cases (hcs c List.mem_cons_self) with hword | rfl | rfl | rfl | rfl
    · by_cases hstart : isWordStart c = true
      · have hdrop := List.dropWhile_suffix (l := cs) isWordChar
        have hlt := hdrop.length_le
        have ih := typeForms after _ (hsuffix _ hdrop)
        have hcut : Cuts (c :: cs ++ ')' :: after)
            [⟨.ofWord (c :: cs.takeWhile isWordChar), String.ofList (c :: cs.takeWhile isWordChar)⟩]
            (cs.dropWhile isWordChar ++ ')' :: after) :=
          Cuts.startsWord hstart fun _ => by simp [separates_rightParen.word]
        refine ih.cons hcut (TokenKind.ofWord_ne _ (by decide) (by decide)) ?_
        intro depth fresh h
        refine ⟨fun hcomma => absurd hcomma (TokenKind.ofWord_ne _ (by decide) (by decide)), ?_⟩
        intro d hd
        rw [TokenKind.nestStep_ofWord hd]
        exact ⟨false, isPathFrom_dropWhile (isPathFrom_word hword h)⟩
      · have hdigit : c.isDigit = true := by
          simp only [isWordChar, isWordStart, Char.isAlphanum, Bool.or_eq_true] at hword hstart
          grind
        obtain ⟨left, hleft, hrest⟩ := leaves_scanNumber after separates_rightParen hdigit cs
        have hlt := hleft.length_le
        have ih := typeForms after left (hsuffix left hleft)
        obtain ⟨f, hparen, hcomma, hnone, hform⟩ :=
          NumberScan.form_toScan (n := scanNumber (c :: (cs ++ ')' :: after)))
            fun _ => scanNumber_kind
        refine ih.cons (Cuts.scan (f := f) (opens_of_isWordChar hword).1 ?_) hparen ?_
        · intro place
          rw [scanToken_digit _ hdigit, NumberScan.rest_toScan]
          exact ⟨hrest, hform place⟩
        · intro depth fresh h
          refine ⟨fun h => absurd h hcomma, ?_⟩
          intro d hd
          rw [hnone] at hd
          cases hd
    · cases cs with
      | nil =>
        refine (typeForms after [] (by simp)).cons (Cuts.mark rfl (by simp [pairMark])) (by decide) ?_
        intro depth fresh h
        simp [isPathFrom] at h
      | cons x cs =>
        by_cases hx : x = ':'
        · subst hx
          have ih := typeForms after cs fun x hx => htail x (List.mem_cons_of_mem _ hx)
          refine ih.cons (Cuts.pair rfl) (by decide) ?_
          intro depth fresh h
          refine ⟨by simp, ?_⟩
          rintro d ⟨⟩
          simp only [isPathFrom, Bool.and_eq_true] at h
          exact ⟨true, h.2⟩
        · have ih := typeForms after (x :: cs) htail
          have hpair : pairMark ':' x = none := by
            unfold pairMark
            split <;> simp_all
          refine ih.cons (Cuts.mark rfl (by simpa using hpair)) (by decide) ?_
          intro depth fresh h
          rw [isPathFrom_colon hx] at h
          cases h
    · have ih := typeForms after cs htail
      refine ih.cons (Cuts.mark rfl (by simp [pairMark])) (by decide) ?_
      intro depth fresh h
      simp only [isPathFrom, Bool.and_eq_true] at h
      refine ⟨by simp, ?_⟩
      rintro d ⟨⟩
      exact ⟨true, h.2⟩
    · have ih := typeForms after cs htail
      refine ih.cons (Cuts.mark rfl (by simp [pairMark])) (by decide) ?_
      intro depth fresh h
      simp only [isPathFrom, Bool.and_eq_true, bne_iff_ne] at h
      refine ⟨by simp, ?_⟩
      intro d hd
      simp only [nestStep, h.1.1, if_false, Option.some.injEq] at hd
      exact ⟨false, hd ▸ h.2⟩
    · have ih := typeForms after cs htail
      refine ih.cons (Cuts.mark rfl (by simp [pairMark])) (by decide) ?_
      intro depth fresh h
      simp only [isPathFrom, Bool.and_eq_true, bne_iff_ne] at h
      refine ⟨fun _ => h.1.1, ?_⟩
      intro d hd
      simp only [nestStep, h.1.1, if_false, Option.some.injEq] at hd
      exact ⟨true, hd ▸ h.2⟩
termination_by cs.length
decreasing_by all_goals subst_vars; simp only [List.length_cons]; omega

end TypedTemplate
