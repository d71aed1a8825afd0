-- SUMMARY: What parsing a module yields when its text starts with a function whose tokens are known.
import TypedTemplate.Proofs.Grammar.Taken
import TypedTemplate.Proofs.Token.Cut

/-!
# Openings

The first tokens of a declaration settle its first parts, whatever comes later: its
name, and the name, parameters and result type of the first declaration inside it.
Parts that the tokens do not reach can be anything the parser takes.
-/

namespace TypedTemplate

variable {finish : Place} {given rest : List Lexeme} {f : Form} {fs : List Form}

theorem formsOf_eq_cons (h : formsOf given = f :: fs) :
    ∃ lexeme rest, given = lexeme :: rest ∧ lexeme.token.form = f ∧ formsOf rest = fs :=
  List.map_eq_cons_iff.1 h

theorem formsOf_kinds (lexemes : List Lexeme) :
    lexemes.map (·.token.kind) = (formsOf lexemes).map (·.kind) := by
  simp [formsOf, Token.form]

namespace Parse

variable {α : Type} {a : α} {as : List α} {kind : TokenKind} {token : Token} {x : Ident}

theorem ident_of_forms (h : ident.Yields finish given x rest) (hforms : formsOf given = f :: fs) :
    x.name = f.lexeme ∧ formsOf rest = fs := by
  obtain ⟨lexeme, rfl, -, rfl⟩ := yields_ident.1 h
  obtain ⟨rfl, hrest⟩ := List.cons.inj hforms
  exact ⟨rfl, hrest⟩

theorem expect_of_forms (hkind : kind ≠ .eof) (h : (expect kind).Yields finish given token rest)
    (hforms : formsOf given = f :: fs) : f.kind = kind ∧ formsOf rest = fs := by
  obtain ⟨lexeme, rfl, rfl, hlexeme⟩ := (yields_expect hkind).1 h
  obtain ⟨rfl, hrest⟩ := List.cons.inj hforms
  exact ⟨hlexeme, hrest⟩

/-- Where a first declaration is known to start, there is one. -/
theorem first_of_forms {more : TokenKind → Bool} {body : Token → Parse α}
    (h : Many more (declaration kind body) finish given as rest)
    (hforms : formsOf given = f :: fs) (hmore : more f.kind = true) :
    ∃ start given' a as' mid, as = a :: as' ∧ (body start).Yields finish given' a mid ∧
      formsOf given' = fs := by
  obtain ⟨lexeme, given, rfl, rfl, hgiven⟩ := formsOf_eq_cons hforms
  rcases many_cons_iff.1 h with ⟨hfalse, -⟩ | ⟨-, a, as', mid, rfl, hbody, -⟩
  · exact absurd (hmore.symm.trans hfalse) (by decide)
  · exact ⟨_, given, a, as', mid, rfl, (yields_declaration.1 hbody).2, hgiven⟩

end Parse

namespace Grammar

open Parse

variable {g : Grammar}

/-! ## Types -/

/-- The type that is a path without arguments. -/
structure IsPath (xs : List String) (t : TypeRef) : Prop where
  segments : t.path.segments.map (·.name) = xs
  args : t.args = []

/-- A name before a token that goes on no type. -/
theorem typeRef_of_forms {t : TypeRef} {f' : Form} (h : (typeRef finish given).Yields t rest)
    (hforms : formsOf given = f :: f' :: fs) (hcolons : f'.kind ≠ .colonColon)
    (hless : f'.kind ≠ .less) : IsPath [f.lexeme] t ∧ formsOf rest = f' :: fs := by
  rw [typeRef] at h
  split at h
  case isTrue => exact absurd h Reply.yields_fail
  case isFalse =>
    obtain ⟨p, mid, hle, hp, h⟩ := Reply.yields_andThen.1 h
    obtain ⟨x, mid', hx, hp⟩ := yields_bind.1 hp
    obtain ⟨hname, hmid'⟩ := ident_of_forms hx hforms
    obtain ⟨next, given', rfl, hnext, hgiven'⟩ := formsOf_eq_cons hmid'
    have hkind : next.token.kind = f'.kind := congrArg Form.kind hnext
    obtain ⟨xs, mid'', hxs, hp⟩ := yields_bind.1 hp
    have hxs : (segmentsOnto finish [x] (next :: given')).Yields xs mid'' := hxs
    rw [segmentsOnto.eq_def] at hxs
    simp only at hxs
    rw [if_neg (by rwa [hkind])] at hxs
    obtain ⟨rfl, rfl⟩ := Reply.yields_ok.1 hxs
    obtain ⟨rfl, rfl⟩ := yields_pure.1 hp
    simp only at h
    rw [if_neg (by rwa [hkind])] at h
    obtain ⟨rfl, rfl⟩ := Reply.yields_ok.1 h
    exact ⟨⟨by simp [TypeRef.path, hname], rfl⟩, hmid'⟩

/-! ## Parameters -/

/-- A type that starts with the tokens `fs` ends among them or right behind them, where a parenthesis
closes. -/
theorem nests_of_forms {fs' : List Form} {close : Form} {lexeme : Lexeme}
    (hclose : close.kind = .rightParen) (hforms : formsOf given = fs ++ close :: fs')
    (h : Nests 0 given (lexeme :: rest)) :
    (lexeme.token.form = close ∧ formsOf rest = fs') ∨
      ∃ fs₁ fs₂, fs = fs₁ ++ lexeme.token.form :: fs₂ ∧ nest 0 (fs₁.map (·.kind)) = some 0 := by
  obtain ⟨used, rfl, hused⟩ := h
  have hnest := hused 0 (Nat.le_refl 0)
  rw [formsOf_kinds] at hnest
  have happend : formsOf used ++ lexeme.token.form :: formsOf rest = fs ++ close :: fs' := by
    simpa [formsOf] using hforms
  rcases List.append_eq_append_iff.1 happend with ⟨more, hfs, hrest⟩ | ⟨more, hfs, hrest⟩
  · cases more with
    | nil =>
      obtain ⟨hform, hrest⟩ := List.cons.inj hrest
      exact .inl ⟨hform, hrest⟩
    | cons f more =>
      obtain ⟨rfl, -⟩ := List.cons.inj hrest
      exact .inr ⟨_, more, hfs, hnest⟩
  · cases more with
    | nil =>
      obtain ⟨hform, hrest⟩ := List.cons.inj hrest
      exact .inl ⟨hform.symm, hrest.symm⟩
    | cons f more =>
      obtain ⟨rfl, -⟩ := List.cons.inj hrest
      have hmem := mem_typeMarks hnest .rightParen (by simp [hfs, hclose])
      exact absurd hmem (by decide)

/-- A parameter whose type is known up to the closing parenthesis is the only one. -/
theorem params_of_forms {ps : List Param} {x colon close : Form} {fs' : List Form} {token : Token}
    {rest' : List Lexeme} (hx : x.kind ≠ .rightParen) (hclose : close.kind = .rightParen)
    (hparen : ∀ f ∈ fs, f.kind ≠ .rightParen) (hnested : CommasNested 0 (fs.map (·.kind)))
    (hforms : formsOf given = x :: colon :: (fs ++ close :: fs'))
    (h : params.Yields finish given ps rest)
    (hend : (expect .rightParen).Yields finish rest token rest') :
    (∃ p, ps = [p]) ∧ formsOf rest' = fs' := by
  obtain ⟨closing, rfl, rfl, hclosing⟩ := (yields_expect (by decide)).1 hend
  obtain ⟨first, given, rfl, rfl, hgiven⟩ := formsOf_eq_cons hforms
  unfold Yields params at h
  rw [if_neg (by simpa [Token.form] using hx), paramsOnto] at h
  obtain ⟨p, mid, hle, hp, h⟩ := Reply.yields_andThen.1 h
  obtain ⟨name, mid₁, hname, hp⟩ := yields_bind.1 hp
  obtain ⟨colonToken, mid₂, hcolon, hp⟩ := yields_bind.1 hp
  obtain ⟨type, mid₃, htype, hp⟩ := yields_bind.1 hp
  obtain ⟨-, rfl⟩ := yields_pure.1 hp
  have hmid₁ := (ident_of_forms hname hforms).2
  have hmid₂ := (expect_of_forms (by decide) hcolon hmid₁).2
  have hnests := typeRef_nests 0 htype
  cases mid₃ with
  | nil => exact absurd (Reply.yields_ok.1 h).2 (by simp)
  | cons lexeme mid₃ =>
    have hends := nests_of_forms hclose hmid₂ hnests
    have hcomma : lexeme.token.kind ≠ .comma := by
      intro hcomma
      rcases hends with ⟨hform, -⟩ | ⟨fs₁, fs₂, rfl, hnest⟩
      · rw [← congrArg Form.kind hform] at hclose
        exact absurd (hcomma.symm.trans hclose) (by decide)
      · rw [List.map_append] at hnested
        exact (hnested.append hnest).1 hcomma rfl
    simp only at h
    rw [if_neg hcomma] at h
    obtain ⟨rfl, heq⟩ := Reply.yields_ok.1 h
    obtain ⟨rfl, rfl⟩ := List.cons.inj heq
    refine ⟨⟨p, rfl⟩, ?_⟩
    rcases hends with ⟨-, hrest⟩ | ⟨fs₁, fs₂, rfl, -⟩
    · exact hrest
    · exact absurd hclosing (hparen lexeme.token.form (by simp))

/-! ## Declarations -/

/-- The function has the name, one parameter, and a result of the type called `result`. -/
structure IsUnary (name result : String) (f : FunctionDecl) : Prop where
  name : f.name.name = name
  params : ∃ p, f.params = [p]
  result : IsPath [result] f.returnType

theorem functionDecl_of_forms {start : Token} {f : FunctionDecl}
    {name opening x colon close arrow result brace : Form} {fs' : List Form}
    (h : (g.functionDecl start).Yields finish given f rest) (hx : x.kind ≠ .rightParen)
    (hclose : close.kind = .rightParen) (hparen : ∀ f ∈ fs, f.kind ≠ .rightParen)
    (hnested : CommasNested 0 (fs.map (·.kind))) (hbrace : brace.kind = .leftBrace)
    (hforms : formsOf given = name :: opening :: x :: colon ::
      (fs ++ close :: arrow :: result :: brace :: fs')) :
    IsUnary name.lexeme result.lexeme f := by
  obtain ⟨x, mid₁, hx, h⟩ := yields_bind.1 h
  obtain ⟨_, mid₂, hopening, h⟩ := yields_bind.1 h
  obtain ⟨ps, mid₃, hps, h⟩ := yields_bind.1 h
  obtain ⟨_, mid₄, hclosing, h⟩ := yields_bind.1 h
  obtain ⟨_, mid₅, harrow, h⟩ := yields_bind.1 h
  obtain ⟨t, mid₆, ht, h⟩ := yields_bind.1 h
  obtain ⟨block, mid₇, hblock, h⟩ := yields_bind.1 h
  obtain ⟨rfl, rfl⟩ := yields_pure.1 h
  obtain ⟨hname, hforms⟩ := ident_of_forms hx hforms
  obtain ⟨-, hforms⟩ := expect_of_forms (by decide) hopening hforms
  obtain ⟨hparams, hforms⟩ := params_of_forms ‹_› hclose hparen hnested hforms hps hclosing
  obtain ⟨-, hforms⟩ := expect_of_forms (by decide) harrow hforms
  obtain ⟨hresult, -⟩ := typeRef_of_forms ht hforms (by rw [hbrace]; decide) (by rw [hbrace]; decide)
  exact ⟨hname, hparams, hresult⟩

/-- The first function of the first type of the module is as given. -/
def Starts (P : FunctionDecl → Prop) (typeName : String) (m : ModuleDecl) : Prop :=
  ∃ t ts f fs, m.types = t :: ts ∧ t.name.name = typeName ∧ t.functions = f :: fs ∧ P f

theorem moduleDecl_of_forms {start : Token} {m : ModuleDecl}
    {name brace typeWord typeName brace' fnWord : Form} {P : FunctionDecl → Prop}
    (h : (g.moduleDecl start).Yields finish given m rest)
    (htype : typeWord.kind = .typeWord) (hfn : fnWord.kind = .fnWord)
    (hforms : formsOf given = name :: brace :: typeWord :: typeName :: brace' :: fnWord :: fs)
    (hfunction : ∀ start given f rest, formsOf given = fs →
      (g.functionDecl start).Yields finish given f rest → P f) :
    m.name.name = name.lexeme ∧ Starts P typeName.lexeme m := by
  obtain ⟨x, mid₁, hx, h⟩ := yields_bind.1 h
  obtain ⟨_, mid₂, hbrace, h⟩ := yields_bind.1 h
  obtain ⟨types, mid₃, htypes, h⟩ := yields_bind.1 h
  obtain ⟨_, mid₄, -, h⟩ := yields_bind.1 h
  obtain ⟨rfl, rfl⟩ := yields_pure.1 h
  obtain ⟨hname, hforms⟩ := ident_of_forms hx hforms
  obtain ⟨-, hforms⟩ := expect_of_forms (by decide) hbrace hforms
  obtain ⟨start, given, t, ts, mid, rfl, ht, hforms⟩ :=
    first_of_forms (yields_many.1 htypes) hforms (by rw [htype]; decide)
  obtain ⟨y, mid₁, hy, ht⟩ := yields_bind.1 ht
  obtain ⟨_, mid₂, hbrace, ht⟩ := yields_bind.1 ht
  obtain ⟨functions, mid₃, hfunctions, ht⟩ := yields_bind.1 ht
  obtain ⟨_, mid₄, -, ht⟩ := yields_bind.1 ht
  obtain ⟨rfl, rfl⟩ := yields_pure.1 ht
  obtain ⟨htypeName, hforms⟩ := ident_of_forms hy hforms
  obtain ⟨-, hforms⟩ := expect_of_forms (by decide) hbrace hforms
  obtain ⟨start, given, f, fs, mid, rfl, hf, hforms⟩ :=
    first_of_forms (yields_many.1 hfunctions) hforms (by rw [hfn]; decide)
  exact ⟨hname, _, ts, f, fs, rfl, htypeName, rfl, hfunction _ _ _ _ hforms hf⟩

end Grammar

end TypedTemplate
