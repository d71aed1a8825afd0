-- SUMMARY: Statements, functions, types, modules and the header are read from what spells them.
import TypedTemplate.Proofs.Grammar.Spells
import TypedTemplate.Proofs.Grammar.Taken

/-!
# Declarations

Each declaration starts with a keyword of its own and ends with a mark, so nothing behind it
matters. Repetition reads the declarations one after the other up to a token that starts no other.
Recovery never enters, since a parse that records no error has never recovered.
-/

namespace TypedTemplate.Grammar

open Parse

variable {g : Grammar} {finish : Place} {given mid rest : List Lexeme}

/-! ## Repetition -/

section

variable {α : Type} {more : TokenKind → Bool} {item : Token → Parse α} {symbols : α → List Symbol}
  {bare : α → α} {P : α → Prop} {as : List α}

theorem many_spells (hitem : ∀ {lexeme given a mid}, more lexeme.token.kind = true →
      (item lexeme.token).Yields finish given a mid →
        Spells g (lexeme :: given) (symbols a) mid ∧ P a)
    (h : Many more item finish given as rest) :
    Spells g given (as.flatMap symbols) rest ∧ ∀ a ∈ as, P a := by
  induction h with
  | nil => exact ⟨.nil, by simp⟩
  | cons hmore ha _ ih =>
    obtain ⟨hsymbols, hP⟩ := hitem hmore ha
    exact ⟨hsymbols.trans ih.1, List.forall_mem_cons.2 ⟨hP, ih.2⟩⟩

/-- The lexemes start with a token that the items start with, and the item goes on to `rest`. -/
def Begins (more : TokenKind → Bool) (item : Token → Parse α) (bare : α → α) (finish : Place)
    (given : List Lexeme) (a : α) (rest : List Lexeme) : Prop :=
  ∃ lexeme given' a', given = lexeme :: given' ∧ more lexeme.token.kind = true ∧ bare a' = bare a ∧
    (item lexeme.token).Yields finish given' a' rest

theorem exists_many (finish : Place)
    (hitem : ∀ a ∈ as, ∀ {given mid}, Spells g given (symbols a) mid →
      Begins more item bare finish given a mid)
    (h : Spells g given (as.flatMap symbols) rest)
    (hrest : ∀ lexeme ∈ rest.head?, more lexeme.token.kind = false) :
    ∃ as', as'.map bare = as.map bare ∧ Many more item finish given as' rest := by
  induction as generalizing given with
  | nil =>
    obtain rfl := spells_nil.1 h
    exact ⟨[], rfl, .nil hrest⟩
  | cons a as ih =>
    obtain ⟨hfirst, has⟩ := List.forall_mem_cons.1 hitem
    obtain ⟨mid, ha, hrest⟩ := spells_append.1 h
    obtain ⟨lexeme, given', a', rfl, hmore, hbare, hyields⟩ := hfirst ha
    obtain ⟨as', hbares, hmany⟩ := ih has hrest
    refine ⟨a' :: as', ?_, .cons hmore hyields hmany⟩
    rw [List.map_cons, List.map_cons, hbare, hbares]

end

/-! ## Statements -/

/-- A value before a semicolon is spelled as an expression. -/
theorem value_spells {e : Expr} {token : Token} (he : g.value.Yields finish given e mid)
    (hclose : (expect .semicolon).Yields finish mid token rest) :
    Spells g given [.expr e.bare, .mark .semicolon] rest := by
  obtain ⟨close, rfl, rfl, -⟩ := (yields_expect (by decide)).1 hclose
  obtain ⟨used, rfl, hused⟩ := exists_expr_alone (k := g) rfl he
  exact .expr hused (spells_of_expect (by decide) hclose)

theorem exists_value (finish : Place) {e : Expr} {ss : List Symbol}
    (h : Spells g given (.expr e :: .mark .semicolon :: ss) rest) :
    ∃ e' mid, e'.bare = e ∧ g.value.Yields finish given e' mid ∧
      Spells g mid (.mark .semicolon :: ss) rest := by
  obtain ⟨used, mid, e', rfl, he, hbare, h⟩ := spells_expr.1 h
  obtain ⟨close, mid', rfl, hkind, -⟩ := spells_mark.1 h
  exact ⟨e', _, hbare, expr_of_semicolon hkind he mid', h⟩

theorem statement_spells {start : Lexeme} {s : Stmt}
    (h : (g.statement start.token).Yields finish given s rest) :
    Spells g (start :: given) s.symbols rest := by
  unfold statement at h
  split at h
  case h_1 hkind =>
    obtain ⟨x, mid, hx, h⟩ := yields_bind.1 h
    obtain ⟨_, mid', hequal, h⟩ := yields_bind.1 h
    obtain ⟨e, mid'', he, h⟩ := yields_bind.1 h
    obtain ⟨_, _, hclose, h⟩ := yields_bind.1 h
    obtain ⟨rfl, rfl⟩ := yields_pure.1 h
    exact .token hkind ((spells_of_ident hx).trans
      ((spells_of_expect (by decide) hequal).trans (value_spells he hclose)))
  case h_2 hkind =>
    obtain ⟨e, mid, he, h⟩ := yields_bind.1 h
    obtain ⟨_, _, hclose, h⟩ := yields_bind.1 h
    obtain ⟨rfl, rfl⟩ := yields_pure.1 h
    exact .token hkind (value_spells he hclose)
  case h_3 => exact absurd h yields_fail

theorem statement_of_letWord {token : Token} {s : Stmt} (hkind : token.kind = .letWord)
    (h : (g.letBinding token).Yields finish given s rest) :
    (g.statement token).Yields finish given s rest := by
  rwa [statement, hkind]

theorem statement_of_returnWord {token : Token} {s : Stmt} (hkind : token.kind = .returnWord)
    (h : (g.ret token).Yields finish given s rest) :
    (g.statement token).Yields finish given s rest := by
  rwa [statement, hkind]

theorem begins_statement (finish : Place) (s : Stmt) (h : Spells g given s.symbols rest) :
    Begins (· != .rightBrace) g.statement Stmt.bare finish given s rest := by
  cases s with
  | letBinding x e span =>
    obtain ⟨start, given', rfl, hkind, h⟩ := spells_mark.1 h
    obtain ⟨_, mid, hx, h⟩ := exists_ident finish h
    obtain ⟨_, mid', hequal, h⟩ := exists_expect finish (by decide) h
    obtain ⟨e', mid'', hbare, he, h⟩ := exists_value finish h
    obtain ⟨_, rest', hclose, h⟩ := exists_expect finish (by decide) h
    obtain rfl := spells_nil.1 h
    refine ⟨start, given', _, rfl, by simp [hkind], ?_, statement_of_letWord hkind (yields_bind.2
      ⟨_, _, hx, yields_bind.2 ⟨_, _, hequal, yields_bind.2 ⟨_, _, he, yields_bind.2
        ⟨_, _, hclose, yields_pure.2 ⟨rfl, rfl⟩⟩⟩⟩⟩)⟩
    simp [Stmt.bare, hbare]
  | ret e span =>
    obtain ⟨start, given', rfl, hkind, h⟩ := spells_mark.1 h
    obtain ⟨e', mid'', hbare, he, h⟩ := exists_value finish h
    obtain ⟨_, rest', hclose, h⟩ := exists_expect finish (by decide) h
    obtain rfl := spells_nil.1 h
    refine ⟨start, given', _, rfl, by simp [hkind], ?_, statement_of_returnWord hkind (yields_bind.2
      ⟨_, _, he, yields_bind.2 ⟨_, _, hclose, yields_pure.2 ⟨rfl, rfl⟩⟩⟩)⟩
    simp [Stmt.bare, hbare]

theorem block_spells {b : Block} (h : g.block.Yields finish given b rest) :
    Spells g given b.symbols rest := by
  obtain ⟨_, mid, hopening, h⟩ := yields_bind.1 h
  obtain ⟨stmts, mid', hstmts, h⟩ := yields_bind.1 h
  obtain ⟨_, _, hclose, h⟩ := yields_bind.1 h
  obtain ⟨rfl, rfl⟩ := yields_pure.1 h
  have hmany := many_spells (P := fun _ => True) (fun _ hs => ⟨statement_spells hs, trivial⟩)
    (yields_many.1 hstmts)
  exact (spells_of_expect (by decide) hopening).trans
    (hmany.1.trans (spells_of_expect (by decide) hclose))

theorem exists_block (finish : Place) (b : Block) (h : Spells g given b.symbols rest) :
    ∃ b', b'.bare = b.bare ∧ g.block.Yields finish given b' rest := by
  obtain ⟨mid₀, hhead, hclose⟩ := spells_append.1 h
  obtain ⟨_, mid, hopening, hstmts⟩ := exists_expect finish (by decide) hhead
  obtain ⟨stmts, hbare, hmany⟩ :=
    exists_many finish (fun s _ {_ _} => begins_statement finish s) hstmts
      (hclose.head (P := fun kind => (kind != .rightBrace) = false) (by decide))
  obtain ⟨_, rest', hexpect, hnil⟩ := exists_expect finish (by decide) hclose
  obtain rfl := spells_nil.1 hnil
  refine ⟨_, ?_, yields_bind.2 ⟨_, _, hopening, yields_bind.2 ⟨_, _, yields_many.2 hmany,
    yields_bind.2 ⟨_, _, hexpect, yields_pure.2 ⟨rfl, rfl⟩⟩⟩⟩⟩
  simp [Block.bare, hbare]

/-! ## Functions -/

theorem param_spells {p : Param} (h : param.Yields finish given p rest) :
    Spells g given p.symbols rest ∧ p.type.Named := by
  obtain ⟨x, mid, hx, h⟩ := yields_bind.1 h
  obtain ⟨_, mid', hcolon, h⟩ := yields_bind.1 h
  obtain ⟨t, mid'', ht, h⟩ := yields_bind.1 h
  obtain ⟨rfl, rfl⟩ := yields_pure.1 h
  obtain ⟨hsymbols, hnamed⟩ := typeRef_spells (g := g) ht
  exact ⟨(spells_of_ident hx).trans ((spells_of_expect (by decide) hcolon).trans hsymbols), hnamed⟩

theorem exists_param (finish : Place) (p : Param) (hp : p.type.Named)
    (h : Spells g given p.symbols rest) (hrest : EndsType rest) :
    ∃ p', p'.bare = p.bare ∧ param.Yields finish given p' rest := by
  obtain ⟨_, mid, hx, h⟩ := exists_ident finish h
  obtain ⟨_, mid', hcolon, h⟩ := exists_expect finish (by decide) h
  obtain ⟨t, hbare, ht⟩ := exists_typeRef finish p.type hp h hrest
  refine ⟨_, ?_, yields_bind.2 ⟨_, _, hx, yields_bind.2 ⟨_, _, hcolon, yields_bind.2 ⟨_, _, ht,
    yields_pure.2 ⟨rfl, rfl⟩⟩⟩⟩⟩
  simp [Param.bare, hbare]

theorem yields_paramsOnto {out ps : List Param} :
    (paramsOnto finish out given).Yields ps rest ↔
      ∃ p mid, param.Yields finish given p mid ∧
        (((∀ lexeme ∈ mid.head?, lexeme.token.kind ≠ .comma) ∧ ps = (p :: out).reverse ∧
            mid = rest) ∨
          ∃ comma mid', mid = comma :: mid' ∧ comma.token.kind = .comma ∧
            (paramsOnto finish (p :: out) mid').Yields ps rest) := by
  rw [paramsOnto]
  exact yields_commas

/-- The symbols of parameters, with commas between them. -/
def paramSymbols (ps : List Param) : List Symbol :=
  [Symbol.mark .comma].intercalate (ps.map Param.symbols)

theorem paramSymbols_cons (p p' : Param) (ps : List Param) :
    paramSymbols (p :: p' :: ps) = p.symbols ++ .mark .comma :: paramSymbols (p' :: ps) := by
  simp [paramSymbols, List.intercalate_cons_cons]

theorem paramsOnto_spells {given rest : List Lexeme} {out ps : List Param}
    (h : (paramsOnto finish out given).Yields ps rest) :
    ∃ p more, ps = out.reverse ++ p :: more ∧ Spells g given (paramSymbols (p :: more)) rest ∧
      ∀ q ∈ p :: more, q.type.Named := by
  obtain ⟨p, mid, hp, h⟩ := yields_paramsOnto.1 h
  obtain ⟨hsymbols, hnamed⟩ := param_spells (g := g) hp
  have hle : mid.length ≤ given.length := Reply.Yields.length_le hp
  rcases h with ⟨-, rfl, rfl⟩ | ⟨comma, mid', rfl, hcomma, h⟩
  · exact ⟨p, [], by simp, by simpa [paramSymbols] using hsymbols, by simpa using hnamed⟩
  · obtain ⟨p', more, rfl, hmore, hnameds⟩ := paramsOnto_spells h
    refine ⟨p, p' :: more, by simp, ?_, List.forall_mem_cons.2 ⟨hnamed, hnameds⟩⟩
    rw [paramSymbols_cons]
    exact hsymbols.trans (.token hcomma hmore)
termination_by given.length
decreasing_by subst_vars; simp only [List.length_cons] at *; omega

theorem params_spells {ps : List Param} (h : params.Yields finish given ps rest) :
    Spells g given (paramSymbols ps) rest ∧ ∀ p ∈ ps, p.type.Named := by
  unfold Yields params at h
  split at h
  case isTrue =>
    obtain ⟨rfl, rfl⟩ := Reply.yields_ok.1 h
    exact ⟨.nil, by simp⟩
  case isFalse =>
    obtain ⟨p, more, rfl, hsymbols, hnamed⟩ := paramsOnto_spells (g := g) h
    exact ⟨hsymbols, hnamed⟩

theorem exists_paramsOnto (finish : Place) (out : List Param) (p : Param) (ps : List Param)
    (hps : ∀ q ∈ p :: ps, q.type.Named) (h : Spells g given (paramSymbols (p :: ps)) rest)
    (hrest : ∀ lexeme ∈ rest.head?, lexeme.token.kind = .rightParen) :
    ∃ ps', ps'.map Param.bare = (p :: ps).map Param.bare ∧
      (paramsOnto finish out given).Yields (out.reverse ++ ps') rest := by
  obtain ⟨hp, hmore⟩ := List.forall_mem_cons.1 hps
  induction ps generalizing given out p with
  | nil =>
    obtain ⟨p', hbare, hyields⟩ := exists_param finish p hp (by simpa [paramSymbols] using h)
      fun lexeme hlexeme => hrest lexeme hlexeme ▸ by decide
    refine ⟨[p'], by simp [hbare], yields_paramsOnto.2 ⟨p', rest, hyields, .inl ?_⟩⟩
    exact ⟨fun lexeme hlexeme => hrest lexeme hlexeme ▸ by decide, by simp, rfl⟩
  | cons q ps ih =>
    rw [paramSymbols_cons] at h
    obtain ⟨mid, hfirst, h⟩ := spells_append.1 h
    obtain ⟨p', hbare, hyields⟩ := exists_param finish p hp hfirst
      (h.head (P := fun kind => kind ≠ .colonColon ∧ kind ≠ .less) (by decide))
    obtain ⟨comma, mid', rfl, hcomma, h⟩ := spells_mark.1 h
    obtain ⟨hq, hrestNamed⟩ := List.forall_mem_cons.1 hmore
    obtain ⟨ps', hbares, hyields'⟩ := ih (p' :: out) q hmore h hq hrestNamed
    refine ⟨p' :: ps', by rw [List.map_cons, hbare, hbares]; rfl, ?_⟩
    refine yields_paramsOnto.2 ⟨p', _, hyields, .inr ⟨comma, mid', rfl, hcomma, ?_⟩⟩
    simpa using hyields'

theorem exists_params (finish : Place) {ps : List Param} {ss : List Symbol} {end_ : List Lexeme}
    (hps : ∀ p ∈ ps, p.type.Named) (h : Spells g given (paramSymbols ps) rest)
    (hrest : Spells g rest (.mark .rightParen :: ss) end_) :
    ∃ ps', ps'.map Param.bare = ps.map Param.bare ∧ params.Yields finish given ps' rest := by
  have hclose := hrest.head (P := (· = .rightParen)) rfl
  cases ps with
  | nil =>
    obtain rfl := spells_nil.1 h
    obtain ⟨close, mid, rfl, hkind, -⟩ := spells_mark.1 hrest
    refine ⟨[], rfl, ?_⟩
    unfold Yields params
    rw [if_pos (by simp [hkind])]
    exact Reply.yields_ok.2 ⟨rfl, rfl⟩
  | cons p ps =>
    obtain ⟨ps', hbare, hyields⟩ := exists_paramsOnto finish [] p ps hps h hclose
    refine ⟨ps', hbare, ?_⟩
    -- A parameter starts with a name, so the list is not taken for an empty one.
    obtain ⟨q, mid, hq, -⟩ := yields_paramsOnto.1 hyields
    obtain ⟨_, _, hx, -⟩ := yields_bind.1 hq
    obtain ⟨lexeme, rfl, hkind, -⟩ := yields_ident.1 hx
    unfold Yields params
    rw [if_neg (by simp [hkind])]
    exact hyields

theorem functionDecl_spells {start : Lexeme} {f : FunctionDecl}
    (h : (declaration .fnWord g.functionDecl start.token).Yields finish given f rest) :
    Spells g (start :: given) f.symbols rest ∧ f.Named := by
  obtain ⟨hstart, h⟩ := yields_declaration.1 h
  obtain ⟨x, _, hx, h⟩ := yields_bind.1 h
  obtain ⟨_, _, hopening, h⟩ := yields_bind.1 h
  obtain ⟨ps, _, hps, h⟩ := yields_bind.1 h
  obtain ⟨_, _, hclose, h⟩ := yields_bind.1 h
  obtain ⟨_, _, harrow, h⟩ := yields_bind.1 h
  obtain ⟨t, _, ht, h⟩ := yields_bind.1 h
  obtain ⟨b, _, hb, h⟩ := yields_bind.1 h
  obtain ⟨rfl, rfl⟩ := yields_pure.1 h
  obtain ⟨hparams, hnamedParams⟩ := params_spells (g := g) hps
  obtain ⟨htype, hnamed⟩ := typeRef_spells (g := g) ht
  refine ⟨?_, hnamedParams, hnamed⟩
  have hhead := (spells_of_ident hx).trans ((spells_of_expect (by decide) hopening).trans hparams)
  have hresult := (spells_of_expect (g := g) (by decide) hclose).trans
    ((spells_of_expect (by decide) harrow).trans htype)
  exact ((Spells.token (s := .mark .fnWord) hstart hhead).trans hresult).trans (block_spells hb)

theorem begins_functionDecl (finish : Place) (f : FunctionDecl) (hf : f.Named)
    (h : Spells g given f.symbols rest) :
    Begins (· != .rightBrace) (declaration .fnWord g.functionDecl) FunctionDecl.bare finish given f
      rest := by
  obtain ⟨mid, h, hbody⟩ := spells_append.1 h
  obtain ⟨mid', h, htail⟩ := spells_append.1 h
  obtain ⟨start, given', rfl, hkind, h⟩ := spells_mark.1 h
  obtain ⟨_, _, hx, h⟩ := exists_ident finish h
  obtain ⟨_, _, hopening, h⟩ := exists_expect finish (by decide) h
  obtain ⟨ps, hbareParams, hps⟩ := exists_params finish hf.1 h htail
  obtain ⟨_, _, hclose, htail⟩ := exists_expect finish (by decide) htail
  obtain ⟨_, _, harrow, htail⟩ := exists_expect finish (by decide) htail
  -- the brace of the body ends the result type
  have hbrace : EndsType mid := by
    obtain ⟨_, hbrace, -⟩ := spells_append.1 hbody
    exact hbrace.head (P := fun kind => kind ≠ .colonColon ∧ kind ≠ .less) (by decide)
  obtain ⟨t, hbareType, ht⟩ := exists_typeRef finish f.returnType hf.2 htail hbrace
  obtain ⟨b, hbareBody, hb⟩ := exists_block finish f.body hbody
  refine ⟨start, given', _, rfl, by simp [hkind], ?_, yields_declaration.2 ⟨hkind, yields_bind.2
    ⟨_, _, hx, yields_bind.2 ⟨_, _, hopening, yields_bind.2 ⟨_, _, hps, yields_bind.2
      ⟨_, _, hclose, yields_bind.2 ⟨_, _, harrow, yields_bind.2 ⟨_, _, ht, yields_bind.2
        ⟨_, _, hb, yields_pure.2 ⟨rfl, rfl⟩⟩⟩⟩⟩⟩⟩⟩⟩⟩
  simp [FunctionDecl.bare, hbareParams, hbareType, hbareBody]

/-! ## Types and modules -/

/-- The symbols of a name with a body in braces. -/
def bracedSymbols (x : String) (body : List Symbol) : List Symbol :=
  .name x :: .mark .leftBrace :: body ++ [.mark .rightBrace]

theorem braced_spells {x : Ident} {token token' : Token} {body : List Symbol}
    {given mid mid' mid'' rest : List Lexeme} (hx : ident.Yields finish given x mid)
    (hopening : (expect .leftBrace).Yields finish mid token mid')
    (hbody : Spells g mid' body mid'')
    (hclose : (expect .rightBrace).Yields finish mid'' token' rest) :
    Spells g given (bracedSymbols x.name body) rest :=
  (spells_of_ident hx).trans ((spells_of_expect (by decide) hopening).trans
    (hbody.trans (spells_of_expect (by decide) hclose)))

theorem exists_braced (finish : Place) {x : String} {body : List Symbol}
    (h : Spells g given (bracedSymbols x body) rest) :
    ∃ span token token' mid mid' mid'', ident.Yields finish given ⟨x, span⟩ mid ∧
      (expect .leftBrace).Yields finish mid token mid' ∧ Spells g mid' body mid'' ∧
        (∀ lexeme ∈ mid''.head?, (lexeme.token.kind != .rightBrace) = false) ∧
          (expect .rightBrace).Yields finish mid'' token' rest := by
  obtain ⟨mid'', h, hclose⟩ := spells_append.1 h
  obtain ⟨span, mid, hx, h⟩ := exists_ident finish h
  obtain ⟨token, mid', hopening, hbody⟩ := exists_expect finish (by decide) h
  have hend := hclose.head (P := fun kind => (kind != .rightBrace) = false) (by decide)
  obtain ⟨token', rest', hexpect, hnil⟩ := exists_expect finish (by decide) hclose
  obtain rfl := spells_nil.1 hnil
  exact ⟨span, token, token', mid, mid', mid'', hx, hopening, hbody, hend, hexpect⟩

theorem typeDecl_spells {start : Lexeme} {t : TypeDecl}
    (h : (declaration .typeWord g.typeDecl start.token).Yields finish given t rest) :
    Spells g (start :: given) t.symbols rest ∧ t.Named := by
  obtain ⟨hstart, h⟩ := yields_declaration.1 h
  obtain ⟨x, _, hx, h⟩ := yields_bind.1 h
  obtain ⟨_, _, hopening, h⟩ := yields_bind.1 h
  obtain ⟨fs, _, hfs, h⟩ := yields_bind.1 h
  obtain ⟨_, _, hclose, h⟩ := yields_bind.1 h
  obtain ⟨rfl, rfl⟩ := yields_pure.1 h
  obtain ⟨hbody, hnamed⟩ := many_spells (fun _ => functionDecl_spells) (yields_many.1 hfs)
  exact ⟨.token hstart (braced_spells hx hopening hbody hclose), hnamed⟩

theorem begins_typeDecl (finish : Place) (t : TypeDecl) (ht : t.Named)
    (h : Spells g given t.symbols rest) :
    Begins (· != .rightBrace) (declaration .typeWord g.typeDecl) TypeDecl.bare finish given t
      rest := by
  obtain ⟨start, given', rfl, hkind, h⟩ := spells_mark.1 h
  obtain ⟨_, _, _, _, _, _, hx, hopening, hbody, hend, hclose⟩ := exists_braced finish h
  obtain ⟨fs, hbare, hfs⟩ :=
    exists_many finish (fun f hf {_ _} => begins_functionDecl finish f (ht f hf)) hbody hend
  refine ⟨start, given', _, rfl, by simp [hkind], ?_, yields_declaration.2 ⟨hkind, yields_bind.2
    ⟨_, _, hx, yields_bind.2 ⟨_, _, hopening, yields_bind.2 ⟨_, _, yields_many.2 hfs, yields_bind.2
      ⟨_, _, hclose, yields_pure.2 ⟨rfl, rfl⟩⟩⟩⟩⟩⟩⟩
  simp [TypeDecl.bare, hbare]

theorem moduleDecl_spells {start : Lexeme} {m : ModuleDecl}
    (h : (declaration .moduleWord g.moduleDecl start.token).Yields finish given m rest) :
    Spells g (start :: given) m.symbols rest ∧ m.Named := by
  obtain ⟨hstart, h⟩ := yields_declaration.1 h
  obtain ⟨x, _, hx, h⟩ := yields_bind.1 h
  obtain ⟨_, _, hopening, h⟩ := yields_bind.1 h
  obtain ⟨ts, _, hts, h⟩ := yields_bind.1 h
  obtain ⟨_, _, hclose, h⟩ := yields_bind.1 h
  obtain ⟨rfl, rfl⟩ := yields_pure.1 h
  obtain ⟨hbody, hnamed⟩ := many_spells (fun _ => typeDecl_spells) (yields_many.1 hts)
  exact ⟨.token hstart (braced_spells hx hopening hbody hclose), hnamed⟩

theorem begins_moduleDecl (finish : Place) (m : ModuleDecl) (hm : m.Named)
    (h : Spells g given m.symbols rest) :
    Begins (fun _ => true) (declaration .moduleWord g.moduleDecl) ModuleDecl.bare finish given m
      rest := by
  obtain ⟨start, given', rfl, hkind, h⟩ := spells_mark.1 h
  obtain ⟨_, _, _, _, _, _, hx, hopening, hbody, hend, hclose⟩ := exists_braced finish h
  obtain ⟨ts, hbare, hts⟩ :=
    exists_many finish (fun t ht {_ _} => begins_typeDecl finish t (hm t ht)) hbody hend
  refine ⟨start, given', _, rfl, rfl, ?_, yields_declaration.2 ⟨hkind, yields_bind.2
    ⟨_, _, hx, yields_bind.2 ⟨_, _, hopening, yields_bind.2 ⟨_, _, yields_many.2 hts, yields_bind.2
      ⟨_, _, hclose, yields_pure.2 ⟨rfl, rfl⟩⟩⟩⟩⟩⟩⟩
  simp [ModuleDecl.bare, hbare]

/-! ## Namespaces and the header -/

theorem useDecl_spells {start : Lexeme} {d : UseDecl} (hstart : start.token.kind = .useWord)
    (h : (useDecl start.token).Yields finish given d rest) :
    Spells g (start :: given) d.symbols rest ∧ d.path.Named := by
  obtain ⟨p, _, hp, h⟩ := yields_bind.1 h
  obtain ⟨_, _, hclose, h⟩ := yields_bind.1 h
  obtain ⟨rfl, rfl⟩ := yields_pure.1 h
  obtain ⟨hsymbols, hnamed⟩ := path_spells (g := g) hp
  exact ⟨.token hstart (hsymbols.trans (spells_of_expect (by decide) hclose)), hnamed⟩

theorem begins_useDecl (finish : Place) (d : UseDecl) (hd : d.path.Named)
    (h : Spells g given d.symbols rest) :
    Begins (· == .useWord) useDecl UseDecl.bare finish given d rest := by
  obtain ⟨start, given', rfl, hkind, h⟩ := spells_mark.1 h
  obtain ⟨mid, hpath, hclose⟩ := spells_append.1 h
  obtain ⟨p, hbare, hp⟩ := exists_path finish hd hpath
    (hclose.head (P := (· ≠ .colonColon)) (by decide))
  obtain ⟨_, rest', hexpect, hnil⟩ := exists_expect finish (by decide) hclose
  obtain rfl := spells_nil.1 hnil
  refine ⟨start, given', _, rfl, by simp [hkind], ?_, yields_bind.2 ⟨_, _, hp, yields_bind.2
    ⟨_, _, hexpect, yields_pure.2 ⟨rfl, rfl⟩⟩⟩⟩
  simp [UseDecl.bare, hbare]

theorem yields_headerWord {token : Token} : headerWord.Yields finish given token rest ↔
    ∃ lexeme, given = lexeme :: rest ∧ lexeme.token = token ∧ token.kind = .identifier ∧
      token.lexeme = "edition" := by
  unfold headerWord
  simp only [yields_bind, yields_peek]
  constructor
  · rintro ⟨_, _, ⟨rfl, rfl⟩, h⟩
    split at h
    case isTrue hword =>
      obtain ⟨lexeme, rfl, rfl, hkind⟩ := (yields_headerToken (by decide)).1 h
      exact ⟨lexeme, rfl, rfl, hkind, hword⟩
    case isFalse => exact absurd h yields_fail
  · rintro ⟨lexeme, rfl, rfl, hkind, hword⟩
    refine ⟨_, _, ⟨rfl, rfl⟩, ?_⟩
    rw [nextToken_cons, if_pos hword]
    exact (yields_headerToken (by decide)).2 ⟨lexeme, rfl, rfl, hkind⟩

/-- The header behind its hash is read when the lexemes spell it and the number is in range. -/
theorem edition_spells {start : Lexeme} {e : Edition} (hstart : start.token.kind = .hash)
    (h : (edition start.token).Yields finish given e rest) :
    Spells g (start :: given) e.symbols rest ∧ e.version ≤ maxEdition := by
  obtain ⟨_, _, h₁, h⟩ := yields_bind.1 h
  obtain ⟨_, _, h₂, h⟩ := yields_bind.1 h
  obtain ⟨_, _, h₃, h⟩ := yields_bind.1 h
  obtain ⟨_, _, h₄, h⟩ := yields_bind.1 h
  obtain ⟨_, _, h₅, h⟩ := yields_bind.1 h
  obtain ⟨_, rfl, rfl, hbang⟩ := (yields_headerToken (by decide)).1 h₁
  obtain ⟨_, rfl, rfl, hbracket⟩ := (yields_headerToken (by decide)).1 h₂
  obtain ⟨_, rfl, rfl, hword⟩ := yields_headerWord.1 h₃
  obtain ⟨_, rfl, rfl, hequal⟩ := (yields_headerToken (by decide)).1 h₄
  obtain ⟨_, rfl, rfl, hnumber⟩ := (yields_headerToken (by decide)).1 h₅
  simp only at h
  split at h
  case isTrue => exact absurd h yields_fail
  case isFalse hrange =>
    obtain ⟨_, _, hclose, h⟩ := yields_bind.1 h
    obtain ⟨rfl, rfl⟩ := yields_pure.1 h
    refine ⟨.token hstart (.token hbang (.token hbracket (.token hword (.token hequal
      (.token ⟨hnumber, rfl⟩ (spells_of_expect (by decide) hclose)))))), Nat.le_of_not_lt hrange⟩

theorem exists_edition (finish : Place) (e : Edition) (h : Spells g given e.symbols rest)
    (hrange : e.version ≤ maxEdition) :
    ∃ start given' e', given = start :: given' ∧ start.token.kind = .hash ∧ e'.bare = e.bare ∧
      (edition start.token).Yields finish given' e' rest := by
  obtain ⟨start, given', rfl, hstart, h⟩ := spells_mark.1 h
  obtain ⟨bang, _, rfl, hbang, h⟩ := spells_mark.1 h
  obtain ⟨bracket, _, rfl, hbracket, h⟩ := spells_mark.1 h
  obtain ⟨word, _, rfl, hword, h⟩ := spells_name.1 h
  obtain ⟨equal, _, rfl, hequal, h⟩ := spells_mark.1 h
  obtain ⟨number, _, rfl, hnumber, h⟩ := spells_number.1 h
  obtain ⟨token, rest', hclose, hnil⟩ := exists_expect finish (by decide) h
  obtain rfl := spells_nil.1 hnil
  refine ⟨start, _, ⟨Number.ofDigits number.token.lexeme.toList, start.token.span.merge token.span⟩,
    rfl, hstart, by simp [Edition.bare, hnumber], ?_⟩
  refine yields_bind.2 ⟨_, _, (yields_headerToken (by decide)).2 ⟨bang, rfl, rfl, hbang⟩, ?_⟩
  refine yields_bind.2 ⟨_, _, (yields_headerToken (by decide)).2 ⟨bracket, rfl, rfl, hbracket⟩, ?_⟩
  refine yields_bind.2 ⟨_, _, yields_headerWord.2 ⟨word, rfl, rfl, hword⟩, ?_⟩
  refine yields_bind.2 ⟨_, _, (yields_headerToken (by decide)).2 ⟨equal, rfl, rfl, hequal⟩, ?_⟩
  refine yields_bind.2 ⟨_, _, (yields_headerToken (by decide)).2 ⟨number, rfl, rfl, hnumber.1⟩, ?_⟩
  simp only
  rw [if_neg (by rw [hnumber.2]; exact Nat.not_lt.2 hrange)]
  exact yields_bind.2 ⟨_, _, hclose, yields_pure.2 ⟨rfl, rfl⟩⟩

theorem header_of_ne_hash (h : ∀ lexeme ∈ given.head?, lexeme.token.kind ≠ .hash) :
    header.Yields finish given none given := by
  refine yields_bind.2 ⟨_, _, yields_peek.2 ⟨rfl, rfl⟩, ?_⟩
  rw [if_neg]
  · exact yields_pure.2 ⟨rfl, rfl⟩
  · cases given with
    | nil => simp [nextToken, Token.eof]
    | cons lexeme given => exact h lexeme rfl

theorem header_of_edition {start : Lexeme} {e : Edition} (hstart : start.token.kind = .hash)
    (h : (edition start.token).Yields finish given e rest) :
    header.Yields finish (start :: given) (some e) rest := by
  refine yields_bind.2 ⟨_, _, yields_peek.2 ⟨rfl, rfl⟩, ?_⟩
  rw [nextToken_cons, if_pos hstart]
  exact yields_bind.2 ⟨_, _, yields_advance_cons.2 ⟨rfl, rfl⟩, yields_orRecover.2 ⟨e, rfl, h⟩⟩

end TypedTemplate.Grammar
