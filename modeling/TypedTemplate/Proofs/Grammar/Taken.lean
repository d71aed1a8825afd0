-- SUMMARY: A clean parse takes the word `module` at the start of a module only.
import TypedTemplate.Proofs.Grammar.Brackets
import TypedTemplate.Proofs.Grammar.Climb

/-!
# Where modules start

Every production but that of a module stops before the word `module`, when nothing
goes wrong. So in a unit without errors each such word starts a module, whatever
stands before it: no declaration, body or expression can swallow it.
-/

namespace TypedTemplate

/-- From `given` to `rest` no lexeme is the word `module`. -/
def Spares (given rest : List Lexeme) : Prop :=
  ∃ used : List Lexeme, given = used ++ rest ∧ ∀ lexeme ∈ used, lexeme.token.kind ≠ .moduleWord

namespace Spares

variable {given mid rest : List Lexeme} {lexeme : Lexeme}

theorem refl (given : List Lexeme) : Spares given given := ⟨[], rfl, by simp⟩

theorem trans (h : Spares given mid) (h' : Spares mid rest) : Spares given rest := by
  obtain ⟨used, rfl, hused⟩ := h
  obtain ⟨used', rfl, hused'⟩ := h'
  refine ⟨used ++ used', by simp, ?_⟩
  intro l hl
  rcases List.mem_append.1 hl with hl | hl
  · exact hused l hl
  · exact hused' l hl

theorem cons (hkind : lexeme.token.kind ≠ .moduleWord) (h : Spares given rest) :
    Spares (lexeme :: given) rest := by
  obtain ⟨used, rfl, hused⟩ := h
  refine ⟨lexeme :: used, rfl, ?_⟩
  intro l hl
  rcases List.mem_cons.1 hl with rfl | hl
  · exact hkind
  · exact hused l hl

theorem suffix (h : Spares given rest) : rest <:+ given := by
  obtain ⟨used, rfl, -⟩ := h
  exact List.suffix_append used rest

/-- What starts with `module` inside the lexemes is still there. -/
theorem keeps {target : List Lexeme} (h : Spares given rest)
    (hkind : lexeme.token.kind = .moduleWord) (htarget : lexeme :: target <:+ given) :
    lexeme :: target <:+ rest := by
  obtain ⟨used, rfl, hused⟩ := h
  obtain ⟨before, hbefore⟩ := htarget
  rcases List.append_eq_append_iff.1 hbefore with ⟨more, rfl, hrest⟩ | ⟨more, rfl, hrest⟩
  · match more with
    | [] => exact hrest ▸ List.suffix_refl _
    | l :: more =>
      obtain ⟨rfl, -⟩ := List.cons.inj hrest
      exact absurd hkind (hused lexeme (by simp))
  · exact ⟨more, hrest.symm⟩

end Spares

namespace Parse

variable {α β : Type}

/-- Where the parser yields something, it has taken no `module`. -/
def SparesModules (p : Parse α) : Prop :=
  ∀ (finish : Place) (given : List Lexeme) (a : α) (rest : List Lexeme), AllTokens given →
    p.Yields finish given a rest → Spares given rest

theorem sparesModules_pure (a : α) : SparesModules (pure a) := by
  intro finish given a' rest _ h
  obtain ⟨-, rfl⟩ := yields_pure.1 h
  exact .refl given

theorem sparesModules_fail (e : ParseError) : SparesModules (fail e : Parse α) := by
  intro finish given a rest _ h
  exact absurd h yields_fail

theorem SparesModules.bind {p : Parse α} {next : α → Parse β} (hp : p.SparesModules)
    (hnext : ∀ a, (next a).SparesModules) : (p >>= next).SparesModules := by
  intro finish given b rest hgiven h
  obtain ⟨a, mid, ha, hb⟩ := yields_bind.1 h
  have hmid := hp _ _ _ _ hgiven ha
  exact hmid.trans (hnext a _ _ _ _ (hgiven.of_suffix hmid.suffix) hb)

theorem sparesModules_expect {kind : TokenKind} (heof : kind ≠ .eof) (hkind : kind ≠ .moduleWord) :
    (expect kind).SparesModules := by
  intro finish given token rest _ h
  obtain ⟨lexeme, rfl, rfl, hlexeme⟩ := (yields_expect heof).1 h
  exact (Spares.refl rest).cons (by rwa [hlexeme])

theorem sparesModules_ident : ident.SparesModules := by
  intro finish given x rest _ h
  obtain ⟨lexeme, rfl, hlexeme, -⟩ := yields_ident.1 h
  exact (Spares.refl rest).cons (by rw [hlexeme]; decide)

theorem sparesModules_peek : peek.SparesModules := by
  intro finish given token rest _ h
  obtain ⟨-, rfl⟩ := yields_peek.1 h
  exact .refl given

theorem sparesModules_many {more : TokenKind → Bool} {item : Token → Parse α}
    {recover : Parse PUnit} (hitem : ∀ token, (item token).SparesModules)
    (hkind : ∀ {token finish given a rest}, more token.kind = true →
      (item token).Yields finish given a rest → token.kind ≠ .moduleWord) : (many more item recover).SparesModules := by
  intro finish given as rest hgiven h
  have hmany := yields_many.1 h
  clear h
  induction hmany with
  | nil => exact .refl _
  | cons hmore ha _ ih =>
    have hstep := hitem _ _ _ _ _ hgiven.tail ha
    exact (hstep.trans (ih (hgiven.tail.of_suffix hstep.suffix))).cons (hkind hmore ha)

theorem sparesModules_declaration {kind : TokenKind} {body : Token → Parse α}
    (hbody : ∀ token, (body token).SparesModules) (token : Token) :
    (declaration kind body token).SparesModules := by
  intro finish given a rest hgiven h
  exact hbody token _ _ _ _ hgiven (yields_declaration.1 h).2

end Parse

namespace Grammar

open Parse

variable {g : Grammar}

theorem sparesModules_of_nests {α : Type} {p : Parse α}
    (h : ∀ {finish given rest a}, p.Yields finish given a rest → Nests 0 given rest) :
    p.SparesModules := by
  intro finish given a rest _ hp
  obtain ⟨used, rfl, hused⟩ := h hp
  refine ⟨used, rfl, ?_⟩
  intro lexeme hlexeme hkind
  have hmem := mem_typeMarks (hused 0 (Nat.le_refl 0)) _ (List.mem_map_of_mem hlexeme)
  rw [hkind] at hmem
  exact absurd hmem (by decide)

theorem sparesModules_path : path.SparesModules := sparesModules_of_nests (path_nests 0)

theorem sparesModules_typeRef :
    SparesModules fun finish given => typeRef finish given :=
  sparesModules_of_nests (typeRef_nests 0)

theorem sparesModules_value : g.value.SparesModules := by
  intro finish given e rest hgiven h
  obtain ⟨used, rfl, hused⟩ := (expr_sound (Nat.zero_le _) hgiven h).reads
  refine ⟨used, rfl, ?_⟩
  intro lexeme hlexeme hkind
  have hmark : .mark .moduleWord ∈ e.terminals := by
    rw [← hused]
    exact List.mem_map.2 ⟨lexeme, hlexeme, by simp [Token.terminal, hkind]⟩
  exact absurd (Expr.mem_exprMarks hmark) (by decide)

theorem sparesModules_letBinding (start : Token) : (g.letBinding start).SparesModules := by
  refine .bind sparesModules_ident fun _ => ?_
  refine .bind (sparesModules_expect (by decide) (by decide)) fun _ => ?_
  refine .bind sparesModules_value fun _ => ?_
  refine .bind (sparesModules_expect (by decide) (by decide)) fun _ => ?_
  exact sparesModules_pure _

theorem sparesModules_ret (start : Token) : (g.ret start).SparesModules := by
  refine .bind sparesModules_value fun _ => ?_
  refine .bind (sparesModules_expect (by decide) (by decide)) fun _ => ?_
  exact sparesModules_pure _

theorem sparesModules_statement (token : Token) : (g.statement token).SparesModules := by
  unfold statement
  split
  · exact sparesModules_letBinding token
  · exact sparesModules_ret token
  · exact sparesModules_fail _

theorem statement_kind {token : Token} {finish : Place} {given rest : List Lexeme} {s : Stmt}
    (h : (g.statement token).Yields finish given s rest) : token.kind ≠ .moduleWord := by
  intro hkind
  rw [statement, hkind] at h
  exact yields_fail h

theorem sparesModules_block : g.block.SparesModules := by
  refine .bind (sparesModules_expect (by decide) (by decide)) fun _ => ?_
  refine .bind (sparesModules_many sparesModules_statement
    fun _ => statement_kind) fun _ => ?_
  refine .bind (sparesModules_expect (by decide) (by decide)) fun _ => ?_
  exact sparesModules_pure _

theorem sparesModules_param : param.SparesModules := by
  refine .bind sparesModules_ident fun _ => ?_
  refine .bind (sparesModules_expect (by decide) (by decide)) fun _ => ?_
  refine .bind sparesModules_typeRef fun _ => ?_
  exact sparesModules_pure _

theorem spares_paramsOnto {finish : Place} {out ps : List Param} {given rest : List Lexeme}
    (hgiven : AllTokens given) (h : (paramsOnto finish out given).Yields ps rest) :
    Spares given rest := by
  rw [paramsOnto] at h
  obtain ⟨p, mid, hle, hp, h⟩ := Reply.yields_andThen.1 h
  have hmid := sparesModules_param _ _ _ _ hgiven hp
  refine hmid.trans ?_
  cases mid with
  | nil =>
    obtain ⟨-, rfl⟩ := Reply.yields_ok.1 h
    exact .refl []
  | cons lexeme mid =>
    simp only at h
    split at h
    case isTrue hcomma =>
      have hrest := spares_paramsOnto (hgiven.of_suffix hmid.suffix).tail (Reply.yields_taking.1 h)
      exact hrest.cons (by rw [hcomma]; decide)
    case isFalse =>
      obtain ⟨-, rfl⟩ := Reply.yields_ok.1 h
      exact .refl _
termination_by given.length

theorem sparesModules_params : params.SparesModules := by
  intro finish given ps rest hgiven h
  unfold Yields params at h
  split at h
  · obtain ⟨-, rfl⟩ := Reply.yields_ok.1 h
    exact .refl given
  · exact spares_paramsOnto hgiven h

theorem sparesModules_functionDecl (start : Token) : (g.functionDecl start).SparesModules := by
  refine .bind sparesModules_ident fun _ => ?_
  refine .bind (sparesModules_expect (by decide) (by decide)) fun _ => ?_
  refine .bind sparesModules_params fun _ => ?_
  refine .bind (sparesModules_expect (by decide) (by decide)) fun _ => ?_
  refine .bind (sparesModules_expect (by decide) (by decide)) fun _ => ?_
  refine .bind sparesModules_typeRef fun _ => ?_
  refine .bind sparesModules_block fun _ => ?_
  exact sparesModules_pure _

theorem declaration_kind {α : Type} {kind : TokenKind} {body : Token → Parse α} {token : Token}
    {finish : Place} {given rest : List Lexeme} {a : α} (hkind : kind ≠ .moduleWord)
    (h : (declaration kind body token).Yields finish given a rest) : token.kind ≠ .moduleWord := by
  rw [(yields_declaration.1 h).1]
  exact hkind

theorem sparesModules_typeDecl (start : Token) : (g.typeDecl start).SparesModules := by
  refine .bind sparesModules_ident fun _ => ?_
  refine .bind (sparesModules_expect (by decide) (by decide)) fun _ => ?_
  refine .bind (sparesModules_many (sparesModules_declaration sparesModules_functionDecl)
    fun _ => declaration_kind (by decide)) fun _ => ?_
  refine .bind (sparesModules_expect (by decide) (by decide)) fun _ => ?_
  exact sparesModules_pure _

/-- Behind its first token a module takes no other `module`. -/
theorem sparesModules_moduleDecl (start : Token) : (g.moduleDecl start).SparesModules := by
  refine .bind sparesModules_ident fun _ => ?_
  refine .bind (sparesModules_expect (by decide) (by decide)) fun _ => ?_
  refine .bind (sparesModules_many (sparesModules_declaration sparesModules_typeDecl)
    fun _ => declaration_kind (by decide)) fun _ => ?_
  refine .bind (sparesModules_expect (by decide) (by decide)) fun _ => ?_
  exact sparesModules_pure _

/-! ## The header and the namespaces -/

theorem yields_headerToken {kind : TokenKind} {finish : Place} {given rest : List Lexeme}
    {token : Token} (hkind : kind ≠ .eof) :
    (headerToken kind).Yields finish given token rest ↔
      ∃ lexeme, given = lexeme :: rest ∧ lexeme.token = token ∧ token.kind = kind :=
  yields_take hkind fun _ _ _ _ => yields_fail

theorem sparesModules_headerToken {kind : TokenKind} (heof : kind ≠ .eof)
    (hkind : kind ≠ .moduleWord) : (headerToken kind).SparesModules := by
  intro finish given token rest _ h
  obtain ⟨lexeme, rfl, rfl, hlexeme⟩ := (yields_headerToken heof).1 h
  exact (Spares.refl rest).cons (by rwa [hlexeme])

theorem sparesModules_headerWord : headerWord.SparesModules := by
  refine .bind sparesModules_peek fun token => ?_
  split
  · exact sparesModules_headerToken (by decide) (by decide)
  · exact sparesModules_fail _

theorem sparesModules_edition (start : Token) : (edition start).SparesModules := by
  refine .bind (sparesModules_headerToken (by decide) (by decide)) fun _ => ?_
  refine .bind (sparesModules_headerToken (by decide) (by decide)) fun _ => ?_
  refine .bind sparesModules_headerWord fun _ => ?_
  refine .bind (sparesModules_headerToken (by decide) (by decide)) fun _ => ?_
  refine .bind (sparesModules_headerToken (by decide) (by decide)) fun _ => ?_
  simp only
  split
  · exact sparesModules_fail _
  · refine .bind (sparesModules_expect (by decide) (by decide)) fun _ => ?_
    exact sparesModules_pure _

theorem yields_header {finish : Place} {given rest : List Lexeme} {e? : Option Edition}
    (h : header.Yields finish given e? rest) :
    given = rest ∨ ∃ lexeme mid e, given = lexeme :: mid ∧ lexeme.token.kind = .hash ∧
      e? = some e ∧ (edition lexeme.token).Yields finish mid e rest := by
  obtain ⟨token, mid, hpeek, h⟩ := yields_bind.1 h
  obtain ⟨rfl, rfl⟩ := yields_peek.1 hpeek
  split at h
  case isTrue hhash =>
    obtain ⟨lexeme, mid, rfl⟩ := exists_of_kind_nextToken (by decide) hhash
    obtain ⟨token, mid', hadvance, h⟩ := yields_bind.1 h
    obtain ⟨rfl, rfl⟩ := yields_advance_cons.1 hadvance
    obtain ⟨e, he, h⟩ := yields_orRecover.1 h
    exact .inr ⟨lexeme, _, e, rfl, hhash, he, h⟩
  case isFalse =>
    exact .inl (yields_pure.1 h).2

theorem sparesModules_header : header.SparesModules := by
  intro finish given e? rest hgiven h
  rcases yields_header h with rfl | ⟨lexeme, mid, e, rfl, hhash, -, h⟩
  · exact .refl _
  · have hedition := sparesModules_edition _ _ _ _ _ hgiven.tail h
    exact hedition.cons (by rw [hhash]; decide)

theorem sparesModules_useDecl (start : Token) : (useDecl start).SparesModules := by
  refine .bind sparesModules_path fun _ => ?_
  refine .bind (sparesModules_expect (by decide) (by decide)) fun _ => ?_
  exact sparesModules_pure _

/-! ## Modules -/

variable {finish : Place} {given rest : List Lexeme} {ms : List ModuleDecl}

/-- Where `module` stands among modules without errors, one of them starts. -/
theorem exists_module {start : Lexeme} {body : List Lexeme} (hstart : start.token.kind = .moduleWord)
    (hgiven : AllTokens given) (hbody : start :: body <:+ given)
    (h : Many (fun _ => true) (declaration .moduleWord g.moduleDecl) finish given ms rest) :
    ∃ m ∈ ms, ∃ rest', (g.moduleDecl start.token).Yields finish body m rest' := by
  induction h with
  | @nil given hmore =>
    cases given with
    | nil => simp at hbody
    | cons lexeme given => exact absurd (hmore lexeme rfl) (by decide)
  | @cons lexeme given mid rest m ms _ hm _ ih =>
    have hmodule := (yields_declaration.1 hm).2
    rcases List.suffix_cons_iff.1 hbody with heq | hbody
    · obtain ⟨rfl, rfl⟩ := List.cons.inj heq
      exact ⟨m, List.mem_cons_self, mid, hmodule⟩
    · have hspares := sparesModules_moduleDecl _ _ _ _ _ hgiven.tail hmodule
      obtain ⟨m', hm', hyields⟩ :=
        ih (hgiven.tail.of_suffix hspares.suffix) (hspares.keeps hstart hbody)
      exact ⟨m', List.mem_cons_of_mem m hm', hyields⟩

/-- Modules are named by identifiers of the text. -/
theorem exists_name (hgiven : AllTokens given)
    (h : Many (fun _ => true) (declaration .moduleWord g.moduleDecl) finish given ms rest) :
    ∀ m ∈ ms, ∃ lexeme ∈ given, lexeme.token.kind = .identifier ∧
      m.name.name = lexeme.token.lexeme := by
  induction h with
  | nil => simp
  | @cons lexeme given mid rest m ms _ hm _ ih =>
    have hmodule := (yields_declaration.1 hm).2
    have hspares := sparesModules_moduleDecl _ _ _ _ _ hgiven.tail hmodule
    intro m' hm'
    rcases List.mem_cons.1 hm' with rfl | hm'
    · obtain ⟨x, mid', hx, hmodule⟩ := yields_bind.1 hmodule
      obtain ⟨_, _, -, hmodule⟩ := yields_bind.1 hmodule
      obtain ⟨_, _, -, hmodule⟩ := yields_bind.1 hmodule
      obtain ⟨_, _, -, hmodule⟩ := yields_bind.1 hmodule
      obtain ⟨rfl, -⟩ := yields_pure.1 hmodule
      obtain ⟨name, rfl, hkind, rfl⟩ := yields_ident.1 hx
      exact ⟨name, by simp, hkind, rfl⟩
    · obtain ⟨name, hname, hkind, heq⟩ := ih (hgiven.tail.of_suffix hspares.suffix) m' hm'
      exact ⟨name, List.mem_cons_of_mem lexeme (hspares.suffix.subset hname), hkind, heq⟩

/-- The modules of a unit without errors are read from an end of its lexemes, before which no
`module` stands. -/
theorem yields_declarations {e? : Option Edition} {uses : List UseDecl} (hgiven : AllTokens given)
    (h : g.declarations.Yields finish given (e?, uses, ms) rest) :
    ∃ mid, Spares given mid ∧
      Many (fun _ => true) (declaration .moduleWord g.moduleDecl) finish mid ms rest := by
  obtain ⟨e, mid₁, he, h⟩ := yields_bind.1 h
  obtain ⟨us, mid₂, hus, h⟩ := yields_bind.1 h
  obtain ⟨ms', mid₃, hms, h⟩ := yields_bind.1 h
  obtain ⟨heq, rfl⟩ := yields_pure.1 h
  cases heq
  have hheader := sparesModules_header _ _ _ _ hgiven he
  have huses : Spares mid₁ mid₂ := by
    refine sparesModules_many sparesModules_useDecl ?_ _ _ _ _ (hgiven.of_suffix hheader.suffix) hus
    intro token _ _ _ _ huse _ hkind
    rw [hkind] at huse
    exact absurd huse (by decide)
  exact ⟨mid₂, hheader.trans huses, yields_many.1 hms⟩

end Grammar

/-- No module of a parsed text has a colon in its name. -/
theorem SourceUnit.colon_not_mem_of_parse {source : String} {u : SourceUnit}
    (h : SourceUnit.parse source = .ok u) : ∀ m ∈ u.modules, ':' ∉ m.name.name.toList := by
  obtain ⟨⟨rest, hyields⟩, herrors⟩ := SourceUnit.parse_eq_ok.1 ⟨u.span, h⟩
  have hgiven := AllTokens.ofChars herrors
  obtain ⟨mid, hspares, hmany⟩ := Grammar.yields_declarations hgiven hyields
  intro m hm hcolon
  obtain ⟨lexeme, hlexeme, hkind, hname⟩ :=
    Grammar.exists_name (hgiven.of_suffix hspares.suffix) hmany m hm
  have hword := Lexemes.worded _ _ lexeme (hspares.suffix.subset hlexeme) hkind
  rw [hname] at hcolon
  exact absurd (hword ':' hcolon) (by decide)

end TypedTemplate
