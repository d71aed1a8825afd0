-- SUMMARY: What lexemes spell: symbols, and the paths and types that are read from them.
import TypedTemplate.Proofs.Grammar.Local
import TypedTemplate.Proofs.Grammar.Symbol
import TypedTemplate.Proofs.Grammar.Yield

/-!
# Spelling

Lexemes spell symbols one by one, except that all lexemes of an expression spell one symbol. A
production is taken in both directions: what it yields is what its lexemes spell, and the lexemes
that spell a phrase are yielded as it, wherever the phrase does not go on behind them.
-/

namespace TypedTemplate

/-- The token is the symbol. -/
def Token.Is (token : Token) : Symbol → Prop
  | .mark kind => token.kind = kind
  | .name x    => token.kind = .identifier ∧ token.lexeme = x
  | .number n  => token.kind = .intLiteral ∧ Number.ofDigits token.lexeme.toList = n
  | .expr _    => False

/-- The lexemes of `given` before `rest` spell the symbols: one token each, but an expression is all
the lexemes that the expression parser takes for it by themselves. -/
inductive Spells (g : Grammar) : List Lexeme → List Symbol → List Lexeme → Prop where
  | nil {rest : List Lexeme} : Spells g rest [] rest
  | token {lexeme : Lexeme} {given rest : List Lexeme} {s : Symbol} {ss : List Symbol} :
      lexeme.token.Is s → Spells g given ss rest → Spells g (lexeme :: given) (s :: ss) rest
  | expr {used given rest : List Lexeme} {e : Expr} {ss : List Symbol} :
      (g.expr 0 used).Yields e [] → Spells g given ss rest →
        Spells g (used ++ given) (.expr e.bare :: ss) rest

section

variable {g : Grammar} {given mid rest : List Lexeme} {us vs ss : List Symbol} {s : Symbol}
  {kind : TokenKind} {x : String} {n : Nat} {e : Expr}

@[simp] theorem spells_nil : Spells g given [] rest ↔ given = rest := by
  constructor
  · rintro ⟨⟩
    rfl
  · rintro rfl
    exact .nil

theorem spells_token (hs : ∀ e, s ≠ .expr e) : Spells g given (s :: ss) rest ↔
    ∃ lexeme mid, given = lexeme :: mid ∧ lexeme.token.Is s ∧ Spells g mid ss rest := by
  constructor
  · intro h
    cases h with
    | token hlexeme hrest => exact ⟨_, _, rfl, hlexeme, hrest⟩
    | expr _ _ => exact absurd rfl (hs _)
  · rintro ⟨lexeme, mid, rfl, hlexeme, hrest⟩
    exact .token hlexeme hrest

@[simp] theorem spells_mark : Spells g given (.mark kind :: ss) rest ↔
    ∃ lexeme mid, given = lexeme :: mid ∧ lexeme.token.kind = kind ∧ Spells g mid ss rest :=
  spells_token (by simp)

@[simp] theorem spells_name : Spells g given (.name x :: ss) rest ↔
    ∃ lexeme mid, given = lexeme :: mid ∧
      (lexeme.token.kind = .identifier ∧ lexeme.token.lexeme = x) ∧ Spells g mid ss rest :=
  spells_token (by simp)

@[simp] theorem spells_number : Spells g given (.number n :: ss) rest ↔
    ∃ lexeme mid, given = lexeme :: mid ∧
      (lexeme.token.kind = .intLiteral ∧ Number.ofDigits lexeme.token.lexeme.toList = n) ∧
        Spells g mid ss rest :=
  spells_token (by simp)

@[simp] theorem spells_expr : Spells g given (.expr e :: ss) rest ↔
    ∃ used mid e', given = used ++ mid ∧ (g.expr 0 used).Yields e' [] ∧ e'.bare = e ∧
      Spells g mid ss rest := by
  constructor
  · intro h
    cases h with
    | token hlexeme _ => exact hlexeme.elim
    | expr he hrest => exact ⟨_, _, _, rfl, he, rfl, hrest⟩
  · rintro ⟨used, mid, e', rfl, he, rfl, hrest⟩
    exact .expr he hrest

theorem Spells.trans (h : Spells g given us mid) (h' : Spells g mid vs rest) :
    Spells g given (us ++ vs) rest := by
  induction h with
  | nil => exact h'
  | token hlexeme _ ih => exact .token hlexeme (ih h')
  | expr he _ ih => exact .expr he (ih h')

theorem spells_append : Spells g given (us ++ vs) rest ↔
    ∃ mid, Spells g given us mid ∧ Spells g mid vs rest := by
  constructor
  · intro h
    induction us generalizing given with
    | nil => exact ⟨given, .nil, h⟩
    | cons s us ih =>
      cases h with
      | token hlexeme hrest =>
        obtain ⟨mid, hus, hvs⟩ := ih hrest
        exact ⟨mid, .token hlexeme hus, hvs⟩
      | expr he hrest =>
        obtain ⟨mid, hus, hvs⟩ := ih hrest
        exact ⟨mid, .expr he hus, hvs⟩
  · rintro ⟨mid, hus, hvs⟩
    exact hus.trans hvs

/-- What is true of a kind is true of the next lexeme where a token of the kind is spelled. -/
theorem Spells.head {P : TokenKind → Prop} (h : Spells g given (.mark kind :: ss) rest)
    (hkind : P kind) : ∀ lexeme ∈ given.head?, P lexeme.token.kind := by
  obtain ⟨lexeme, mid, rfl, rfl, -⟩ := spells_mark.1 h
  simpa using hkind

end

namespace Grammar

open Parse

variable {g : Grammar} {finish : Place} {given mid rest : List Lexeme}

theorem spells_of_ident {x : Ident} (h : ident.Yields finish given x rest) :
    Spells g given [.name x.name] rest := by
  obtain ⟨lexeme, rfl, hkind, rfl⟩ := yields_ident.1 h
  exact .token ⟨hkind, rfl⟩ .nil

theorem spells_of_expect {kind : TokenKind} {token : Token} (hkind : kind ≠ .eof)
    (h : (expect kind).Yields finish given token rest) : Spells g given [.mark kind] rest := by
  obtain ⟨lexeme, rfl, rfl, hlexeme⟩ := (yields_expect hkind).1 h
  exact .token hlexeme .nil

theorem exists_ident (finish : Place) {x : String} {ss : List Symbol}
    (h : Spells g given (.name x :: ss) rest) :
    ∃ span mid, ident.Yields finish given ⟨x, span⟩ mid ∧ Spells g mid ss rest := by
  obtain ⟨lexeme, mid, rfl, ⟨hkind, rfl⟩, hrest⟩ := spells_name.1 h
  exact ⟨_, mid, yields_ident.2 ⟨lexeme, rfl, hkind, rfl⟩, hrest⟩

theorem exists_expect (finish : Place) {kind : TokenKind} {ss : List Symbol} (hkind : kind ≠ .eof)
    (h : Spells g given (.mark kind :: ss) rest) :
    ∃ token mid, (expect kind).Yields finish given token mid ∧ Spells g mid ss rest := by
  obtain ⟨lexeme, mid, rfl, hlexeme, hrest⟩ := spells_mark.1 h
  exact ⟨_, mid, (yields_expect hkind).2 ⟨lexeme, rfl, rfl, hlexeme⟩, hrest⟩

/-! ## Paths -/

/-- The symbols of the further segments of a path. -/
def segmentSymbols (xs : List Ident) : List Symbol :=
  xs.flatMap fun x => [.mark .colonColon, .name x.name]

theorem symbols_path (x : Ident) (xs : List Ident) (span : Span) :
    Path.symbols ⟨x :: xs, span⟩ = .name x.name :: segmentSymbols xs := by
  induction xs generalizing x with
  | nil => simp [Path.symbols, segmentSymbols]
  | cons y ys ih =>
    have hrest := ih y
    simp_all [Path.symbols, segmentSymbols, List.intercalate_cons_cons]

theorem segmentsOnto_spells {given rest : List Lexeme} {out xs : List Ident}
    (h : (segmentsOnto finish out given).Yields xs rest) :
    ∃ more, xs = out.reverse ++ more ∧ Spells g given (segmentSymbols more) rest := by
  cases given with
  | nil =>
    rw [segmentsOnto] at h
    obtain ⟨rfl, rfl⟩ := Reply.yields_ok.1 h
    exact ⟨[], by simp, .nil⟩
  | cons lexeme given =>
    rw [segmentsOnto] at h
    split at h
    case isTrue hcolons =>
      obtain ⟨x, mid, hle, hx, h⟩ := Reply.yields_andThen.1 (Reply.yields_taking.1 h)
      obtain ⟨more, rfl, hmore⟩ := segmentsOnto_spells h
      exact ⟨x :: more, by simp, .token hcolons ((spells_of_ident hx).trans hmore)⟩
    case isFalse =>
      obtain ⟨rfl, rfl⟩ := Reply.yields_ok.1 h
      exact ⟨[], by simp, .nil⟩
termination_by given.length
decreasing_by subst_vars; simp only [List.length_cons]; omega

theorem exists_segmentsOnto (finish : Place) (out : List Ident) {xs : List Ident}
    (h : Spells g given (segmentSymbols xs) rest)
    (hrest : ∀ lexeme ∈ rest.head?, lexeme.token.kind ≠ .colonColon) :
    ∃ ys, ys.map (·.name) = xs.map (·.name) ∧
      (segmentsOnto finish out given).Yields (out.reverse ++ ys) rest := by
  induction xs generalizing given out with
  | nil =>
    obtain rfl := spells_nil.1 h
    refine ⟨[], rfl, ?_⟩
    rw [segmentsOnto.eq_def]
    cases given with
    | nil => exact Reply.yields_ok.2 ⟨by simp, rfl⟩
    | cons lexeme given =>
      simp only [if_neg (hrest lexeme rfl)]
      exact Reply.yields_ok.2 ⟨by simp, rfl⟩
  | cons x xs ih =>
    obtain ⟨lexeme, mid, rfl, hcolons, h⟩ := spells_mark.1 h
    obtain ⟨span, mid', hx, h⟩ := exists_ident finish h
    obtain ⟨ys, hys, hyields⟩ := ih (⟨x.name, span⟩ :: out) h
    refine ⟨⟨x.name, span⟩ :: ys, by simp [hys], ?_⟩
    rw [segmentsOnto, if_pos hcolons]
    refine Reply.yields_taking.2 (Reply.Yields.andThen hx ?_)
    simpa using hyields

theorem path_spells {p : Path} (h : path.Yields finish given p rest) :
    Spells g given p.symbols rest ∧ p.Named := by
  obtain ⟨first, mid, hfirst, h⟩ := yields_bind.1 h
  obtain ⟨xs, mid', hxs, h⟩ := yields_bind.1 h
  obtain ⟨rfl, rfl⟩ := yields_pure.1 h
  obtain ⟨more, rfl, hmore⟩ := segmentsOnto_spells hxs
  refine ⟨?_, by simp [Path.Named]⟩
  rw [List.reverse_singleton, List.singleton_append, symbols_path]
  exact (spells_of_ident hfirst).trans hmore

theorem exists_path (finish : Place) {p : Path} (hp : p.Named) (h : Spells g given p.symbols rest)
    (hrest : ∀ lexeme ∈ rest.head?, lexeme.token.kind ≠ .colonColon) :
    ∃ p', p'.bare = p.bare ∧ path.Yields finish given p' rest := by
  obtain ⟨segments, span⟩ := p
  obtain ⟨x, xs, rfl⟩ := List.exists_cons_of_ne_nil hp
  rw [symbols_path] at h
  obtain ⟨span, mid, hx, h⟩ := exists_ident finish h
  obtain ⟨ys, hys, hyields⟩ := exists_segmentsOnto finish [⟨x.name, span⟩] h hrest
  have hbare : ys.map (fun x : Ident => (⟨x.name, .nowhere⟩ : Ident)) =
      xs.map fun x => ⟨x.name, .nowhere⟩ := by
    have hnames := congrArg (List.map fun x => (⟨x, .nowhere⟩ : Ident)) hys
    rwa [List.map_map, List.map_map] at hnames
  refine ⟨_, ?_, yields_bind.2 ⟨_, mid, hx,
    yields_bind.2 ⟨_, rest, hyields, yields_pure.2 ⟨rfl, rfl⟩⟩⟩⟩
  simp [Path.bare, hbare]

/-! ## Types -/

/-- Behind an item a comma calls for more, and anything else ends the list. -/
theorem yields_commas {α β : Type} {first : Reply given α} {last : α → β}
    {next : α → (rest : List Lexeme) → Reply rest β} {b : β} :
    (first.andThen fun a rest _ =>
      match rest with
      | []             => .ok (last a)
      | lexeme :: rest =>
        if lexeme.token.kind = .comma then (next a rest).taking else .ok (last a)).Yields b rest ↔
      ∃ a mid, first.Yields a mid ∧
        (((∀ lexeme ∈ mid.head?, lexeme.token.kind ≠ .comma) ∧ b = last a ∧ mid = rest) ∨
          ∃ comma mid', mid = comma :: mid' ∧ comma.token.kind = .comma ∧
            (next a mid').Yields b rest) := by
  rw [Reply.yields_andThen]
  constructor
  · rintro ⟨a, mid, hle, ha, h⟩
    refine ⟨a, mid, ha, ?_⟩
    cases mid with
    | nil =>
      obtain ⟨rfl, rfl⟩ := Reply.yields_ok.1 h
      exact .inl ⟨by simp, rfl, rfl⟩
    | cons comma mid =>
      simp only at h
      split at h
      case isTrue hcomma => exact .inr ⟨comma, mid, rfl, hcomma, Reply.yields_taking.1 h⟩
      case isFalse hcomma =>
        obtain ⟨rfl, rfl⟩ := Reply.yields_ok.1 h
        exact .inl ⟨by simpa using hcomma, rfl, rfl⟩
  · rintro ⟨a, mid, ha, ⟨hcomma, rfl, rfl⟩ | ⟨comma, mid', rfl, hcomma, h⟩⟩
    · refine ⟨a, mid, ha.length_le, ha, ?_⟩
      cases mid with
      | nil => exact Reply.yields_ok.2 ⟨rfl, rfl⟩
      | cons comma mid =>
        simp only [if_neg (hcomma comma rfl)]
        exact Reply.yields_ok.2 ⟨rfl, rfl⟩
    · refine ⟨a, _, ha.length_le, ha, ?_⟩
      simp only [if_pos hcomma]
      exact Reply.yields_taking.2 h

theorem yields_typeRef {t : TypeRef} : (typeRef finish given).Yields t rest ↔
    ∃ p mid, path.Yields finish given p mid ∧
      (((∀ lexeme ∈ mid.head?, lexeme.token.kind ≠ .less) ∧
          t = .mk p [] (p.span.merge (lastSpan p)) ∧ mid = rest) ∨
        ∃ opening mid' args mid'' close, mid = opening :: mid' ∧ opening.token.kind = .less ∧
          (typeArgsOnto finish [] mid').Yields args mid'' ∧
            (expect .greater).Yields finish mid'' close rest ∧
              t = .mk p args (p.span.merge close.span)) := by
  rw [typeRef]
  constructor
  · intro h
    split at h
    case isTrue => exact absurd h Reply.yields_fail
    case isFalse =>
      obtain ⟨p, mid, hle, hp, h⟩ := Reply.yields_andThen.1 h
      refine ⟨p, mid, hp, ?_⟩
      cases mid with
      | nil =>
        obtain ⟨rfl, rfl⟩ := Reply.yields_ok.1 h
        exact .inl ⟨by simp, rfl, rfl⟩
      | cons opening mid =>
        simp only at h
        split at h
        case isTrue hless =>
          obtain ⟨args, mid'', -, hargs, h⟩ := Reply.yields_andThen.1 (Reply.yields_taking.1 h)
          obtain ⟨close, rest', -, hclose, h⟩ := Reply.yields_andThen.1 h
          obtain ⟨rfl, rfl⟩ := Reply.yields_ok.1 h
          exact .inr ⟨opening, mid, args, mid'', close, rfl, hless, hargs, hclose, rfl⟩
        case isFalse hless =>
          obtain ⟨rfl, rfl⟩ := Reply.yields_ok.1 h
          exact .inl ⟨by simpa using hless, rfl, rfl⟩
  · rintro ⟨p, mid, hp, h⟩
    -- A type is looked for only where a name comes next, and a path starts with one.
    obtain ⟨first, _, hfirst, -⟩ := yields_bind.1 hp
    obtain ⟨lexeme, rfl, hkind, -⟩ := yields_ident.1 hfirst
    simp only [List.head?_cons, Option.map_some, Option.getD_some, hkind, ne_eq, not_true_eq_false,
      if_false]
    refine Reply.Yields.andThen hp ?_
    rcases h with ⟨hless, rfl, rfl⟩ |
      ⟨opening, mid', args, mid'', close, rfl, hless, hargs, hclose, rfl⟩
    · cases mid with
      | nil => exact Reply.yields_ok.2 ⟨rfl, rfl⟩
      | cons opening mid =>
        simp only [if_neg (hless opening rfl)]
        exact Reply.yields_ok.2 ⟨rfl, rfl⟩
    · simp only [if_pos hless]
      refine Reply.yields_taking.2 ?_
      refine Reply.Yields.andThen hargs ?_
      refine Reply.Yields.andThen hclose ?_
      exact Reply.yields_ok.2 ⟨rfl, rfl⟩

theorem yields_typeArgsOnto {out ts : List TypeRef} :
    (typeArgsOnto finish out given).Yields ts rest ↔
      ∃ t mid, (typeRef finish given).Yields t mid ∧
        (((∀ lexeme ∈ mid.head?, lexeme.token.kind ≠ .comma) ∧ ts = (t :: out).reverse ∧
            mid = rest) ∨
          ∃ comma mid', mid = comma :: mid' ∧ comma.token.kind = .comma ∧
            (typeArgsOnto finish (t :: out) mid').Yields ts rest) := by
  rw [typeArgsOnto]
  exact yields_commas

mutual

theorem typeRef_spells {given rest : List Lexeme} {t : TypeRef}
    (h : (typeRef finish given).Yields t rest) : Spells g given t.symbols rest ∧ t.Named := by
  obtain ⟨p, mid, hp, h⟩ := yields_typeRef.1 h
  obtain ⟨hpath, hnamed⟩ := path_spells (g := g) hp
  have hle := hp.length_le
  rcases h with ⟨-, rfl, rfl⟩ | ⟨opening, mid', args, mid'', close, rfl, hless, hargs, hclose, rfl⟩
  · exact ⟨hpath, hnamed, trivial⟩
  · obtain ⟨t, more, rfl, hmore, hnameds⟩ := typeArgsOnto_spells hargs
    refine ⟨?_, hnamed, hnameds⟩
    rw [List.reverse_nil, List.nil_append, TypeRef.symbols, List.append_assoc]
    exact hpath.trans (.token hless (hmore.trans (spells_of_expect (by decide) hclose)))
termination_by 2 * given.length
decreasing_by subst_vars; simp only [List.length_cons] at *; omega

theorem typeArgsOnto_spells {given rest : List Lexeme} {out ts : List TypeRef}
    (h : (typeArgsOnto finish out given).Yields ts rest) :
    ∃ t more, ts = out.reverse ++ t :: more ∧
      Spells g given (TypeRef.listSymbols (t :: more)) rest ∧ TypeRef.AllNamed (t :: more) := by
  obtain ⟨t, mid, ht, h⟩ := yields_typeArgsOnto.1 h
  obtain ⟨hsymbols, hnamed⟩ := typeRef_spells ht
  have hle := ht.length_le
  rcases h with ⟨-, rfl, rfl⟩ | ⟨comma, mid', rfl, hcomma, h⟩
  · exact ⟨t, [], by simp, hsymbols, hnamed, trivial⟩
  · obtain ⟨t', more, rfl, hmore, hnameds⟩ := typeArgsOnto_spells h
    exact ⟨t, t' :: more, by simp, hsymbols.trans (.token hcomma hmore), hnamed, hnameds⟩
termination_by 2 * given.length + 1
decreasing_by all_goals subst_vars; simp only [List.length_cons] at *; omega

end

/-- What comes next does not go on a type. -/
def EndsType (given : List Lexeme) : Prop :=
  ∀ lexeme ∈ given.head?, lexeme.token.kind ≠ .colonColon ∧ lexeme.token.kind ≠ .less

mutual

theorem exists_typeRef (finish : Place) {given rest : List Lexeme} (t : TypeRef) (ht : t.Named)
    (h : Spells g given t.symbols rest) (hrest : EndsType rest) :
    ∃ t', t'.bare = t.bare ∧ (typeRef finish given).Yields t' rest := by
  match t with
  | .mk p [] span =>
    obtain ⟨p', hbare, hp⟩ :=
      exists_path finish ht.1 h fun lexeme hlexeme => (hrest lexeme hlexeme).1
    refine ⟨_, ?_, yields_typeRef.2 ⟨p', rest, hp, .inl ⟨?_, rfl, rfl⟩⟩⟩
    · simp [TypeRef.bare, TypeRef.bareAll, hbare]
    · exact fun lexeme hlexeme => (hrest lexeme hlexeme).2
  | .mk p (t :: ts) span =>
    rw [TypeRef.symbols, List.append_assoc] at h
    obtain ⟨mid, hpath, h⟩ := spells_append.1 h
    obtain ⟨p', hbare, hp⟩ :=
      exists_path finish ht.1 hpath (h.head (P := (· ≠ .colonColon)) (by decide))
    obtain ⟨opening, mid', rfl, hless, h⟩ := spells_mark.1 h
    obtain ⟨mid'', hargs, hclose⟩ := spells_append.1 h
    obtain ⟨args, hbares, hyields⟩ :=
      exists_typeArgsOnto finish [] t ts ht.2 hargs (hclose.head (P := (· = .greater)) rfl)
    obtain ⟨close, rest', hexpect, hnil⟩ := exists_expect finish (by decide) hclose
    obtain rfl := spells_nil.1 hnil
    refine ⟨_, ?_, yields_typeRef.2 ⟨p', _, hp, .inr ⟨opening, mid', _, mid'', close, rfl, hless,
      hyields, hexpect, rfl⟩⟩⟩
    simp [TypeRef.bare, hbare, hbares]
termination_by sizeOf t

theorem exists_typeArgsOnto (finish : Place) {given rest : List Lexeme} (out : List TypeRef)
    (t : TypeRef) (ts : List TypeRef) (hts : TypeRef.AllNamed (t :: ts))
    (h : Spells g given (TypeRef.listSymbols (t :: ts)) rest)
    (hrest : ∀ lexeme ∈ rest.head?, lexeme.token.kind = .greater) :
    ∃ ts', TypeRef.bareAll ts' = TypeRef.bareAll (t :: ts) ∧
      (typeArgsOnto finish out given).Yields (out.reverse ++ ts') rest := by
  match ts with
  | [] =>
    obtain ⟨t', hbare, ht⟩ := exists_typeRef finish t hts.1 h
      fun lexeme hlexeme => hrest lexeme hlexeme ▸ by decide
    refine ⟨[t'], by simp [TypeRef.bareAll, hbare], yields_typeArgsOnto.2 ⟨t', rest, ht, .inl ?_⟩⟩
    exact ⟨fun lexeme hlexeme => hrest lexeme hlexeme ▸ by decide, by simp, rfl⟩
  | t₂ :: ts =>
    obtain ⟨mid, hfirst, h⟩ := spells_append.1 h
    obtain ⟨t', hbare, ht⟩ := exists_typeRef finish t hts.1 hfirst
      (h.head (P := fun kind => kind ≠ .colonColon ∧ kind ≠ .less) (by decide))
    obtain ⟨comma, mid', rfl, hcomma, h⟩ := spells_mark.1 h
    obtain ⟨ts', hbares, hyields⟩ := exists_typeArgsOnto finish (t' :: out) t₂ ts hts.2 h hrest
    refine ⟨t' :: ts', by rw [TypeRef.bareAll, TypeRef.bareAll, hbare, hbares], ?_⟩
    refine yields_typeArgsOnto.2 ⟨t', _, ht, .inr ⟨comma, mid', rfl, hcomma, ?_⟩⟩
    simpa using hyields
termination_by sizeOf t + sizeOf ts

end

end Grammar

end TypedTemplate
