-- SUMMARY: What a parser yields: its result and the lexemes left, when nothing went wrong on the way.
import TypedTemplate.Grammar.Unit

/-!
# Yields

A reply yields a result when the parser succeeded and recorded no error. A parser
put together from others yields something only if each of them does, so the parse
of a text without errors can be taken apart production by production.
-/

namespace TypedTemplate

namespace Reply

variable {given outer : List Lexeme} {α β : Type} {a : α} {b : β} {rest : List Lexeme}

/-- The parser succeeded with `a`, left `rest` and recorded no error. -/
def Yields (r : Reply given α) (a : α) (rest : List Lexeme) : Prop :=
  r.result = .ok a ∧ r.rest = rest ∧ r.recorded = []

@[simp] theorem yields_mk_error {e : ParseError} {es : List ParseError}
    {h : rest.length ≤ given.length} {rest' : List Lexeme} :
    ¬ (⟨.error e, rest, es, h⟩ : Reply given α).Yields a rest' := by
  simp [Yields]

@[simp] theorem yields_mk_ok {a' : α} {es : List ParseError} {rest' : List Lexeme}
    {h : rest.length ≤ given.length} :
    (⟨.ok a', rest, es, h⟩ : Reply given α).Yields a rest' ↔ a' = a ∧ rest = rest' ∧ es = [] := by
  simp [Yields]

@[simp] theorem yields_ok {a' : α} :
    (ok a' : Reply given α).Yields a rest ↔ a' = a ∧ given = rest := by
  simp [ok]

@[simp] theorem yields_fail {e : ParseError} : ¬ (fail e : Reply given α).Yields a rest := by
  simp [fail]

@[simp] theorem yields_recording {es : List ParseError} {r : Reply given α} :
    (r.recording es).Yields a rest ↔ es = [] ∧ r.Yields a rest := by
  simp only [Yields, recording, List.append_eq_nil_iff]
  grind

@[simp] theorem yields_widen {r : Reply given α} {h : given.length ≤ outer.length} :
    (r.widen h).Yields a rest ↔ r.Yields a rest := .rfl

@[simp] theorem yields_taking {r : Reply given α} {lexeme : Lexeme} :
    (r.taking : Reply (lexeme :: given) α).Yields a rest ↔ r.Yields a rest := .rfl

@[simp] theorem yields_andThen {r : Reply given α}
    {next : α → (rest : List Lexeme) → rest.length ≤ given.length → Reply rest β} :
    (r.andThen next).Yields b rest ↔
      ∃ a mid, ∃ h : mid.length ≤ given.length, r.Yields a mid ∧ (next a mid h).Yields b rest := by
  obtain ⟨result, left, recorded, h⟩ := r
  cases result with
  | error e => simp [andThen]
  | ok a =>
    simp only [andThen, yields_widen, yields_recording, yields_mk_ok]
    constructor
    · rintro ⟨rfl, hnext⟩
      exact ⟨a, left, h, ⟨rfl, rfl, rfl⟩, hnext⟩
    · rintro ⟨_, _, _, ⟨rfl, rfl, rfl⟩, hnext⟩
      exact ⟨rfl, hnext⟩

theorem Yields.length_le {r : Reply given α} (h : r.Yields a rest) :
    rest.length ≤ given.length := by
  obtain ⟨-, rfl, -⟩ := h
  exact r.le

theorem Yields.andThen {r : Reply given α} {mid : List Lexeme} (h : r.Yields a mid)
    {next : α → (rest : List Lexeme) → rest.length ≤ given.length → Reply rest β}
    (hnext : (next a mid h.length_le).Yields b rest) : (r.andThen next).Yields b rest :=
  yields_andThen.2 ⟨a, mid, h.length_le, h, hnext⟩

end Reply

namespace Parse

variable {α β : Type} {a : α} {b : β} {finish : Place} {given rest : List Lexeme} {lexeme : Lexeme}
  {kind : TokenKind} {token : Token}

/-- The parser yields `a` from `given` and leaves `rest`. -/
def Yields (p : Parse α) (finish : Place) (given : List Lexeme) (a : α) (rest : List Lexeme) :
    Prop :=
  Reply.Yields (p finish given) a rest

@[simp] theorem yields_pure {a' : α} :
    (pure a' : Parse α).Yields finish given a rest ↔ a' = a ∧ given = rest :=
  Reply.yields_ok

@[simp] theorem yields_bind {p : Parse α} {next : α → Parse β} :
    (p >>= next).Yields finish given b rest ↔
      ∃ a mid, p.Yields finish given a mid ∧ (next a).Yields finish mid b rest := by
  refine Reply.yields_andThen.trans ⟨?_, ?_⟩
  · rintro ⟨a, mid, -, hp, hnext⟩
    exact ⟨a, mid, hp, hnext⟩
  · rintro ⟨a, mid, hp, hnext⟩
    exact ⟨a, mid, Reply.Yields.length_le hp, hp, hnext⟩

@[simp] theorem yields_fail {e : ParseError} : ¬ (fail e : Parse α).Yields finish given a rest :=
  Reply.yields_fail

/-- The next token, or the end token. -/
def nextToken (finish : Place) (given : List Lexeme) : Token :=
  (given.head?.map (·.token)).getD (.eof finish)

@[simp] theorem nextToken_cons : nextToken finish (lexeme :: rest) = lexeme.token := rfl

@[simp] theorem yields_peek :
    peek.Yields finish given token rest ↔ nextToken finish given = token ∧ given = rest := by
  cases given <;> exact Reply.yields_ok

@[simp] theorem yields_advance_cons :
    advance.Yields finish (lexeme :: given) token rest ↔ lexeme.token = token ∧ given = rest :=
  Reply.yields_taking.trans Reply.yields_ok

/-- A token of a kind is there to be taken, unless the kind is that of the end token. -/
theorem exists_of_kind_nextToken (hkind : kind ≠ .eof)
    (h : (nextToken finish given).kind = kind) : ∃ lexeme rest, given = lexeme :: rest := by
  cases given with
  | nil => exact absurd h.symm hkind
  | cons lexeme rest => exact ⟨lexeme, rest, rfl⟩

/-- What a parser yields that takes the next token if it is of a kind and else stops. -/
theorem yields_take {otherwise : Token → Parse Token} (hkind : kind ≠ .eof)
    (hfail : ∀ t given a rest, ¬ (otherwise t).Yields finish given a rest) :
    (peek >>= fun t => if t.kind = kind then advance else otherwise t).Yields finish given token
        rest ↔
      ∃ lexeme, given = lexeme :: rest ∧ lexeme.token = token ∧ token.kind = kind := by
  simp only [yields_bind, yields_peek]
  constructor
  · rintro ⟨_, _, ⟨rfl, rfl⟩, h⟩
    split at h
    · rename_i hnext
      obtain ⟨lexeme, given, rfl⟩ := exists_of_kind_nextToken hkind hnext
      obtain ⟨rfl, rfl⟩ := yields_advance_cons.1 h
      exact ⟨lexeme, rfl, rfl, hnext⟩
    · exact absurd h (hfail _ _ _ _)
  · rintro ⟨lexeme, rfl, rfl, hlexeme⟩
    refine ⟨_, _, ⟨rfl, rfl⟩, ?_⟩
    rw [nextToken_cons, if_pos hlexeme]
    exact yields_advance_cons.2 ⟨rfl, rfl⟩

theorem yields_expect (hkind : kind ≠ .eof) :
    (expect kind).Yields finish given token rest ↔
      ∃ lexeme, given = lexeme :: rest ∧ lexeme.token = token ∧ token.kind = kind := by
  refine yields_take hkind ?_
  intro t given a rest
  split <;> exact yields_fail

theorem yields_ident {x : Ident} :
    ident.Yields finish given x rest ↔
      ∃ lexeme, given = lexeme :: rest ∧ lexeme.token.kind = .identifier ∧
        x = ⟨lexeme.token.lexeme, lexeme.token.span⟩ := by
  simp only [ident, yields_bind, yields_peek]
  constructor
  · rintro ⟨_, _, ⟨rfl, rfl⟩, h⟩
    split at h
    · rename_i hnext
      obtain ⟨lexeme, given, rfl⟩ := exists_of_kind_nextToken (by decide) hnext
      simp only [yields_bind, yields_advance_cons, yields_pure] at h
      obtain ⟨_, _, ⟨rfl, rfl⟩, rfl, rfl⟩ := h
      exact ⟨lexeme, rfl, hnext, rfl⟩
    · exact absurd h yields_fail
  · rintro ⟨lexeme, rfl, hlexeme, rfl⟩
    refine ⟨_, _, ⟨rfl, rfl⟩, ?_⟩
    rw [nextToken_cons, if_pos hlexeme]
    exact yields_bind.2 ⟨_, _, yields_advance_cons.2 ⟨rfl, rfl⟩, yields_pure.2 ⟨rfl, rfl⟩⟩

/-! ## Repetition -/

/-- Items are read one after another as long as the next token's kind satisfies `more`. -/
inductive Many (more : TokenKind → Bool) (item : Token → Parse α) (finish : Place) :
    List Lexeme → List α → List Lexeme → Prop where
  | nil {given : List Lexeme} :
      (∀ lexeme ∈ given.head?, more lexeme.token.kind = false) → Many more item finish given [] given
  | cons {lexeme : Lexeme} {given mid rest : List Lexeme} {a : α} {as : List α} :
      more lexeme.token.kind = true → (item lexeme.token).Yields finish given a mid →
        Many more item finish mid as rest →
          Many more item finish (lexeme :: given) (a :: as) rest

variable {more : TokenKind → Bool} {item : Token → Parse α} {recover : Parse PUnit}

theorem yields_orRecover {p : Parse α} {a? : Option α} :
    (p.orRecover recover).Yields finish given a? rest ↔
      ∃ a, a? = some a ∧ p.Yields finish given a rest := by
  unfold Yields orRecover
  obtain ⟨result, left, recorded, h⟩ := p finish given
  cases result <;> simp
  grind

theorem many_nil_iff {as : List α} :
    Many more item finish [] as rest ↔ as = [] ∧ rest = [] := by
  constructor
  · intro h
    cases h
    exact ⟨rfl, rfl⟩
  · rintro ⟨rfl, rfl⟩
    exact .nil (by simp)

theorem many_cons_iff {as : List α} :
    Many more item finish (lexeme :: given) as rest ↔
      (more lexeme.token.kind = false ∧ as = [] ∧ rest = lexeme :: given) ∨
        (more lexeme.token.kind = true ∧ ∃ a as' mid, as = a :: as' ∧
          (item lexeme.token).Yields finish given a mid ∧ Many more item finish mid as' rest) := by
  constructor
  · intro h
    cases h with
    | nil hmore => exact .inl ⟨hmore lexeme rfl, rfl, rfl⟩
    | cons hmore hitem hrest => exact .inr ⟨hmore, _, _, _, rfl, hitem, hrest⟩
  · rintro (⟨hmore, rfl, rfl⟩ | ⟨hmore, a, as', mid, rfl, hitem, hrest⟩)
    · exact .nil (by simpa using hmore)
    · exact .cons hmore hitem hrest

theorem yields_manyOnto {out as : List α} {recorded : List ParseError}
    {given rest outer : List Lexeme} (h : given.length ≤ outer.length) :
    (manyOnto more item recover finish out recorded given h).Yields as rest ↔
      recorded = [] ∧ ∃ as', as = out.reverse ++ as' ∧ Many more item finish given as' rest := by
  cases given with
  | nil =>
    rw [manyOnto]
    simp only [Reply.yields_mk_ok, many_nil_iff, List.reverse_eq_nil_iff]
    grind
  | cons lexeme given =>
    rw [manyOnto]
    simp only [many_cons_iff]
    cases hmore : more lexeme.token.kind with
    | false =>
      simp only [Bool.false_eq_true, if_false, Reply.yields_mk_ok, List.reverse_eq_nil_iff]
      grind
    | true =>
      simp only [if_true, orRecover]
      unfold Yields
      cases hreply : item lexeme.token finish given with
      | mk result left found hle =>
        cases result with
        | error e =>
          have hrecover := (recover finish left).le
          refine (yields_manyOnto _).trans ?_
          simp
        | ok a =>
          refine (yields_manyOnto _).trans ?_
          simp only [Reply.yields_mk_ok, List.append_eq_nil_iff, List.reverse_eq_nil_iff,
            List.reverse_cons, List.append_assoc, List.singleton_append]
          grind
termination_by given.length
decreasing_by all_goals subst_vars; simp only [List.length_cons]; omega

theorem yields_many {as : List α} :
    (many more item recover).Yields finish given as rest ↔ Many more item finish given as rest := by
  refine (yields_manyOnto (Reply.all_left given)).trans ?_
  simp

theorem yields_declaration {body : Token → Parse α} :
    (declaration kind body token).Yields finish given a rest ↔
      token.kind = kind ∧ (body token).Yields finish given a rest := by
  unfold declaration
  split
  · simp [*]
  · simp [*]

end Parse

/-- A unit is parsed when its lexemes yield its declarations and none of them is faulty. -/
theorem SourceUnit.parse_eq_ok {text : String} {e? : Option Edition} {uses : List UseDecl}
    {ms : List ModuleDecl} :
    (∃ span, parse text = .ok ⟨e?, uses, ms, span⟩) ↔
      (∃ rest, (Grammar.ofText text.length (Lexemes.ofChars .first text.toList).finish).declarations.Yields
        (Lexemes.ofChars .first text.toList).finish (Lexemes.ofChars .first text.toList).lexemes
        (e?, uses, ms) rest) ∧
      ∀ lexeme ∈ (Lexemes.ofChars .first text.toList).lexemes, lexeme.errors = [] := by
  unfold parse Parse.Yields Reply.Yields
  simp only
  generalize (Grammar.ofText _ _).declarations _ _ = reply
  obtain ⟨result, rest, recorded, h⟩ := reply
  cases result with
  | error e => simp
  | ok declared =>
    obtain ⟨e', uses', ms'⟩ := declared
    have hfaultless : (Lexemes.ofChars .first text.toList).lexemes.flatMap
        (fun lexeme => lexeme.errors.map ParseError.ofLexError) = [] ↔
          ∀ lexeme ∈ (Lexemes.ofChars .first text.toList).lexemes, lexeme.errors = [] := by
      simp
    simp only [← hfaultless, Except.ok.injEq]
    generalize (Lexemes.ofChars .first text.toList).lexemes.flatMap
      (fun lexeme => lexeme.errors.map ParseError.ofLexError) = faults
    cases faults <;> cases recorded <;> simp

end TypedTemplate
