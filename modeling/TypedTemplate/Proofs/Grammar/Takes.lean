-- SUMMARY: Units whose tokens are known up to the template's literal are parsed, production by production.
import TypedTemplate.Proofs.Grammar.Opening

/-!
# Takes

A parser takes tokens when it succeeds on every list of lexemes that has them, wherever
they stand, and records no errors but known ones. The rules follow the productions: to take
what two parsers take, one after the other, is to take it all.
-/

namespace TypedTemplate

open Grammar

/-! ## Recorded errors -/

namespace Reply

variable {given mid rest : List Lexeme} {α β : Type} {a : α} {b : β} {es es' : List ParseError}

/-- The parser succeeded with `a`, left `rest` and recorded `es`. With no errors it yields `a`. -/
def Records (r : Reply given α) (a : α) (rest : List Lexeme) (es : List ParseError) : Prop :=
  r.result = .ok a ∧ r.rest = rest ∧ r.recorded = es

theorem Records.length_le {r : Reply given α} (h : r.Records a rest es) :
    rest.length ≤ given.length := by
  obtain ⟨-, rfl, -⟩ := h
  exact r.le

theorem Records.andThen {r : Reply given α}
    {next : α → (rest : List Lexeme) → rest.length ≤ given.length → Reply rest β}
    (h : r.Records a mid es) (hnext : ∀ hle, (next a mid hle).Records b rest es') :
    (r.andThen next).Records b rest (es ++ es') := by
  obtain ⟨result, rest, recorded, hle⟩ := r
  obtain ⟨rfl, rfl, rfl⟩ := h
  obtain ⟨hresult, hrest, rfl⟩ := hnext hle
  exact ⟨hresult, hrest, rfl⟩

end Reply

/-- The lexemes have the tokens `fs`, and `I` holds of each where it stands. -/
structure HaveForms (I : Token → Prop) (fs : List Form) (given : List Lexeme) : Prop where
  forms : formsOf given = fs
  all : ∀ lexeme ∈ given, I lexeme.token

namespace HaveForms

variable {I : Token → Prop} {f : Form} {fs : List Form} {given : List Lexeme}

theorem exists_cons (h : HaveForms I (f :: fs) given) :
    ∃ lexeme rest, given = lexeme :: rest ∧ lexeme.token.form = f ∧ I lexeme.token ∧
      HaveForms I fs rest := by
  obtain ⟨lexeme, rest, rfl, hlexeme, hrest⟩ := formsOf_eq_cons h.forms
  obtain ⟨hI, hall⟩ := List.forall_mem_cons.1 h.all
  exact ⟨lexeme, rest, rfl, hlexeme, hI, hrest, hall⟩

/-- What holds of the first token, if there is one, holds of the first lexeme. -/
theorem head {Q : Form → Prop} (h : HaveForms I fs given) (hfs : ∀ f ∈ fs.head?, Q f) :
    ∀ lexeme ∈ given.head?, Q lexeme.token.form := by
  obtain ⟨rfl, -⟩ := h
  cases given with
  | nil => simp
  | cons lexeme given =>
    rintro _ ⟨⟩
    exact hfs _ rfl

end HaveForms

namespace Parse

variable {α β : Type} {p : Parse α} {next : α → Parse β} {P Q : α → Prop} {R : β → Prop}
  {I : Token → Prop} {fs mid fs' : List Form} {f : Form} {es es' : List ParseError}

/-- On the tokens `fs` the parser succeeds with something that has `P`, records `es` and leaves the
tokens `fs'`. -/
def Takes (p : Parse α) (I : Token → Prop) (fs : List Form) (P : α → Prop) (fs' : List Form)
    (es : List ParseError := []) : Prop :=
  ∀ finish given, HaveForms I fs given →
    ∃ a rest, (p finish given).Records a rest es ∧ HaveForms I fs' rest ∧ P a

theorem Takes.imp (h : p.Takes I fs P fs' es) (hPQ : ∀ a, P a → Q a) : p.Takes I fs Q fs' es := by
  intro finish given hgiven
  obtain ⟨a, rest, ha, hrest, hP⟩ := h finish given hgiven
  exact ⟨a, rest, ha, hrest, hPQ a hP⟩

theorem takes_pure {a : α} (h : P a) : (pure a : Parse α).Takes I fs P fs := by
  intro finish given hgiven
  exact ⟨a, given, ⟨rfl, rfl, rfl⟩, hgiven, h⟩

theorem Takes.append (hp : p.Takes I fs P mid es)
    (hnext : ∀ a, P a → (next a).Takes I mid R fs' es') : (p >>= next).Takes I fs R fs' (es ++ es') := by
  intro finish given hgiven
  obtain ⟨a, given', ha, hgiven', hP⟩ := hp finish given hgiven
  obtain ⟨b, rest, hb, hrest, hR⟩ := hnext a hP finish given' hgiven'
  exact ⟨b, rest, ha.andThen fun _ => hb, hrest, hR⟩

/-- All errors are those of the second parser. -/
theorem Takes.bind (hp : p.Takes I fs P mid) (hnext : ∀ a, P a → (next a).Takes I mid R fs' es) :
    (p >>= next).Takes I fs R fs' es :=
  hp.append hnext

/-- All errors are those of the first parser. -/
theorem Takes.bindFirst (hp : p.Takes I fs P mid es) (hnext : ∀ a, P a → (next a).Takes I mid R fs') :
    (p >>= next).Takes I fs R fs' es := by
  have happend := hp.append hnext
  rwa [List.append_nil] at happend

/-! ## Tokens -/

theorem takes_ident {x : String} : ident.Takes I (⟨.identifier, x⟩ :: fs) (·.name = x) fs := by
  intro finish given hgiven
  obtain ⟨lexeme, rest, rfl, hlexeme, -, hrest⟩ := hgiven.exists_cons
  refine ⟨_, rest, yields_ident.2 ⟨lexeme, rfl, ?_, rfl⟩, hrest, ?_⟩
  · exact congrArg Form.kind hlexeme
  · exact congrArg Form.lexeme hlexeme

theorem takes_expect {kind : TokenKind} (hkind : kind ≠ .eof) (hf : f.kind = kind) :
    (expect kind).Takes I (f :: fs) (·.form = f) fs := by
  intro finish given hgiven
  obtain ⟨lexeme, rest, rfl, rfl, -, hrest⟩ := hgiven.exists_cons
  exact ⟨_, rest, (yields_expect hkind).2 ⟨lexeme, rfl, rfl, hf⟩, hrest, rfl⟩

theorem takes_declaration {kind : TokenKind} {body : Token → Parse α} {token : Token}
    (hkind : token.kind = kind) (h : (body token).Takes I fs P fs' es) :
    (declaration kind body token).Takes I fs P fs' es := by
  rwa [declaration, if_pos hkind]

/-! ## Repetition -/

variable {more : TokenKind → Bool} {item : Token → Parse α} {recover : Parse PUnit}

theorem records_orRecover {finish : Place} {given rest : List Lexeme} {a : α}
    (h : (p finish given).Records a rest es) :
    (p.orRecover recover finish given).Records (some a) rest es := by
  unfold orRecover
  obtain ⟨hresult, hrest, hrecorded⟩ := h
  generalize p finish given = reply at *
  obtain ⟨result, left, recorded, hle⟩ := reply
  dsimp only at hresult
  subst hresult
  exact ⟨rfl, hrest, hrecorded⟩

variable (more item recover) in
/-- Items and errors come behind those that are there already. -/
theorem exists_manyOnto (finish : Place) (given : List Lexeme) :
    ∃ as rest es, ∀ (out : List α) (recorded : List ParseError) {outer : List Lexeme}
      (h : given.length ≤ outer.length),
        (manyOnto more item recover finish out recorded given h).Records (out.reverse ++ as) rest
          (recorded.reverse ++ es) := by
  cases given with
  | nil =>
    refine ⟨[], [], [], fun out recorded outer h => ?_⟩
    rw [manyOnto]
    simp [Reply.Records]
  | cons lexeme given =>
    cases hmore : more lexeme.token.kind with
    | false =>
      refine ⟨[], lexeme :: given, [], fun out recorded outer h => ?_⟩
      rw [manyOnto]
      simp [hmore, Reply.Records]
    | true =>
      cases hreply : (item lexeme.token).orRecover recover finish given with
      | mk result left found hle =>
        obtain ⟨as, rest, es, hmany⟩ := exists_manyOnto finish left
        have hskip (out : List α) (recorded : List ParseError) {outer : List Lexeme}
            (h : left.length ≤ outer.length) : (manyOnto more item recover finish out
              (found.reverse ++ recorded) left h).Records (out.reverse ++ as) rest
                (recorded.reverse ++ (found ++ es)) := by
          simpa using hmany out (found.reverse ++ recorded) h
        rcases result with e | _ | a
        case ok.some =>
          refine ⟨a :: as, rest, found ++ es, fun out recorded outer h => ?_⟩
          rw [manyOnto]
          simp only [hmore, if_true, hreply]
          simpa using hskip (a :: out) recorded (Nat.le_trans hle (Nat.le_of_succ_le h))
        all_goals
          refine ⟨as, rest, found ++ es, fun out recorded outer h => ?_⟩
          rw [manyOnto]
          simp only [hmore, if_true, hreply]
          exact hskip out recorded (Nat.le_trans hle (Nat.le_of_succ_le h))
termination_by given.length
decreasing_by subst_vars; simp only [List.length_cons]; omega

theorem records_many_cons {finish : Place} {lexeme : Lexeme} {given mid rest : List Lexeme} {a : α}
    {as : List α} (hmore : more lexeme.token.kind = true)
    (ha : (item lexeme.token finish given).Records a mid es)
    (has : (many more item recover finish mid).Records as rest es') :
    (many more item recover finish (lexeme :: given)).Records (a :: as) rest (es ++ es') := by
  obtain ⟨as', rest', es'', hmany⟩ := exists_manyOnto more item recover finish mid
  obtain ⟨hresult, hrest, hrecorded⟩ := has
  obtain ⟨hresult', hrest', hrecorded'⟩ := hmany [] [] (Reply.all_left mid)
  obtain rfl : as' = as := Except.ok.inj (hresult'.symm.trans hresult)
  obtain rfl : rest' = rest := hrest'.symm.trans hrest
  obtain rfl : es'' = es' := hrecorded'.symm.trans hrecorded
  have hitem : ((item lexeme.token).orRecover recover finish given).Records (some a) mid es :=
    records_orRecover ha
  unfold many
  rw [manyOnto]
  simp only [hmore, if_true]
  generalize (item lexeme.token).orRecover recover finish given = reply at hitem
  obtain ⟨result, left, found, hle⟩ := reply
  obtain ⟨rfl, rfl, rfl⟩ := hitem
  simpa using hmany [a] found.reverse (Nat.le_trans hle (Nat.le_succ _))

/-- No item is taken where none starts. -/
theorem takes_many_nil (hmore : ∀ f ∈ fs.head?, more f.kind = false) :
    (many more item recover).Takes I fs (· = []) fs := by
  intro finish given hgiven
  exact ⟨[], given, yields_many.2 (.nil (hgiven.head hmore)), hgiven, rfl⟩

theorem takes_many_cons {Q : List α → Prop} (hmore : more f.kind = true)
    (hitem : ∀ token : Token, token.form = f → (item token).Takes I fs P mid es)
    (hrest : (many more item recover).Takes I mid Q fs' es') :
    (many more item recover).Takes I (f :: fs) (fun as => ∃ a as', as = a :: as' ∧ P a ∧ Q as') fs'
      (es ++ es') := by
  intro finish given hgiven
  obtain ⟨lexeme, given, rfl, hlexeme, -, hgiven⟩ := hgiven.exists_cons
  obtain ⟨a, given', ha, hgiven', hP⟩ := hitem lexeme.token hlexeme finish given hgiven
  obtain ⟨as, rest, has, hleft, hQ⟩ := hrest finish given' hgiven'
  rw [← congrArg Form.kind hlexeme] at hmore
  exact ⟨a :: as, rest, records_many_cons hmore ha has, hleft, a, as, rfl, hP, hQ⟩

/-- One item, behind which no other starts. -/
theorem takes_many_one (hmore : more f.kind = true)
    (hitem : ∀ token : Token, token.form = f → (item token).Takes I fs P mid es)
    (hend : ∀ f ∈ mid.head?, more f.kind = false) :
    (many more item recover).Takes I (f :: fs) (fun as => ∃ a, as = [a] ∧ P a) mid es := by
  have hcons : (many more item recover).Takes I (f :: fs) _ mid (es ++ []) :=
    takes_many_cons hmore hitem (takes_many_nil hend)
  rw [List.append_nil] at hcons
  refine hcons.imp ?_
  rintro as ⟨a, as', rfl, ha, rfl⟩
  exact ⟨a, rfl, ha⟩

end Parse

namespace Grammar

open Parse

variable {g : Grammar} {I : Token → Prop} {fs fs' : List Form} {es : List ParseError}

/-! ## Types and parameters -/

/-- The tokens of a path behind its first name. -/
def segmentForms (xs : List String) : List Form :=
  xs.flatMap fun x => [⟨.colonColon, "::"⟩, ⟨.identifier, x⟩]

/-- The tokens of a path. -/
def pathForms : List String → List Form
  | []      => []
  | x :: xs => ⟨.identifier, x⟩ :: segmentForms xs

theorem plain_pathForms (xs : List String) : ∀ f ∈ pathForms xs, f.Plain := by
  cases xs with
  | nil => simp [pathForms]
  | cons x xs =>
    simp only [pathForms, segmentForms, List.mem_cons, List.mem_flatMap, List.not_mem_nil, or_false]
    rintro f (rfl | ⟨y, -, rfl | rfl⟩) <;> simp [Form.Plain]

/-- The token behind a path that does not go on. -/
def EndsPath (fs : List Form) : Prop := ∀ f ∈ fs.head?, f.kind ≠ .colonColon ∧ f.kind ≠ .less

theorem takes_segmentsOnto (hend : ∀ f ∈ fs.head?, f.kind ≠ .colonColon) {xs : List String}
    (out : List Ident) :
    Parse.Takes (fun finish given => segmentsOnto finish out given) I (segmentForms xs ++ fs)
      (fun is => is.map (·.name) = out.reverse.map (·.name) ++ xs) fs := by
  induction xs generalizing out with
  | nil =>
    intro finish given hgiven
    refine ⟨out.reverse, given, ?_, hgiven, by simp⟩
    change (segmentsOnto finish out given).Yields out.reverse given
    rw [segmentsOnto.eq_def]
    cases given with
    | nil => exact Reply.yields_ok.2 ⟨rfl, rfl⟩
    | cons lexeme given =>
      have hkind : lexeme.token.kind ≠ .colonColon := hgiven.head hend lexeme rfl
      simp only
      rw [if_neg hkind]
      exact Reply.yields_ok.2 ⟨rfl, rfl⟩
  | cons x xs ih =>
    intro finish given hgiven
    obtain ⟨lexeme, given, rfl, hlexeme, -, hgiven⟩ := hgiven.exists_cons
    obtain ⟨i, given', hi, hgiven', hname⟩ := takes_ident finish given hgiven
    obtain ⟨is, rest, his, hrest, hnames⟩ := ih (i :: out) finish given' hgiven'
    refine ⟨is, rest, ?_, hrest, ?_⟩
    · change (segmentsOnto finish out (lexeme :: given)).Yields is rest
      have hkind : lexeme.token.kind = .colonColon := congrArg Form.kind hlexeme
      rw [segmentsOnto.eq_def]
      simp only
      rw [if_pos hkind, Reply.yields_taking]
      exact Reply.Yields.andThen hi his
    · exact hnames.trans (by simp [hname])

theorem takes_path (hend : ∀ f ∈ fs.head?, f.kind ≠ .colonColon) (x : String) (xs : List String) :
    path.Takes I (pathForms (x :: xs) ++ fs) (fun p => p.segments.map (·.name) = x :: xs) fs := by
  refine Takes.bind takes_ident fun first hfirst => ?_
  refine Takes.bind (takes_segmentsOnto hend [first]) fun is his => ?_
  refine takes_pure ?_
  rw [his]
  simp [hfirst]

theorem takes_typeRef (hend : EndsPath fs) (x : String) (xs : List String) :
    Parse.Takes (fun finish given => typeRef finish given) I (pathForms (x :: xs) ++ fs)
      (IsPath (x :: xs)) fs := by
  intro finish given hgiven
  obtain ⟨p, rest, hp, hrest, hsegments⟩ :=
    takes_path (fun f hf => (hend f hf).1) x xs finish given hgiven
  refine ⟨.mk p [] (p.span.merge (lastSpan p)), rest, ?_, hrest, hsegments, rfl⟩
  obtain ⟨lexeme, given, rfl, hlexeme, -, -⟩ := hgiven.exists_cons
  have hkind : lexeme.token.kind = .identifier := congrArg Form.kind hlexeme
  change (typeRef finish (lexeme :: given)).Yields _ rest
  rw [typeRef]
  simp only [List.head?_cons, Option.map_some, Option.getD_some, hkind, ne_eq, not_true_eq_false,
    if_false]
  refine Reply.Yields.andThen hp ?_
  cases rest with
  | nil => exact Reply.yields_ok.2 ⟨rfl, rfl⟩
  | cons next rest =>
    have hless : next.token.kind ≠ .less := (hrest.head hend next rfl).2
    simp only
    rw [if_neg hless]
    exact Reply.yields_ok.2 ⟨rfl, rfl⟩

/-- The parameter `name` has the type that is the path. -/
structure IsParam (name : String) (xs : List String) (p : Param) : Prop where
  name : p.name.name = name
  type : IsPath xs p.type

/-- One parameter before the closing parenthesis, with a type of its own tokens. -/
theorem takes_param_alone {T : TypeRef → Prop} {ts : List Form} (name : String)
    (htype : Parse.Takes (fun finish given => typeRef finish given) I
      (ts ++ ⟨.rightParen, ")"⟩ :: fs) T (⟨.rightParen, ")"⟩ :: fs)) :
    params.Takes I (⟨.identifier, name⟩ :: ⟨.colon, ":"⟩ :: (ts ++ ⟨.rightParen, ")"⟩ :: fs))
      (fun ps => ∃ p, ps = [p] ∧ p.name.name = name ∧ T p.type) (⟨.rightParen, ")"⟩ :: fs) := by
  have hparam : param.Takes I (⟨.identifier, name⟩ :: ⟨.colon, ":"⟩ ::
      (ts ++ ⟨.rightParen, ")"⟩ :: fs)) (fun p => p.name.name = name ∧ T p.type)
      (⟨.rightParen, ")"⟩ :: fs) := by
    refine Takes.bind takes_ident fun i hi => ?_
    refine Takes.bind (takes_expect (by decide) rfl) fun _ _ => ?_
    exact Takes.bind htype fun t ht => takes_pure ⟨hi, ht⟩
  intro finish given hgiven
  obtain ⟨p, rest, hp, hrest, hisParam⟩ := hparam finish given hgiven
  refine ⟨[p], rest, ?_, hrest, p, rfl, hisParam⟩
  obtain ⟨lexeme, given, rfl, hlexeme, -, -⟩ := hgiven.exists_cons
  have hkind : lexeme.token.kind = .identifier := congrArg Form.kind hlexeme
  obtain ⟨close, rest, rfl, hclose, -, -⟩ := hrest.exists_cons
  have hcomma : close.token.kind = .rightParen := congrArg Form.kind hclose
  unfold params
  rw [if_neg (by simp [hkind]), paramsOnto]
  refine Reply.Yields.andThen hp ?_
  simp only [hcomma, reduceCtorEq, if_false]
  exact Reply.yields_ok.2 ⟨rfl, rfl⟩

/-- One parameter before the closing parenthesis. -/
theorem takes_params (name x : String) (xs : List String) :
    params.Takes I (⟨.identifier, name⟩ :: ⟨.colon, ":"⟩ ::
        (pathForms (x :: xs) ++ ⟨.rightParen, ")"⟩ :: fs))
      (fun ps => ∃ p, ps = [p] ∧ IsParam name (x :: xs) p) (⟨.rightParen, ")"⟩ :: fs) := by
  have hend : EndsPath (⟨.rightParen, ")"⟩ :: fs) := by
    rintro _ ⟨⟩
    decide
  refine (takes_param_alone name (takes_typeRef hend x xs)).imp ?_
  rintro ps ⟨p, rfl, hname, htype⟩
  exact ⟨p, rfl, hname, htype⟩

/-! ## Functions -/

/-- The interpolated strings with this lexeme are read without errors, as segments with `P`. -/
def Interpolates (g : Grammar) (lexeme : String) (P : List Segment → Prop) : Prop :=
  ∀ token : Token, token.lexeme = lexeme → ∃ ss, g.interpolate token = ⟨ss, []⟩ ∧ P ss

variable {lexeme : String} {P : List Segment → Prop}

/-- The statement returns an interpolated string whose segments have `P`. -/
def ReturnsString (P : List Segment → Prop) (s : Stmt) : Prop :=
  ∃ ss span span', s = .ret (.interpolated ss span) span' ∧ P ss

/-- The tokens that return an interpolated string, behind the keyword. -/
def returnForms (lexeme : String) (fs : List Form) : List Form :=
  ⟨.interpolatedString, lexeme⟩ :: ⟨.semicolon, ";"⟩ :: fs

theorem atom?_interpolated {token : Token} (hkind : token.kind = .interpolatedString) :
    UnaryOp.ofToken? token.kind = none ∧
      g.atom? token = some (.ok (.interpolated (g.interpolate token).segments token.span,
        (g.interpolate token).errors)) := by
  simp [atom?, hkind, UnaryOp.ofToken?]

/-- One token that makes an operand is an expression where no operator follows. -/
theorem records_expr_atom {lexeme : Lexeme} {rest : List Lexeme} {e : Expr} {min : Nat}
    (hunary : UnaryOp.ofToken? lexeme.token.kind = none)
    (hatom : g.atom? lexeme.token = some (.ok (e, es))) (hstops : Stops min rest) :
    (g.expr min (lexeme :: rest)).Records e rest es := by
  have hoperand : (g.operand (lexeme :: rest)).Records e rest es := by
    rw [operand]
    simp only [hunary, hatom]
    exact ⟨rfl, rfl, List.append_nil es⟩
  rw [expr, ← List.append_nil es]
  refine hoperand.andThen fun _ => ?_
  rw [climb_of_stops e hstops]
  exact ⟨rfl, rfl, rfl⟩

/-- The statement returns the operand that one token makes. -/
theorem takes_ret_atom {E : Expr → Prop} {f : Form}
    (hatom : ∀ token : Token, I token → token.form = f → UnaryOp.ofToken? token.kind = none ∧
      ∃ e, g.atom? token = some (.ok (e, es)) ∧ E e) (start : Token) :
    (g.ret start).Takes I (f :: ⟨.semicolon, ";"⟩ :: fs) (fun s => ∃ e span, s = .ret e span ∧ E e)
      fs es := by
  have hvalue : g.value.Takes I (f :: ⟨.semicolon, ";"⟩ :: fs) E (⟨.semicolon, ";"⟩ :: fs) es := by
    intro finish given hgiven
    obtain ⟨lexeme, rest, rfl, hlexeme, hI, hrest⟩ := hgiven.exists_cons
    obtain ⟨semicolon, rest, rfl, hsemicolon, -, -⟩ := hrest.exists_cons
    obtain ⟨hunary, e, he, hE⟩ := hatom lexeme.token hI hlexeme
    have hstops : Stops 0 (semicolon :: rest) := by
      have hsemi : semicolon.token.kind = .semicolon := congrArg Form.kind hsemicolon
      exact stops_cons.2 (by simp [hsemi, TokenKind.power?, BinaryOp.ofToken?])
    exact ⟨e, semicolon :: rest, records_expr_atom hunary he hstops, hrest, hE⟩
  refine Takes.bindFirst hvalue fun e he => ?_
  exact Takes.bind (takes_expect (by decide) rfl) fun close _ => takes_pure ⟨e, _, rfl, he⟩

theorem takes_ret (hg : g.Interpolates lexeme P) (start : Token) :
    (g.ret start).Takes I (returnForms lexeme fs) (ReturnsString P) fs := by
  refine (takes_ret_atom (E := fun e => ∃ ss span, e = .interpolated ss span ∧ P ss) ?_ start).imp ?_
  · intro token _ htoken
    obtain ⟨ss, hss, hP⟩ := hg token (congrArg Form.lexeme htoken)
    obtain ⟨hunary, hatom⟩ := atom?_interpolated (g := g) (congrArg Form.kind htoken)
    rw [hss] at hatom
    exact ⟨hunary, _, hatom, ss, token.span, rfl, hP⟩
  · rintro s ⟨e, span, rfl, ss, span', rfl, hP⟩
    exact ⟨ss, span', span, rfl, hP⟩

/-- A block of one `return`. -/
theorem takes_block_ret {S : Stmt → Prop} {rs : List Form}
    (hret : ∀ start, (g.ret start).Takes I rs S (⟨.rightBrace, "\x7d"⟩ :: fs) es) :
    g.block.Takes I (⟨.leftBrace, "\x7b"⟩ :: ⟨.returnWord, "return"⟩ :: rs)
      (fun b => ∃ s, b.stmts = [s] ∧ S s) fs es := by
  have hstatement : ∀ token : Token, token.form = ⟨.returnWord, "return"⟩ →
      (g.statement token).Takes I rs S (⟨.rightBrace, "\x7d"⟩ :: fs) es := by
    intro token htoken
    have hkind : token.kind = .returnWord := congrArg Form.kind htoken
    unfold statement
    rw [hkind]
    exact hret token
  refine Takes.bind (takes_expect (by decide) rfl) fun opening _ => ?_
  refine Takes.bindFirst (takes_many_one (by decide) hstatement (by rintro _ ⟨⟩; decide))
    fun ss hss => ?_
  refine Takes.bind (takes_expect (by decide) rfl) fun close _ => ?_
  obtain ⟨s, rfl, hs⟩ := hss
  exact takes_pure ⟨s, rfl, hs⟩

theorem takes_block (hg : g.Interpolates lexeme P) :
    g.block.Takes I (⟨.leftBrace, "\x7b"⟩ :: ⟨.returnWord, "return"⟩ ::
        returnForms lexeme (⟨.rightBrace, "\x7d"⟩ :: fs))
      (fun b => ∃ s, b.stmts = [s] ∧ ReturnsString P s) fs :=
  takes_block_ret (takes_ret hg)

/-- The function of one parameter returns an interpolated string whose segments have `P`. -/
structure ReturnsFrom (name param : String) (xs : List String) (P : List Segment → Prop)
    (f : FunctionDecl) : Prop where
  name : f.name.name = name
  params : ∃ p, f.params = [p] ∧ IsParam param xs p
  result : IsPath ["string"] f.returnType
  body : ∃ s, f.body.stmts = [s] ∧ ReturnsString P s

/-- A function is taken part by part. -/
theorem takes_function {Ps : List Param → Prop} {R : TypeRef → Prop} {B : Block → Prop}
    {ps rs bs : List Form} (start : Token) (name : String)
    (hparams : params.Takes I ps Ps (⟨.rightParen, ")"⟩ :: ⟨.arrow, "->"⟩ :: rs))
    (hresult : Parse.Takes (fun finish given => typeRef finish given) I rs R bs)
    (hbody : g.block.Takes I bs B fs es) :
    (g.functionDecl start).Takes I (⟨.identifier, name⟩ :: ⟨.leftParen, "("⟩ :: ps)
      (fun f => f.name.name = name ∧ Ps f.params ∧ R f.returnType ∧ B f.body) fs es := by
  refine Takes.bind takes_ident fun i hi => ?_
  refine Takes.bind (takes_expect (by decide) rfl) fun _ _ => ?_
  refine Takes.bind hparams fun ps hps => ?_
  refine Takes.bind (takes_expect (by decide) rfl) fun _ _ => ?_
  refine Takes.bind (takes_expect (by decide) rfl) fun _ _ => ?_
  refine Takes.bind hresult fun t ht => ?_
  exact Takes.bindFirst hbody fun b hb => takes_pure ⟨hi, hps, ht, hb⟩

theorem takes_functionDecl (hg : g.Interpolates lexeme P) (start : Token)
    (name param x : String) (xs : List String) :
    (g.functionDecl start).Takes I
      (⟨.identifier, name⟩ :: ⟨.leftParen, "("⟩ :: ⟨.identifier, param⟩ :: ⟨.colon, ":"⟩ ::
        (pathForms (x :: xs) ++ ⟨.rightParen, ")"⟩ :: ⟨.arrow, "->"⟩ :: ⟨.identifier, "string"⟩ ::
          ⟨.leftBrace, "\x7b"⟩ :: ⟨.returnWord, "return"⟩ ::
            returnForms lexeme (⟨.rightBrace, "\x7d"⟩ :: fs)))
      (ReturnsFrom name param (x :: xs) P) fs := by
  refine (takes_function start name (takes_params param x xs)
    (takes_typeRef (by rintro _ ⟨⟩; decide) "string" []) (takes_block hg)).imp ?_
  rintro f ⟨hname, hparams, hresult, hbody⟩
  exact ⟨hname, hparams, hresult, hbody⟩

/-! ## Declarations -/

/-- The module has one type, which has one function. -/
structure Encloses (moduleName typeName : String) (P : FunctionDecl → Prop) (m : ModuleDecl) :
    Prop where
  name : m.name.name = moduleName
  types : ∃ t f, m.types = [t] ∧ t.name.name = typeName ∧ t.functions = [f] ∧ P f

theorem takes_moduleDecl {Q : FunctionDecl → Prop} (start : Token) (moduleName typeName : String)
    (hfunction : ∀ start, (g.functionDecl start).Takes I fs Q
      (⟨.rightBrace, "\x7d"⟩ :: ⟨.rightBrace, "\x7d"⟩ :: fs') es) :
    (g.moduleDecl start).Takes I
      (⟨.identifier, moduleName⟩ :: ⟨.leftBrace, "\x7b"⟩ :: ⟨.typeWord, "type"⟩ ::
        ⟨.identifier, typeName⟩ :: ⟨.leftBrace, "\x7b"⟩ :: ⟨.fnWord, "fn"⟩ :: fs)
      (Encloses moduleName typeName Q) fs' es := by
  have htype : ∀ token : Token, token.form = ⟨.typeWord, "type"⟩ →
      (declaration .typeWord g.typeDecl token).Takes I
        (⟨.identifier, typeName⟩ :: ⟨.leftBrace, "\x7b"⟩ :: ⟨.fnWord, "fn"⟩ :: fs)
        (fun t => ∃ f, t.name.name = typeName ∧ t.functions = [f] ∧ Q f)
        (⟨.rightBrace, "\x7d"⟩ :: fs') es := by
    intro token htoken
    refine takes_declaration (congrArg Form.kind htoken) ?_
    refine Takes.bind takes_ident fun i hi => ?_
    refine Takes.bind (takes_expect (by decide) rfl) fun _ _ => ?_
    refine Takes.bindFirst (takes_many_one (by decide) (fun token htoken =>
      takes_declaration (congrArg Form.kind htoken) (hfunction token)) (by rintro _ ⟨⟩; decide))
      fun functions hfunctions => ?_
    refine Takes.bind (takes_expect (by decide) rfl) fun _ _ => ?_
    obtain ⟨f, rfl, hf⟩ := hfunctions
    exact takes_pure ⟨f, hi, rfl, hf⟩
  refine Takes.bind takes_ident fun i hi => ?_
  refine Takes.bind (takes_expect (by decide) rfl) fun _ _ => ?_
  refine Takes.bindFirst (takes_many_one (by decide) htype (by rintro _ ⟨⟩; decide))
    fun types htypes => ?_
  refine Takes.bind (takes_expect (by decide) rfl) fun _ _ => ?_
  obtain ⟨t, rfl, f, ht, hfunctions, hf⟩ := htypes
  exact takes_pure ⟨hi, t, f, rfl, ht, hfunctions, hf⟩

theorem takes_headerToken {f : Form} {kind : TokenKind} (hkind : kind ≠ .eof) (hf : f.kind = kind) :
    (headerToken kind).Takes I (f :: fs) (·.form = f) fs := by
  intro finish given hgiven
  obtain ⟨lexeme, rest, rfl, rfl, -, hrest⟩ := hgiven.exists_cons
  exact ⟨_, rest, (yields_headerToken hkind).2 ⟨lexeme, rfl, rfl, hf⟩, hrest, rfl⟩

/-- The tokens of the header that asks for the edition. -/
def editionForms (number : String) : List Form :=
  [⟨.hash, "#"⟩, ⟨.bang, "!"⟩, ⟨.leftBracket, "["⟩, ⟨.identifier, "edition"⟩, ⟨.equal, "="⟩,
   ⟨.intLiteral, number⟩, ⟨.rightBracket, "]"⟩]

theorem takes_header {number : String} (hnumber : Number.ofDigits number.toList ≤ maxEdition) :
    header.Takes I (editionForms number ++ fs)
      (fun e? => ∃ e, e? = some e ∧ e.version = Number.ofDigits number.toList) fs := by
  have hedition : ∀ start, (edition start).Takes I (⟨.bang, "!"⟩ :: ⟨.leftBracket, "["⟩ ::
      ⟨.identifier, "edition"⟩ :: ⟨.equal, "="⟩ :: ⟨.intLiteral, number⟩ :: ⟨.rightBracket, "]"⟩ :: fs)
      (fun e => e.version = Number.ofDigits number.toList) fs := by
    intro start
    refine Takes.bind (takes_headerToken (by decide) rfl) fun _ _ => ?_
    refine Takes.bind (takes_headerToken (by decide) rfl) fun _ _ => ?_
    have hword : headerWord.Takes I (⟨.identifier, "edition"⟩ :: ⟨.equal, "="⟩ ::
        ⟨.intLiteral, number⟩ :: ⟨.rightBracket, "]"⟩ :: fs) (fun _ => True)
        (⟨.equal, "="⟩ :: ⟨.intLiteral, number⟩ :: ⟨.rightBracket, "]"⟩ :: fs) := by
      intro finish given hgiven
      obtain ⟨lexeme, rest, rfl, hlexeme, -, hrest⟩ := hgiven.exists_cons
      refine ⟨lexeme.token, rest, yields_bind.2 ⟨_, _, yields_peek.2 ⟨rfl, rfl⟩, ?_⟩, hrest, trivial⟩
      have hedition : lexeme.token.lexeme = "edition" := congrArg Form.lexeme hlexeme
      rw [nextToken_cons, if_pos hedition]
      exact (yields_headerToken (by decide)).2 ⟨lexeme, rfl, rfl, congrArg Form.kind hlexeme⟩
    refine Takes.bind hword fun _ _ => ?_
    refine Takes.bind (takes_headerToken (by decide) rfl) fun _ _ => ?_
    refine Takes.bind (takes_headerToken (by decide) rfl) fun token htoken => ?_
    have hlexeme : token.lexeme = number := congrArg Form.lexeme htoken
    simp only [hlexeme]
    rw [if_neg (Nat.not_lt.2 hnumber)]
    exact Takes.bind (takes_expect (by decide) rfl) fun _ _ => takes_pure rfl
  intro finish given hgiven
  obtain ⟨hash, given, rfl, hhash, -, hgiven⟩ := hgiven.exists_cons
  obtain ⟨e, rest, he, hrest, hversion⟩ := hedition hash.token finish given hgiven
  have hkind : hash.token.kind = .hash := congrArg Form.kind hhash
  refine ⟨some e, rest, yields_bind.2 ⟨_, _, yields_peek.2 ⟨rfl, rfl⟩, ?_⟩, hrest, e, rfl, hversion⟩
  rw [nextToken_cons, if_pos hkind]
  exact yields_bind.2 ⟨_, _, yields_advance_cons.2 ⟨rfl, rfl⟩, yields_orRecover.2 ⟨e, rfl, he⟩⟩

/-- There is no header where no hash comes first. -/
theorem takes_header_none (hfs : ∀ f ∈ fs.head?, f.kind ≠ .hash) : header.Takes I fs (· = none) fs := by
  intro finish given hgiven
  refine ⟨none, given, yields_bind.2 ⟨_, _, yields_peek.2 ⟨rfl, rfl⟩, ?_⟩, hgiven, rfl⟩
  have hkind : (nextToken finish given).kind ≠ .hash := by
    cases given with
    | nil => simp [nextToken, Token.eof]
    | cons lexeme given => exact hgiven.head hfs lexeme rfl
  rw [if_neg hkind]
  exact yields_pure.2 ⟨rfl, rfl⟩

/-- The tokens that use the namespaces. -/
def useForms (nss : List (List String)) : List Form :=
  nss.flatMap fun ns => ⟨.useWord, "use"⟩ :: (pathForms ns ++ [⟨.semicolon, ";"⟩])

theorem takes_useDecl (start : Token) (x : String) (xs : List String) :
    (useDecl start).Takes I (pathForms (x :: xs) ++ ⟨.semicolon, ";"⟩ :: fs)
      (·.path.text = "::".intercalate (x :: xs)) fs := by
  refine Takes.bind (takes_path (by rintro _ ⟨⟩; decide) x xs) fun p hp => ?_
  refine Takes.bind (takes_expect (by decide) rfl) fun _ _ => takes_pure ?_
  rw [Path.text, hp]

/-- The namespaces are taken one by one. -/
theorem takes_uses {nss : List (List String)} {recover : Parse PUnit} (hnss : ∀ ns ∈ nss, ns ≠ [])
    (hend : ∀ f ∈ fs.head?, f.kind ≠ .useWord) :
    (many (· == .useWord) useDecl recover).Takes I (useForms nss ++ fs)
      (fun ds => ds.map (·.path.text) = nss.map ("::".intercalate ·)) fs := by
  induction nss with
  | nil =>
    refine (takes_many_nil fun f hf => by simpa using hend f hf).imp ?_
    rintro _ rfl
    rfl
  | cons ns nss ih =>
    obtain ⟨hns, htail⟩ := List.forall_mem_cons.1 hnss
    obtain ⟨x, xs, rfl⟩ := List.exists_cons_of_ne_nil hns
    have hforms : useForms ((x :: xs) :: nss) ++ fs = ⟨.useWord, "use"⟩ ::
        (pathForms (x :: xs) ++ ⟨.semicolon, ";"⟩ :: (useForms nss ++ fs)) := by
      simp [useForms]
    rw [hforms]
    refine (takes_many_cons rfl (fun start _ => takes_useDecl start x xs) (ih htail)).imp ?_
    rintro _ ⟨d, ds, rfl, hd, hds⟩
    rw [List.map_cons, hd, hds, List.map_cons]

/-- The unit is written for the edition, uses the namespaces and has one module. -/
structure Declares (version : Nat) (uses : List String) (P : ModuleDecl → Prop)
    (d : Option Edition × List UseDecl × List ModuleDecl) : Prop where
  edition : ∃ e, d.1 = some e ∧ e.version = version
  uses : d.2.1.map (·.path.text) = uses
  modules : ∃ m, d.2.2 = [m] ∧ P m

theorem takes_declarations {number : String} {Q : ModuleDecl → Prop} {nss : List (List String)}
    (hnumber : Number.ofDigits number.toList ≤ maxEdition) (hnss : ∀ ns ∈ nss, ns ≠ [])
    (hmodule : ∀ start, (g.moduleDecl start).Takes I fs Q [] es) :
    g.declarations.Takes I (editionForms number ++ (useForms nss ++ ⟨.moduleWord, "module"⟩ :: fs))
      (Declares (Number.ofDigits number.toList) (nss.map ("::".intercalate ·)) Q) [] es := by
  refine Takes.bind (takes_header hnumber) fun e? he => ?_
  refine Takes.bind (takes_uses hnss (by rintro _ ⟨⟩; decide)) fun uses huses => ?_
  refine Takes.bindFirst (takes_many_one rfl (fun token htoken =>
    takes_declaration (congrArg Form.kind htoken) (hmodule token)) (by simp)) fun modules hmodules => ?_
  exact takes_pure ⟨he, huses, hmodules⟩

/-- A unit that is one module, without a header. -/
theorem takes_declarations_module {Q : ModuleDecl → Prop}
    (hmodule : ∀ start, (g.moduleDecl start).Takes I fs Q []) :
    g.declarations.Takes I (⟨.moduleWord, "module"⟩ :: fs)
      (fun d => d.1 = none ∧ d.2.1 = [] ∧ ∃ m, d.2.2 = [m] ∧ Q m) [] := by
  refine Takes.bind (takes_header_none (by rintro _ ⟨⟩; decide)) fun e? he => ?_
  refine Takes.bind (takes_many_nil (by rintro _ ⟨⟩; decide)) fun uses huses => ?_
  refine Takes.bind (takes_many_one rfl (fun token htoken =>
    takes_declaration (congrArg Form.kind htoken) (hmodule token)) (by simp)) fun modules hmodules => ?_
  exact takes_pure ⟨he, huses, hmodules⟩

end Grammar

end TypedTemplate
