-- SUMMARY: Precedence climbing reads back exactly what printing grouped expressions writes.
import TypedTemplate.Proofs.Grammar.Phrase
import TypedTemplate.Proofs.Grammar.Production
import TypedTemplate.Proofs.Token.Lexeme

/-!
# Climbing

What precedence climbing takes from the lexemes is the print of the tree it gives,
and that tree is grouped. In the other direction, the lexemes that print a grouped
tree are read as that tree, if no operator follows that could take part of it
for an operand.

The climb keeps the tree so far on its left. Which operators may come next is decided
by the last operand of that tree, not by the tree as a whole: behind `a ? b : c`
none can, since `c` has taken them all.
-/

namespace TypedTemplate

/-- How tightly the constructs of a nonterminal bind. -/
def Level.power : Level → Nat
  | .expr      => ternaryPower
  | .coalesce  => BinaryOp.coalesce.leftPower
  | .equality  => BinaryOp.equal.leftPower
  | .additive  => BinaryOp.add.leftPower
  | .mult      => BinaryOp.mul.leftPower
  | .unary     => unaryPower
  | .postfixed => memberPower
  | .primary   => memberPower + 1

/-- The least power that the last operand of a construct asked of the operators behind it. -/
def Level.tail : Level → Nat
  | .expr                 => ternaryPower
  | .coalesce             => BinaryOp.coalesce.rightPower
  | .equality             => BinaryOp.equal.rightPower
  | .additive             => BinaryOp.add.rightPower
  | .mult                 => BinaryOp.mul.rightPower
  | .unary                => unaryPower
  | .postfixed | .primary => memberPower + 1

/-! ## Tails and levels -/

/-- The binding powers order the nonterminals as the grammar does. -/
theorem Level.le_iff {l m : Level} : l ≤ m ↔ l.power ≤ m.power := by
  cases l <;> cases m <;> decide

theorem BinaryOp.power_level (op : BinaryOp) : op.level.power = op.leftPower := by
  cases op <;> rfl

theorem BinaryOp.tail_level (op : BinaryOp) : op.level.tail = op.rightPower := by
  cases op <;> rfl

/-- An operator has an expression for its left operand just when it does not reach into it. -/
theorem BinaryOp.level_le_iff {op : BinaryOp} {l : Level} : op.level ≤ l ↔ op.leftPower < l.tail := by
  cases op <;> cases l <;> decide

theorem BinaryOp.next_le_iff {op : BinaryOp} {l : Level} :
    op.level.next ≤ l ↔ op.rightPower ≤ l.power := by
  cases op <;> cases l <;> decide

theorem BinaryOp.rightPower_le_tail {op : BinaryOp} {l : Level} (h : op.level.next ≤ l) :
    op.rightPower ≤ l.tail := by
  revert h
  cases op <;> cases l <;> decide

theorem BinaryOp.rightPower_le (op : BinaryOp) : op.rightPower ≤ unaryPower := by
  cases op <;> decide

theorem Level.coalesce_le_iff {l : Level} : .coalesce ≤ l ↔ ternaryPower < l.tail := by
  cases l <;> decide

theorem Level.postfixed_le_iff {l : Level} : .postfixed ≤ l ↔ memberPower < l.tail := by
  cases l <;> decide

theorem Level.unary_le_tail {l : Level} (h : .unary ≤ l) : unaryPower ≤ l.tail := by
  revert h
  cases l <;> decide

theorem Level.ternary_le_tail (l : Level) : ternaryPower ≤ l.tail := by
  cases l <;> decide

/-! ## Reading terminals -/

/-- The lexemes of `given` before `rest` have the terminals `ws`. -/
def Reads (given : List Lexeme) (ws : List Terminal) (rest : List Lexeme) : Prop :=
  ∃ used : List Lexeme, given = used ++ rest ∧ used.map (·.token.terminal) = ws

section

variable {given mid rest : List Lexeme} {us ws : List Terminal} {w : Terminal} {lexeme : Lexeme}

@[simp] theorem reads_nil : Reads given [] rest ↔ given = rest := by
  simp [Reads]

theorem reads_cons :
    Reads given (w :: ws) rest ↔
      ∃ lexeme mid, given = lexeme :: mid ∧ lexeme.token.terminal = w ∧ Reads mid ws rest := by
  constructor
  · rintro ⟨used, rfl, hused⟩
    obtain ⟨lexeme, used, rfl, hlexeme, hws⟩ := List.map_eq_cons_iff.1 hused
    exact ⟨lexeme, used ++ rest, rfl, hlexeme, used, rfl, hws⟩
  · rintro ⟨lexeme, _, rfl, hlexeme, used, rfl, hws⟩
    exact ⟨lexeme :: used, rfl, by simp [hlexeme, hws]⟩

theorem reads_append :
    Reads given (us ++ ws) rest ↔ ∃ mid, Reads given us mid ∧ Reads mid ws rest := by
  constructor
  · rintro ⟨used, rfl, hused⟩
    obtain ⟨first, second, rfl, hus, hws⟩ := List.map_eq_append_iff.1 hused
    exact ⟨second ++ rest, ⟨first, by simp, hus⟩, second, rfl, hws⟩
  · rintro ⟨_, ⟨first, rfl, hus⟩, second, rfl, hws⟩
    exact ⟨first ++ second, by simp, by simp [hus, hws]⟩

theorem Reads.trans (h : Reads given us mid) (h' : Reads mid ws rest) :
    Reads given (us ++ ws) rest :=
  reads_append.2 ⟨mid, h, h'⟩

theorem Reads.cons (hw : lexeme.token.terminal = w) (h : Reads given ws rest) :
    Reads (lexeme :: given) (w :: ws) rest :=
  reads_cons.2 ⟨lexeme, given, rfl, hw, h⟩

theorem Reads.suffix (h : Reads given ws rest) : rest <:+ given := by
  obtain ⟨used, rfl, -⟩ := h
  exact List.suffix_append used rest

end

/-- The lexemes are tokens. -/
def AllTokens (given : List Lexeme) : Prop := ∀ lexeme ∈ given, lexeme.token.kind ≠ .invalid

theorem AllTokens.of_suffix {given rest : List Lexeme} (h : AllTokens given) (hrest : rest <:+ given) :
    AllTokens rest :=
  fun lexeme hlexeme => h lexeme (hrest.subset hlexeme)

/-- A text without faults is cut into tokens only. -/
theorem AllTokens.ofChars {place : Place} {text : List Char}
    (h : ∀ lexeme ∈ (Lexemes.ofChars place text).lexemes, lexeme.errors = []) :
    AllTokens (Lexemes.ofChars place text).lexemes :=
  fun lexeme hlexeme hkind =>
    (Lexemes.sound place text lexeme hlexeme).1 hkind (h lexeme hlexeme)

theorem AllTokens.tail {lexeme : Lexeme} {given : List Lexeme} (h : AllTokens (lexeme :: given)) :
    AllTokens given :=
  h.of_suffix (List.suffix_cons lexeme given)

namespace Token

theorem terminal_eq_mark {token : Token} {kind : TokenKind} (h : token.terminal = .mark kind) :
    token.kind = kind := by
  unfold terminal at h
  grind

theorem terminal_eq_name {token : Token} {x : String} :
    token.terminal = .name x ↔ token.kind = .identifier ∧ token.lexeme = x := by
  unfold terminal
  grind

end Token

namespace Grammar

variable {g : Grammar}

/-! ## What is read is a print -/

/-- The expression `e` is read from `given` as an operand for operators of the power `min`. -/
structure ReadsExpr (min : Nat) (given : List Lexeme) (e : Expr) (rest : List Lexeme) : Prop where
  grouped : e.Grouped
  level : min ≤ e.level.power
  stops : Stops min rest
  reads : Reads given e.terminals rest

theorem atom?_ok {token : Token} {e : Expr} (hkind : token.kind ≠ .invalid)
    (h : g.atom? token = some (.ok (e, []))) :
    e.Grouped ∧ e.level = .primary ∧ e.terminals = [token.terminal] := by
  unfold atom? at h
  unfold Token.terminal
  split at h
  case h_1 hint =>
    cases hvalue : intLiteral token with
    | error e => simp [hvalue, Except.map] at h
    | ok value =>
      obtain rfl : Expr.literal value token.span = e := by simpa [hvalue, Except.map] using h
      simp [hint, Expr.Grouped, Expr.level, Expr.terminals]
  all_goals
    first
    | contradiction
    | simp only [Option.some.injEq, Except.ok.injEq, Prod.mk.injEq] at h
      obtain ⟨rfl, -⟩ := h
      simp [*, Expr.Grouped, Expr.level, Expr.terminals]

theorem reads_ident {finish : Place} {given rest : List Lexeme} {x : Ident}
    (h : Parse.ident.Yields finish given x rest) : Reads given [.name x.name] rest := by
  obtain ⟨lexeme, rfl, hkind, rfl⟩ := Parse.yields_ident.1 h
  exact (reads_nil.2 rfl).cons (Token.terminal_eq_name.2 ⟨hkind, rfl⟩)

theorem reads_expect {finish : Place} {given rest : List Lexeme} {kind : TokenKind} {token : Token}
    (hkind : ∀ token : Token, token.kind = kind → token.terminal = .mark kind) (heof : kind ≠ .eof)
    (h : (Parse.expect kind).Yields finish given token rest) : Reads given [.mark kind] rest := by
  obtain ⟨lexeme, rfl, rfl, hlexeme⟩ := (Parse.yields_expect heof).1 h
  exact (reads_nil.2 rfl).cons (hkind _ hlexeme)

/-- The lexemes of one step are what the step adds to the print. -/
structure Grows (min : Nat) (lhs : Expr) (given : List Lexeme) (e : Expr) (rest : List Lexeme) :
    Prop where
  grouped : e.Grouped
  level : min ≤ e.level.power
  stops : Stops e.level.tail rest
  reads : ∃ ws, e.terminals = lhs.terminals ++ ws ∧ Reads given ws rest

mutual

theorem expr_sound {min : Nat} {given rest : List Lexeme} {e : Expr} (hmin : min ≤ unaryPower)
    (hgiven : AllTokens given) (h : (g.expr min given).Yields e rest) :
    ReadsExpr min given e rest := by
  obtain ⟨lhs, mid, hoperand, hclimb⟩ := yields_expr.1 h
  have hle := hoperand.length_le
  obtain ⟨hgrouped, hlevel, htail, hreads⟩ := operand_sound hgiven hoperand
  obtain ⟨hgrouped', hlevel', hstops, ws, hws, hreads'⟩ :=
    climb_sound hgrouped (Nat.le_trans hmin hlevel) htail (hgiven.of_suffix hreads.suffix) hclimb
  refine ⟨hgrouped', hlevel', hstops, ?_⟩
  rw [hws]
  exact hreads.trans hreads'
termination_by 6 * given.length + 3

theorem operand_sound {given rest : List Lexeme} {e : Expr} (hgiven : AllTokens given)
    (h : (g.operand given).Yields e rest) :
    e.Grouped ∧ unaryPower ≤ e.level.power ∧ Stops e.level.tail rest ∧
      Reads given e.terminals rest := by
  cases yields_operand.1 h with
  | @unary mark given rest op e hmark he =>
    have hsound := expr_sound (Nat.le_refl _) hgiven.tail he
    refine ⟨⟨hsound.grouped, Level.le_iff.2 hsound.level⟩, Nat.le_refl _, hsound.stops,
      hsound.reads.cons ?_⟩
    cases op <;> simp [Token.terminal, hmark, UnaryOp.mark]
  | @atom lexeme given e hnone hatom =>
    have hkind : lexeme.token.kind ≠ .invalid := hgiven lexeme (by simp)
    obtain ⟨hgrouped, hlevel, hterminals⟩ := atom?_ok hkind hatom
    rw [hlevel, hterminals]
    exact ⟨hgrouped, by decide, stops_of_le _ (by decide), (reads_nil.2 rfl).cons rfl⟩
  | @paren opening given mid rest e close hopen he hclose =>
    have hsound := expr_sound (Nat.zero_le _) hgiven.tail he
    have hread := reads_expect (by simp +contextual [Token.terminal]) (by decide) hclose
    exact ⟨hsound.grouped, Nat.le_of_ble_eq_true rfl, stops_of_le _ (Nat.le_refl _),
      (hsound.reads.cons (by simp [Token.terminal, hopen])).trans hread⟩
termination_by 6 * given.length + 1
decreasing_by all_goals subst_vars; simp only [List.length_cons]; omega

theorem climb_sound {min : Nat} {lhs e : Expr} {given rest : List Lexeme} (hlhs : lhs.Grouped)
    (hmin : min ≤ lhs.level.power) (htail : Stops lhs.level.tail given) (hgiven : AllTokens given)
    (h : (g.climb min lhs given).Yields e rest) :
    e.Grouped ∧ min ≤ e.level.power ∧ Stops min rest ∧
      ∃ ws, e.terminals = lhs.terminals ++ ws ∧ Reads given ws rest := by
  rcases climb_yields h with ⟨hstops, rfl, rfl⟩ | ⟨lhs', mid, hstep, hrest⟩
  · exact ⟨hlhs, hmin, hstops, [], by simp, reads_nil.2 rfl⟩
  · obtain ⟨hgrouped, hlevel, hstops, ws, hws, hreads⟩ := extends_sound hlhs htail hgiven hstep
    have hlt := hstep.length_lt
    obtain ⟨hgrouped', hlevel', hstops', ws', hws', hreads'⟩ :=
      climb_sound hgrouped hlevel hstops (hgiven.of_suffix hreads.suffix) hrest
    exact ⟨hgrouped', hlevel', hstops', ws ++ ws', by simp [hws', hws], hreads.trans hreads'⟩
termination_by 6 * given.length + 2

theorem extends_sound {min : Nat} {lhs e : Expr} {given rest : List Lexeme} (hlhs : lhs.Grouped)
    (htail : Stops lhs.level.tail given) (hgiven : AllTokens given)
    (h : g.Extends min lhs given e rest) : Grows min lhs given e rest := by
  cases h with
  | member hdot hmin hfield hcall =>
    rw [stops_cons, hdot] at htail
    have hobject : .postfixed ≤ lhs.level := Level.postfixed_le_iff.2 (htail _ rfl)
    have hread := reads_ident hfield
    have hle := hfield.length_le
    have hrest := arguments?_sound (hgiven.tail.of_suffix hread.suffix) hcall
    exact ⟨⟨hlhs, hobject⟩, hmin, stops_of_le _ (Nat.le_refl _), _, rfl,
      (hrest ▸ hread).cons (by simp [Token.terminal, hdot])⟩
  | call hdot hmin hmethod hcall =>
    rw [stops_cons, hdot] at htail
    have hobject : .postfixed ≤ lhs.level := Level.postfixed_le_iff.2 (htail _ rfl)
    have hread := reads_ident hmethod
    have hle := hmethod.length_le
    obtain ⟨hgrouped, hreads⟩ := arguments?_sound (hgiven.tail.of_suffix hread.suffix) hcall
    exact ⟨⟨hlhs, hobject, hgrouped⟩, hmin, stops_of_le _ (Nat.le_refl _), _,
      by simp [Expr.terminals],
      (hread.cons (w := .mark .dot) (by simp [Token.terminal, hdot])).trans hreads⟩
  | ternary hquestion hmin ht hcolon hf =>
    rw [stops_cons, hquestion] at htail
    have hcondition : .coalesce ≤ lhs.level := Level.coalesce_le_iff.2 (htail _ rfl)
    have htrue := expr_sound (Nat.zero_le _) hgiven.tail ht
    have hread := reads_expect (by simp +contextual [Token.terminal]) (by decide) hcolon
    have hmid := hgiven.tail.of_suffix (htrue.reads.trans hread).suffix
    have hlt := Nat.le_trans hcolon.length_le ht.length_le
    have hfalse := expr_sound (by decide) hmid hf
    exact ⟨⟨hlhs, hcondition, htrue.grouped, hfalse.grouped⟩, hmin, hfalse.stops,
      _, by rw [Expr.terminals, List.append_assoc, List.append_assoc]; rfl,
      ((htrue.reads.trans hread).trans hfalse.reads).cons
        (w := .mark .question) (by simp [Token.terminal, hquestion])⟩
  | @binary mark given rest op rhs hmark hmin hrhs =>
    rw [stops_cons, hmark] at htail
    have hleft : op.level ≤ lhs.level := BinaryOp.level_le_iff.2 (htail _ op.power?_mark)
    have hright := expr_sound op.rightPower_le hgiven.tail hrhs
    refine ⟨⟨hlhs, hleft, hright.grouped, BinaryOp.next_le_iff.2 hright.level⟩, ?_, ?_, _, rfl, ?_⟩
    · rwa [Expr.level, op.power_level]
    · rw [Expr.level, op.tail_level]
      exact hright.stops
    · refine hright.reads.cons ?_
      cases op <;> simp [Token.terminal, hmark, BinaryOp.mark]
termination_by 6 * given.length + 1
decreasing_by all_goals subst_vars; simp only [List.length_cons]; omega

theorem arguments?_sound {given rest : List Lexeme} {call : Option (List Expr × Span)}
    (hgiven : AllTokens given) (h : (g.arguments? given).Yields call rest) :
    match call with
    | none           => given = rest
    | some (args, _) =>
      Expr.AllGrouped args ∧
        Reads given (.mark .leftParen :: Expr.argTerminals args ++ [.mark .rightParen]) rest := by
  cases yields_arguments?.1 h with
  | none => rfl
  | @some opening given mid rest args close hopen hargs hclose =>
    obtain ⟨hgrouped, hreads⟩ := arguments_sound hgiven.tail hargs
    have hread := reads_expect (by simp +contextual [Token.terminal]) (by decide) hclose
    exact ⟨hgrouped, (hreads.cons (by simp [Token.terminal, hopen])).trans hread⟩
termination_by 6 * given.length
decreasing_by all_goals subst_vars; simp only [List.length_cons]; omega

theorem arguments_sound {given rest : List Lexeme} {args : List Expr} (hgiven : AllTokens given)
    (h : (g.arguments given).Yields args rest) :
    Expr.AllGrouped args ∧ Reads given (Expr.argTerminals args) rest := by
  cases yields_arguments.1 h with
  | none => exact ⟨trivial, reads_nil.2 rfl⟩
  | some hargs =>
    obtain ⟨arg, more, rfl, hsound⟩ := argumentsOnto_sound hgiven hargs
    exact hsound
termination_by 6 * given.length + 5

theorem argumentsOnto_sound {out args : List Expr} {given rest : List Lexeme}
    (hgiven : AllTokens given) (h : (g.argumentsOnto out given).Yields args rest) :
    ∃ arg more, args = out.reverse ++ arg :: more ∧ Expr.AllGrouped (arg :: more) ∧
      Reads given (Expr.argTerminals (arg :: more)) rest := by
  cases yields_argumentsOnto.1 h with
  | @last rest arg harg =>
    have hsound := expr_sound (Nat.zero_le _) hgiven harg
    exact ⟨arg, [], by simp, ⟨hsound.grouped, trivial⟩, hsound.reads⟩
  | @more mid _ _ arg _ harg hcomma hmore =>
    have hsound := expr_sound (Nat.zero_le _) hgiven harg
    have hlt : mid.length < given.length := harg.length_le
    obtain ⟨next, more, rfl, hgrouped, hreads⟩ :=
      argumentsOnto_sound (hgiven.of_suffix hsound.reads.suffix).tail hmore
    exact ⟨arg, next :: more, by simp, ⟨hsound.grouped, hgrouped⟩,
      hsound.reads.trans (hreads.cons (by simp [Token.terminal, hcomma]))⟩
termination_by 6 * given.length + 4

end

/-! ## Prints are read -/

/-- None of the lexemes is an interpolated string. -/
def AllPlain (given : List Lexeme) : Prop :=
  ∀ lexeme ∈ given, lexeme.token.kind ≠ .interpolatedString

theorem AllPlain.of_suffix {given rest : List Lexeme} (h : AllPlain given)
    (hrest : rest <:+ given) : AllPlain rest :=
  fun lexeme hlexeme => h lexeme (hrest.subset hlexeme)

theorem AllPlain.tail {lexeme : Lexeme} {given : List Lexeme} (h : AllPlain (lexeme :: given)) :
    AllPlain given :=
  h.of_suffix (List.suffix_cons lexeme given)

theorem atom?_literal {token : Token} {value : Literal} (h : token.terminal = .literal value) :
    UnaryOp.ofToken? token.kind = none ∧
      g.atom? token = some (.ok (.literal value token.span, [])) := by
  unfold Token.terminal at h
  unfold atom?
  split at h
  case h_1 hint =>
    cases hvalue : intLiteral token <;> simp_all [UnaryOp.ofToken?, Except.map]
  all_goals simp_all [UnaryOp.ofToken?]

theorem atom?_name {token : Token} {x : String} (h : token.terminal = .name x) :
    UnaryOp.ofToken? token.kind = none ∧
      g.atom? token = some (.ok (.name ⟨x, token.span⟩, [])) := by
  obtain ⟨hkind, hlexeme⟩ := Token.terminal_eq_name.1 h
  simp [atom?, hkind, hlexeme, UnaryOp.ofToken?]

theorem yields_expect_of_reads {finish : Place} {given rest : List Lexeme}
    {kind : TokenKind} {ws : List Terminal} (heof : kind ≠ .eof)
    (h : Reads given (.mark kind :: ws) rest) :
    ∃ token mid, (Parse.expect kind).Yields finish given token mid ∧ Reads mid ws rest := by
  obtain ⟨lexeme, mid, rfl, hkind, hws⟩ := reads_cons.1 h
  exact ⟨lexeme.token, mid,
    (Parse.yields_expect heof).2 ⟨lexeme, rfl, rfl, Token.terminal_eq_mark hkind⟩, hws⟩

theorem yields_ident_of_reads {finish : Place} {given rest : List Lexeme} {x : String}
    {ws : List Terminal} (h : Reads given (.name x :: ws) rest) :
    ∃ span mid, Parse.ident.Yields finish given ⟨x, span⟩ mid ∧ Reads mid ws rest := by
  obtain ⟨lexeme, mid, rfl, hname, hws⟩ := reads_cons.1 h
  obtain ⟨hkind, rfl⟩ := Token.terminal_eq_name.1 hname
  exact ⟨lexeme.token.span, mid, Parse.yields_ident.2 ⟨lexeme, rfl, hkind, rfl⟩, hws⟩

/-- An expression that leaves the operators down from `min` ends before a mark. -/
theorem stops_of_reads (min : Nat) {given rest : List Lexeme} {kind : TokenKind}
    {ws : List Terminal} (h : Reads given (.mark kind :: ws) rest)
    (hpower : ∀ power ∈ kind.power?, power < min) (hkind : kind ≠ .leftParen) :
    Stops min given ∧ Closed given := by
  obtain ⟨lexeme, mid, rfl, hlexeme, -⟩ := reads_cons.1 h
  have hmark := Token.terminal_eq_mark hlexeme
  refine ⟨stops_cons.2 (hmark ▸ hpower), ?_⟩
  intro l hl
  obtain rfl : lexeme = l := by simpa using hl
  rwa [hmark]

/-- Every expression ends before a mark that is no operator. -/
theorem ends_of_reads {given rest : List Lexeme} {kind : TokenKind} {ws : List Terminal}
    (h : Reads given (.mark kind :: ws) rest) (hpower : kind.power? = none)
    (hkind : kind ≠ .leftParen) : (∀ min, Stops min given) ∧ Closed given := by
  have hnone : ∀ min, ∀ power ∈ kind.power?, power < min := by simp [hpower]
  exact ⟨fun min => (stops_of_reads min h (hnone min) hkind).1,
    (stops_of_reads 0 h (hnone 0) hkind).2⟩

/-- An expression is read where a climb from it is. -/
def Reaches (g : Grammar) (min : Nat) (given : List Lexeme) (e : Expr) (rest : List Lexeme) :
    Prop :=
  ∃ e' : Expr, e'.bare = e.bare ∧
    ∀ out rest', (g.climb min e' rest).Yields out rest' → (g.expr min given).Yields out rest'

theorem Reaches.yields {min : Nat} {given rest : List Lexeme} {e : Expr}
    (h : g.Reaches min given e rest) (hstops : Stops min rest) :
    ∃ e' : Expr, e'.bare = e.bare ∧ (g.expr min given).Yields e' rest := by
  obtain ⟨e', hbare, hclimb⟩ := h
  refine ⟨e', hbare, hclimb e' rest ?_⟩
  rw [climb_of_stops e' hstops]
  exact Reply.yields_ok.2 ⟨rfl, rfl⟩

theorem Reaches.of_operand {min : Nat} {given rest : List Lexeme} {e e' : Expr}
    (h : g.Operand given e' rest) (hbare : e'.bare = e.bare) : g.Reaches min given e rest :=
  ⟨e', hbare, fun _ _ hclimb => expr_of_operand (yields_operand.2 h) hclimb⟩

mutual

/-- The lexemes that print a grouped expression are read as it, up to a climb that goes on from
behind them. -/
theorem reaches (min : Nat) {given rest : List Lexeme} (e : Expr) (hg : e.Grouped)
    (hmin : min ≤ e.level.power) (hgiven : AllPlain given)
    (hreads : Reads given e.terminals rest) (hstops : Stops e.level.tail rest)
    (hclosed : Closed rest) : g.Reaches min given e rest := by
  cases e with
  | literal value span =>
    obtain ⟨lexeme, mid, rfl, hvalue, hmid⟩ := reads_cons.1 hreads
    obtain rfl := reads_nil.1 hmid
    obtain ⟨hnone, hatom⟩ := atom?_literal hvalue
    exact .of_operand (.atom hnone hatom) rfl
  | name x =>
    obtain ⟨lexeme, mid, rfl, hname, hmid⟩ := reads_cons.1 hreads
    obtain rfl := reads_nil.1 hmid
    obtain ⟨hnone, hatom⟩ := atom?_name hname
    exact .of_operand (.atom hnone hatom) rfl
  | interpolated segments span =>
    obtain ⟨lexeme, mid, rfl, hmark, -⟩ := reads_cons.1 hreads
    exact absurd (Token.terminal_eq_mark hmark) (hgiven lexeme (by simp))
  | member object field span =>
    obtain ⟨mid, hobject, hmid⟩ := reads_append.1 hreads
    obtain ⟨hs, hc⟩ := stops_of_reads object.level.tail hmid
      (by rintro _ ⟨⟩; exact Level.postfixed_le_iff.1 hg.2) (by decide)
    obtain ⟨object', hbare, hclimb⟩ :=
      reaches min object hg.1 (Nat.le_trans hmin (Level.le_iff.1 hg.2)) hgiven hobject hs hc
    obtain ⟨dot, mid', rfl, hdot, hname⟩ := reads_cons.1 hmid
    obtain ⟨fieldSpan, mid'', hfield, hnil⟩ := yields_ident_of_reads hname
    obtain rfl := reads_nil.1 hnil
    refine ⟨_, ?_, fun out rest' hout => hclimb out rest' (Extends.climb (.member
      (Token.terminal_eq_mark hdot) hmin hfield (yields_arguments?.2 (.none hclosed))) hout)⟩
    simp [Expr.bare, hbare]
  | call receiver method args span =>
    obtain ⟨mid₃, hhead, hclose⟩ := reads_append.1 hreads
    obtain ⟨mid, hreceiver, hmid⟩ := reads_append.1 hhead
    obtain ⟨hs, hc⟩ := stops_of_reads receiver.level.tail hmid
      (by rintro _ ⟨⟩; exact Level.postfixed_le_iff.1 hg.2.1) (by decide)
    obtain ⟨receiver', hbare, hclimb⟩ :=
      reaches min receiver hg.1 (Nat.le_trans hmin (Level.le_iff.1 hg.2.1)) hgiven hreceiver hs hc
    have hrest := hgiven.of_suffix hreceiver.suffix
    obtain ⟨dot, mid₁, rfl, hdot, hname⟩ := reads_cons.1 hmid
    obtain ⟨nameSpan, mid₂, hmethod, hopen⟩ := yields_ident_of_reads hname
    obtain ⟨opening, mid', rfl, hparen, hargs⟩ := reads_cons.1 hopen
    have hrest' := (hrest.tail.of_suffix (reads_ident hmethod).suffix).tail
    obtain ⟨args', hbareArgs, hyields⟩ := arguments_complete args hg.2.2 hrest' hargs hclose
    obtain ⟨token, rest', hexpect, hnil⟩ := yields_expect_of_reads (by decide) hclose
    obtain rfl := reads_nil.1 hnil
    have hcall := yields_arguments?.2 (.some (Token.terminal_eq_mark hparen) hyields hexpect)
    refine ⟨_, ?_, fun out rest' hout => hclimb out rest' (Extends.climb (.call
      (Token.terminal_eq_mark hdot) hmin hmethod hcall) hout)⟩
    simp [Expr.bare, hbare, hbareArgs]
  | unary op operand span =>
    obtain ⟨lexeme, mid, rfl, hmark, hoperand⟩ := reads_cons.1 hreads
    have hreaches := reaches unaryPower operand hg.1 (Level.le_iff.1 hg.2) hgiven.tail hoperand
      (hstops.mono (Level.unary_le_tail hg.2)) hclosed
    obtain ⟨operand', hbare, hyields⟩ := hreaches.yields hstops
    exact .of_operand (.unary (Token.terminal_eq_mark hmark) hyields) (by simp [Expr.bare, hbare])
  | binary op left right span =>
    obtain ⟨mid, hleft, hmid⟩ := reads_append.1 hreads
    obtain ⟨hs, hc⟩ := stops_of_reads left.level.tail hmid
      (by rw [op.power?_mark]; rintro _ ⟨⟩; exact BinaryOp.level_le_iff.1 hg.2.1)
      (by cases op <;> decide)
    have hmin' : min ≤ op.leftPower := op.power_level ▸ hmin
    obtain ⟨left', hbare, hclimb⟩ :=
      reaches min left hg.1 (Nat.le_trans hmin (Level.le_iff.1 hg.2.1)) hgiven hleft hs hc
    obtain ⟨mark, mid', rfl, hmark, hright⟩ := reads_cons.1 hmid
    rw [Expr.level, op.tail_level] at hstops
    have hreaches := reaches op.rightPower right hg.2.2.1
      (BinaryOp.next_le_iff.1 hg.2.2.2) (hgiven.of_suffix hleft.suffix).tail hright
      (hstops.mono (BinaryOp.rightPower_le_tail hg.2.2.2)) hclosed
    obtain ⟨right', hbare', hyields⟩ := hreaches.yields hstops
    refine ⟨_, ?_, fun out rest' hout => hclimb out rest' (Extends.climb (.binary
      (Token.terminal_eq_mark hmark) hmin' hyields) hout)⟩
    simp [Expr.bare, hbare, hbare']
  | ternary condition whenTrue whenFalse span =>
    obtain ⟨mid₂, hhead, hcolon⟩ := reads_append.1 hreads
    obtain ⟨mid, hcondition, hmid⟩ := reads_append.1 hhead
    obtain ⟨hs, hc⟩ := stops_of_reads condition.level.tail hmid
      (by rintro _ ⟨⟩; exact Level.coalesce_le_iff.1 hg.2.1) (by decide)
    obtain ⟨condition', hbare, hclimb⟩ := reaches min condition hg.1
      (Nat.le_trans hmin (Level.le_iff.1 condition.le_level)) hgiven hcondition hs hc
    have hrest := hgiven.of_suffix hcondition.suffix
    obtain ⟨question, mid₁, rfl, hquestion, htrue⟩ := reads_cons.1 hmid
    obtain ⟨hends, hcolonClosed⟩ := ends_of_reads hcolon rfl (by decide)
    obtain ⟨whenTrue', hbareTrue, hyieldsTrue⟩ :=
      (reaches 0 whenTrue hg.2.2.1 (Nat.zero_le _) hrest.tail htrue (hends _) hcolonClosed).yields
        (hends 0)
    obtain ⟨token, mid₃, hexpect, hfalse⟩ := yields_expect_of_reads (by decide) hcolon
    have hread := reads_expect (by simp +contextual [Token.terminal]) (by decide) hexpect
    have hrest' := (hrest.tail.of_suffix htrue.suffix).of_suffix hread.suffix
    obtain ⟨whenFalse', hbareFalse, hyieldsFalse⟩ :=
      (reaches ternaryPower whenFalse hg.2.2.2 (Level.le_iff.1 whenFalse.le_level) hrest' hfalse
        (hstops.mono (Level.ternary_le_tail _)) hclosed).yields hstops
    refine ⟨_, ?_, fun out rest' hout => hclimb out rest' (Extends.climb (.ternary
      (Token.terminal_eq_mark hquestion) hmin hyieldsTrue hexpect hyieldsFalse) hout)⟩
    simp [Expr.bare, hbare, hbareTrue, hbareFalse]
  | paren inner span =>
    obtain ⟨mid₁, hhead, hclose⟩ := reads_append.1 hreads
    obtain ⟨opening, mid, rfl, hparen, hinner⟩ := reads_cons.1 hhead
    obtain ⟨hends, hclosed'⟩ := ends_of_reads hclose rfl (by decide)
    obtain ⟨inner', hbare, hyields⟩ :=
      (reaches 0 inner hg (Nat.zero_le _) hgiven.tail hinner (hends _) hclosed').yields (hends 0)
    obtain ⟨token, rest', hexpect, hnil⟩ := yields_expect_of_reads (by decide) hclose
    obtain rfl := reads_nil.1 hnil
    exact .of_operand (.paren (Token.terminal_eq_mark hparen) hyields hexpect)
      (by simp [Expr.bare, hbare])
termination_by sizeOf e

/-- The lexemes that print arguments are read as them, up to the parenthesis that closes. -/
theorem arguments_complete {given rest end_ : List Lexeme} (args : List Expr)
    (hg : Expr.AllGrouped args) (hgiven : AllPlain given)
    (hreads : Reads given (Expr.argTerminals args) rest)
    (hclose : Reads rest [.mark .rightParen] end_) :
    ∃ args', Expr.bareArgs args' = Expr.bareArgs args ∧ (g.arguments given).Yields args' rest := by
  cases args with
  | nil =>
    obtain rfl := reads_nil.1 hreads
    obtain ⟨close, _, rfl, hparen, -⟩ := reads_cons.1 hclose
    exact ⟨[], rfl, yields_arguments.2 (.none (by simp [Token.terminal_eq_mark hparen]))⟩
  | cons arg more =>
    obtain ⟨args', hbare, hyields⟩ :=
      argumentsOnto_complete [] arg more hg hgiven hreads hclose
    exact ⟨args', hbare, yields_arguments.2 (.some hyields)⟩
termination_by sizeOf args

theorem argumentsOnto_complete {given rest end_ : List Lexeme} (out : List Expr) (arg : Expr)
    (more : List Expr) (hg : Expr.AllGrouped (arg :: more)) (hgiven : AllPlain given)
    (hreads : Reads given (Expr.argTerminals (arg :: more)) rest)
    (hclose : Reads rest [.mark .rightParen] end_) :
    ∃ args', Expr.bareArgs args' = Expr.bareArgs (arg :: more) ∧
      (g.argumentsOnto out given).Yields (out.reverse ++ args') rest := by
  cases more with
  | nil =>
    obtain ⟨hends, hclosed⟩ := ends_of_reads hclose rfl (by decide)
    obtain ⟨arg', hbare, hyields⟩ :=
      (reaches 0 arg hg.1 (Nat.zero_le _) hgiven hreads (hends _) hclosed).yields (hends 0)
    obtain ⟨close, _, rfl, hparen, -⟩ := reads_cons.1 hclose
    refine ⟨[arg'], by simp [Expr.bareArgs, hbare], ?_⟩
    rw [← List.reverse_cons]
    exact yields_argumentsOnto.2 (.last hyields (by simp [Token.terminal_eq_mark hparen]))
  | cons next more =>
    obtain ⟨mid, harg, hmid⟩ := reads_append.1 hreads
    obtain ⟨hends, hclosed⟩ := ends_of_reads hmid rfl (by decide)
    obtain ⟨arg', hbare, hyields⟩ :=
      (reaches 0 arg hg.1 (Nat.zero_le _) hgiven harg (hends _) hclosed).yields (hends 0)
    have hrest := hgiven.of_suffix harg.suffix
    obtain ⟨comma, mid', rfl, hcomma, hmore⟩ := reads_cons.1 hmid
    obtain ⟨args', hbareArgs, hyieldsArgs⟩ :=
      argumentsOnto_complete (arg' :: out) next more hg.2 hrest.tail hmore hclose
    refine ⟨arg' :: args', by simp [Expr.bareArgs, hbare, hbareArgs], ?_⟩
    rw [List.reverse_cons, List.append_assoc] at hyieldsArgs
    exact yields_argumentsOnto.2 (.more hyields (Token.terminal_eq_mark hcomma) hyieldsArgs)
termination_by sizeOf arg + sizeOf more

end

end Grammar

end TypedTemplate
