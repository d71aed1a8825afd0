-- SUMMARY: What each function of the expression parser takes from the lexemes, and what it gives.
import TypedTemplate.Proofs.Grammar.Phrase
import TypedTemplate.Proofs.Grammar.Yield

/-!
# Productions

For each function of the expression parser there is a relation that says what it takes and what it
gives when nothing goes wrong, with a case for each way through the function. What is proved of
expressions goes by these cases, so that only this module looks into the functions.
-/

namespace TypedTemplate

/-! ## Operators -/

/-- The power of the operator that a token of the kind is behind an operand. -/
def TokenKind.power? (kind : TokenKind) : Option Nat :=
  if kind = .dot then some memberPower
  else if kind = .question then some ternaryPower
  else (BinaryOp.ofToken? kind).map BinaryOp.leftPower

/-- No operator comes next that binds at least as tightly as `min`. -/
def Stops (min : Nat) (given : List Lexeme) : Prop :=
  ∀ lexeme ∈ given.head?, ∀ power ∈ lexeme.token.kind.power?, power < min

theorem stops_nil {min : Nat} : Stops min [] := by
  simp [Stops]

theorem stops_cons {min : Nat} {lexeme : Lexeme} {given : List Lexeme} :
    Stops min (lexeme :: given) ↔ ∀ power ∈ lexeme.token.kind.power?, power < min := by
  simp [Stops]

theorem Stops.mono {min min' : Nat} {given : List Lexeme} (h : Stops min given) (hle : min ≤ min') :
    Stops min' given := by
  intro lexeme hlexeme power hpower
  exact Nat.lt_of_lt_of_le (h lexeme hlexeme power hpower) hle

theorem BinaryOp.ofToken?_mark (op : BinaryOp) : ofToken? op.mark = some op := by
  cases op <;> rfl

theorem BinaryOp.mark_of_ofToken? {kind : TokenKind} {op : BinaryOp} (h : ofToken? kind = some op) :
    kind = op.mark := by
  unfold ofToken? at h
  split at h <;> cases h <;> rfl

theorem BinaryOp.power?_mark (op : BinaryOp) : op.mark.power? = some op.leftPower := by
  cases op <;> rfl

theorem UnaryOp.ofToken?_mark (op : UnaryOp) : ofToken? op.mark = some op := by
  cases op <;> rfl

theorem UnaryOp.mark_of_ofToken? {kind : TokenKind} {op : UnaryOp} (h : ofToken? kind = some op) :
    kind = op.mark := by
  unfold ofToken? at h
  split at h <;> cases h <;> rfl

/-- No operator binds tighter than member access. -/
theorem TokenKind.power_le {kind : TokenKind} {power : Nat} (h : kind.power? = some power) :
    power ≤ memberPower := by
  revert h
  cases kind <;> simp [power?, BinaryOp.ofToken?, BinaryOp.leftPower, memberPower, ternaryPower] <;>
    omega

theorem stops_of_le {min : Nat} (given : List Lexeme) (h : memberPower < min) : Stops min given := by
  intro lexeme _ power hpower
  exact Nat.lt_of_le_of_lt (TokenKind.power_le hpower) h

namespace Grammar

variable {g : Grammar} {given mid rest : List Lexeme} {e : Expr}

/-! ## Operands -/

/-- An operand is an operator before an expression, a token, or an expression in parentheses. -/
inductive Operand (g : Grammar) : List Lexeme → Expr → List Lexeme → Prop where
  | unary {mark : Lexeme} {given rest : List Lexeme} {op : UnaryOp} {e : Expr} :
      mark.token.kind = op.mark → (g.expr unaryPower given).Yields e rest →
        Operand g (mark :: given) (.unary op e (mark.token.span.merge e.span)) rest
  | atom {lexeme : Lexeme} {given : List Lexeme} {e : Expr} :
      UnaryOp.ofToken? lexeme.token.kind = none → g.atom? lexeme.token = some (.ok (e, [])) →
        Operand g (lexeme :: given) e given
  | paren {opening : Lexeme} {given mid rest : List Lexeme} {e : Expr} {close : Token} :
      opening.token.kind = .leftParen → (g.expr 0 given).Yields e mid →
        (Parse.expect .rightParen).Yields g.finish mid close rest →
          Operand g (opening :: given) (.paren e (opening.token.span.merge close.span)) rest

theorem yields_operand : (g.operand given).Yields e rest ↔ g.Operand given e rest := by
  constructor
  · intro h
    cases given with
    | nil => simp [operand] at h
    | cons lexeme given =>
      rw [operand] at h
      split at h
      case h_1 op hop =>
        obtain ⟨inner, mid, -, hinner, h⟩ := Reply.yields_andThen.1 (Reply.yields_taking.1 h)
        obtain ⟨rfl, rfl⟩ := Reply.yields_ok.1 h
        exact .unary (UnaryOp.mark_of_ofToken? hop) hinner
      case h_2 hnone =>
        split at h
        case h_1 a errors hatom =>
          obtain ⟨rfl, rfl, rfl⟩ : errors = [] ∧ a = e ∧ given = rest := by simpa using h
          exact .atom hnone hatom
        case h_2 => simp at h
        case h_3 =>
          split at h
          case isTrue hparen =>
            obtain ⟨inner, mid, -, hinner, h⟩ := Reply.yields_andThen.1 (Reply.yields_taking.1 h)
            obtain ⟨close, rest', -, hclose, h⟩ := Reply.yields_andThen.1 h
            obtain ⟨rfl, rfl⟩ := Reply.yields_ok.1 h
            exact .paren hparen hinner hclose
          case isFalse => simp at h
  · intro h
    cases h with
    | @unary _ _ _ op _ hmark he =>
      rw [operand]
      simp only [hmark, op.ofToken?_mark]
      exact he.andThen (Reply.yields_ok.2 ⟨rfl, rfl⟩)
    | atom hnone hatom =>
      rw [operand]
      simp [hnone, hatom]
    | paren hopen he hclose =>
      rw [operand]
      simp only [hopen, UnaryOp.ofToken?, atom?, if_true]
      exact he.andThen (Reply.Yields.andThen hclose (Reply.yields_ok.2 ⟨rfl, rfl⟩))

/-! ## Climbing -/

theorem yields_expr {min : Nat} : (g.expr min given).Yields e rest ↔
    ∃ lhs mid, (g.operand given).Yields lhs mid ∧ (g.climb min lhs mid).Yields e rest := by
  rw [expr]
  constructor
  · intro h
    obtain ⟨lhs, mid, -, hlhs, hclimb⟩ := Reply.yields_andThen.1 h
    exact ⟨lhs, mid, hlhs, hclimb⟩
  · rintro ⟨lhs, mid, hlhs, hclimb⟩
    exact hlhs.andThen hclimb

theorem expr_of_operand {min : Nat} {lhs : Expr} (hlhs : (g.operand given).Yields lhs mid)
    (h : (g.climb min lhs mid).Yields e rest) : (g.expr min given).Yields e rest :=
  yields_expr.2 ⟨lhs, mid, hlhs, h⟩

/-- One step of the climb: the next operator takes `lhs` for its left operand. -/
inductive Extends (g : Grammar) (min : Nat) (lhs : Expr) :
    List Lexeme → Expr → List Lexeme → Prop where
  | member {dot : Lexeme} {given mid rest : List Lexeme} {field : Ident} :
      dot.token.kind = .dot → min ≤ memberPower →
        Parse.ident.Yields g.finish given field mid → (g.arguments? mid).Yields none rest →
          Extends g min lhs (dot :: given) (.member lhs field (lhs.span.merge field.span)) rest
  | call {dot : Lexeme} {given mid rest : List Lexeme} {method : Ident} {args : List Expr}
      {closing : Span} :
      dot.token.kind = .dot → min ≤ memberPower →
        Parse.ident.Yields g.finish given method mid →
          (g.arguments? mid).Yields (some (args, closing)) rest →
            Extends g min lhs (dot :: given) (.call lhs method args (lhs.span.merge closing)) rest
  | ternary {question : Lexeme} {given mid mid' rest : List Lexeme} {colon : Token} {t f : Expr} :
      question.token.kind = .question → min ≤ ternaryPower →
        (g.expr 0 given).Yields t mid → (Parse.expect .colon).Yields g.finish mid colon mid' →
          (g.expr ternaryPower mid').Yields f rest →
            Extends g min lhs (question :: given) (.ternary lhs t f (lhs.span.merge f.span)) rest
  | binary {mark : Lexeme} {given rest : List Lexeme} {op : BinaryOp} {rhs : Expr} :
      mark.token.kind = op.mark → min ≤ op.leftPower →
        (g.expr op.rightPower given).Yields rhs rest →
          Extends g min lhs (mark :: given) (.binary op lhs rhs (lhs.span.merge rhs.span)) rest

theorem climb_of_stops {min : Nat} {given : List Lexeme} (lhs : Expr) (h : Stops min given) :
    g.climb min lhs given = .ok lhs := by
  cases given with
  | nil => rw [climb]
  | cons lexeme given =>
    rw [stops_cons] at h
    rw [climb]
    unfold TokenKind.power? at h
    split
    case isTrue hdot => simp [hdot, h]
    case isFalse hdot =>
      split
      case isTrue hquestion => simp [hquestion, h]
      case isFalse hquestion =>
        simp only [hdot, hquestion, if_false] at h
        cases hop : BinaryOp.ofToken? lexeme.token.kind <;> simp_all

/-- After a step the climb goes on with the extended expression. -/
theorem Extends.climb {min : Nat} {lhs lhs' e : Expr} {given mid rest : List Lexeme}
    (h : g.Extends min lhs given lhs' mid) (hrest : (g.climb min lhs' mid).Yields e rest) :
    (g.climb min lhs given).Yields e rest := by
  cases h with
  | member hdot hmin hfield hcall =>
    rw [Grammar.climb, if_pos hdot, if_neg (Nat.not_lt.2 hmin)]
    exact Reply.Yields.andThen hfield (hcall.andThen hrest)
  | call hdot hmin hmethod hcall =>
    rw [Grammar.climb, if_pos hdot, if_neg (Nat.not_lt.2 hmin)]
    exact Reply.Yields.andThen hmethod (hcall.andThen hrest)
  | ternary hquestion hmin ht hcolon hf =>
    have hdot : ¬ (TokenKind.question = .dot) := by decide
    rw [Grammar.climb]
    simp only [hquestion, hdot, if_false, if_true, Nat.not_lt.2 hmin]
    exact ht.andThen (Reply.Yields.andThen hcolon (hf.andThen hrest))
  | binary hmark hmin hrhs =>
    rename_i op rhs
    have hdot : ¬ (op.mark = .dot) := by cases op <;> decide
    have hquestion : ¬ (op.mark = .question) := by cases op <;> decide
    rw [Grammar.climb]
    simp only [hmark, hdot, hquestion, if_false, op.ofToken?_mark, Nat.not_lt.2 hmin]
    exact hrhs.andThen hrest

/-- A climb stops at once or goes on from a step. -/
theorem climb_yields {min : Nat} {lhs e : Expr} {given rest : List Lexeme}
    (h : (g.climb min lhs given).Yields e rest) :
    (Stops min given ∧ lhs = e ∧ given = rest) ∨
      ∃ lhs' mid, g.Extends min lhs given lhs' mid ∧ (g.climb min lhs' mid).Yields e rest := by
  by_cases hstops : Stops min given
  · rw [climb_of_stops lhs hstops, Reply.yields_ok] at h
    exact .inl ⟨hstops, h⟩
  refine .inr ?_
  cases given with
  | nil => exact absurd stops_nil hstops
  | cons lexeme given =>
    rw [stops_cons] at hstops
    unfold TokenKind.power? at hstops
    rw [climb] at h
    split at h
    case isTrue hdot =>
      rw [if_neg (by simpa [hdot] using hstops)] at h
      obtain ⟨field, mid, -, hfield, h⟩ := Reply.yields_andThen.1 (Reply.yields_taking.1 h)
      obtain ⟨call, mid', -, hcall, h⟩ := Reply.yields_andThen.1 h
      cases call with
      | none => exact ⟨_, _, .member hdot (by simpa [hdot] using hstops) hfield hcall, h⟩
      | some call => exact ⟨_, _, .call hdot (by simpa [hdot] using hstops) hfield hcall, h⟩
    case isFalse hdot =>
      split at h
      case isTrue hquestion =>
        rw [if_neg (by simpa [hquestion] using hstops)] at h
        obtain ⟨t, mid, -, ht, h⟩ := Reply.yields_andThen.1 (Reply.yields_taking.1 h)
        obtain ⟨colon, mid', -, hcolon, h⟩ := Reply.yields_andThen.1 h
        obtain ⟨f, mid'', -, hf, h⟩ := Reply.yields_andThen.1 h
        exact ⟨_, _, .ternary hquestion (by simpa [hquestion] using hstops) ht hcolon hf, h⟩
      case isFalse hquestion =>
        simp only [hdot, hquestion, if_false] at hstops
        split at h
        case h_1 hop => simp [hop] at hstops
        case h_2 op hop =>
          have hmin : min ≤ op.leftPower := by simpa [hop] using hstops
          rw [if_neg (Nat.not_lt.2 hmin)] at h
          obtain ⟨rhs, mid, -, hrhs, h⟩ := Reply.yields_andThen.1 (Reply.yields_taking.1 h)
          exact ⟨_, _, .binary (BinaryOp.mark_of_ofToken? hop) hmin hrhs, h⟩

theorem Extends.length_lt {min : Nat} {lhs lhs' : Expr} {given mid : List Lexeme}
    (h : g.Extends min lhs given lhs' mid) : mid.length < given.length := by
  cases h with
  | member _ _ hfield hcall =>
    exact Nat.lt_succ_of_le (Nat.le_trans hcall.length_le hfield.length_le)
  | call _ _ hmethod hcall =>
    exact Nat.lt_succ_of_le (Nat.le_trans hcall.length_le hmethod.length_le)
  | ternary _ _ ht hcolon hf =>
    exact Nat.lt_succ_of_le
      (Nat.le_trans hf.length_le (Nat.le_trans hcolon.length_le ht.length_le))
  | binary _ _ hrhs => exact Nat.lt_succ_of_le hrhs.length_le

/-! ## Arguments -/

/-- No parenthesis opens next, which would make a call of a member. -/
def Closed (given : List Lexeme) : Prop := ∀ lexeme ∈ given.head?, lexeme.token.kind ≠ .leftParen

/-- The arguments of a call, where a parenthesis makes a member one. -/
inductive Called (g : Grammar) : List Lexeme → Option (List Expr × Span) → List Lexeme → Prop where
  | none {given : List Lexeme} : Closed given → Called g given none given
  | some {opening : Lexeme} {given mid rest : List Lexeme} {args : List Expr} {close : Token} :
      opening.token.kind = .leftParen → (g.arguments given).Yields args mid →
        (Parse.expect .rightParen).Yields g.finish mid close rest →
          Called g (opening :: given) (some (args, close.span)) rest

theorem yields_arguments? {call : Option (List Expr × Span)} :
    (g.arguments? given).Yields call rest ↔ g.Called given call rest := by
  constructor
  · intro h
    cases given with
    | nil =>
      rw [arguments?] at h
      obtain ⟨rfl, rfl⟩ := Reply.yields_ok.1 h
      exact .none (by simp [Closed])
    | cons opening given =>
      rw [arguments?] at h
      split at h
      case isTrue hopen =>
        obtain ⟨args, mid, -, hargs, h⟩ := Reply.yields_andThen.1 (Reply.yields_taking.1 h)
        obtain ⟨close, rest', -, hclose, h⟩ := Reply.yields_andThen.1 h
        obtain ⟨rfl, rfl⟩ := Reply.yields_ok.1 h
        exact .some hopen hargs hclose
      case isFalse hopen =>
        obtain ⟨rfl, rfl⟩ := Reply.yields_ok.1 h
        exact .none (by simpa [Closed] using hopen)
  · intro h
    cases h with
    | none hclosed =>
      cases given with
      | nil =>
        rw [arguments?]
        exact Reply.yields_ok.2 ⟨rfl, rfl⟩
      | cons lexeme given =>
        rw [arguments?, if_neg (hclosed lexeme rfl)]
        exact Reply.yields_ok.2 ⟨rfl, rfl⟩
    | some hopen hargs hclose =>
      rw [arguments?, if_pos hopen]
      exact hargs.andThen (Reply.Yields.andThen hclose (Reply.yields_ok.2 ⟨rfl, rfl⟩))

/-- Arguments end behind an expression that no comma follows. -/
inductive ArgumentsOnto (g : Grammar) (out : List Expr) (given : List Lexeme) :
    List Expr → List Lexeme → Prop where
  | last {rest : List Lexeme} {arg : Expr} :
      (g.expr 0 given).Yields arg rest → (∀ lexeme ∈ rest.head?, lexeme.token.kind ≠ .comma) →
        ArgumentsOnto g out given (arg :: out).reverse rest
  | more {mid rest : List Lexeme} {comma : Lexeme} {arg : Expr} {args : List Expr} :
      (g.expr 0 given).Yields arg (comma :: mid) → comma.token.kind = .comma →
        (g.argumentsOnto (arg :: out) mid).Yields args rest → ArgumentsOnto g out given args rest

theorem yields_argumentsOnto {out args : List Expr} :
    (g.argumentsOnto out given).Yields args rest ↔ g.ArgumentsOnto out given args rest := by
  rw [argumentsOnto]
  constructor
  · intro h
    obtain ⟨arg, mid, hle, harg, h⟩ := Reply.yields_andThen.1 h
    cases mid with
    | nil =>
      obtain ⟨rfl, rfl⟩ := Reply.yields_ok.1 h
      exact .last harg (by simp)
    | cons comma mid =>
      simp only at h
      split at h
      case isTrue hcomma => exact .more harg hcomma (Reply.yields_taking.1 h)
      case isFalse hcomma =>
        obtain ⟨rfl, rfl⟩ := Reply.yields_ok.1 h
        exact .last harg (by simpa using hcomma)
  · intro h
    cases h with
    | last harg hrest =>
      refine harg.andThen ?_
      cases rest with
      | nil => exact Reply.yields_ok.2 ⟨rfl, rfl⟩
      | cons lexeme rest =>
        simp only [if_neg (hrest lexeme rfl)]
        exact Reply.yields_ok.2 ⟨rfl, rfl⟩
    | more harg hcomma hmore =>
      refine harg.andThen ?_
      simp only [if_pos hcomma]
      exact hmore

/-- Arguments do not start with the parenthesis that closes. -/
theorem head_of_argumentsOnto {out args : List Expr}
    (h : (g.argumentsOnto out given).Yields args rest) :
    ¬ given.head?.any (·.token.kind = .rightParen) := by
  obtain ⟨arg, mid, harg⟩ : ∃ arg mid, (g.expr 0 given).Yields arg mid := by
    cases yields_argumentsOnto.1 h with
    | last harg => exact ⟨_, _, harg⟩
    | more harg => exact ⟨_, _, harg⟩
  obtain ⟨lhs, mid', hlhs, -⟩ := yields_expr.1 harg
  cases yields_operand.1 hlhs with
  | @unary _ _ _ op _ hmark => cases op <;> simp [hmark, UnaryOp.mark]
  | @atom lexeme _ _ _ hatom =>
    intro hclose
    have hkind : lexeme.token.kind = .rightParen := by simpa using hclose
    simp [atom?, hkind] at hatom
  | paren hopen => simp [hopen]

/-- There are no arguments where the parenthesis closes at once. -/
inductive Arguments (g : Grammar) (given : List Lexeme) : List Expr → List Lexeme → Prop where
  | none : given.head?.any (·.token.kind = .rightParen) → Arguments g given [] given
  | some {rest : List Lexeme} {args : List Expr} :
      (g.argumentsOnto [] given).Yields args rest → Arguments g given args rest

theorem yields_arguments {args : List Expr} :
    (g.arguments given).Yields args rest ↔ g.Arguments given args rest := by
  constructor
  · intro h
    rw [arguments] at h
    split at h
    case isTrue hclose =>
      obtain ⟨rfl, rfl⟩ := Reply.yields_ok.1 h
      exact .none hclose
    case isFalse => exact .some h
  · intro h
    cases h with
    | none hclose =>
      rw [arguments, if_pos hclose]
      exact Reply.yields_ok.2 ⟨rfl, rfl⟩
    | some hargs =>
      rw [arguments, if_neg (head_of_argumentsOnto hargs)]
      exact hargs

end Grammar

end TypedTemplate
