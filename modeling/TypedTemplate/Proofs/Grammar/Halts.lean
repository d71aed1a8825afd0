-- SUMMARY: An expression before a semicolon is parsed up to there at most, also if it has a fault.
import TypedTemplate.Proofs.Grammar.Climb

/-!
# Halting before a semicolon

No production of an expression takes a semicolon. So where one stands, the expression parser stops
at it or before it, whether it succeeds or fails, and what stands behind makes no difference. Where
no string is interpolated, nothing is recorded on the way either.
-/

namespace TypedTemplate

/-! ## Replies that record nothing -/

namespace Reply

variable {given mid rest : List Lexeme} {α β : Type} {a : α} {e : ParseError}
  {result : Except ParseError β}

/-- The parser gave the result, left `rest` and recorded no error. -/
def Ends (r : Reply given α) (result : Except ParseError α) (rest : List Lexeme) : Prop :=
  r.result = result ∧ r.rest = rest ∧ r.recorded = []

theorem ends_ok (a : α) : (ok a : Reply given α).Ends (.ok a) given := ⟨rfl, rfl, rfl⟩

theorem ends_fail (e : ParseError) : (fail e : Reply given α).Ends (.error e) given :=
  ⟨rfl, rfl, rfl⟩

theorem Ends.andThen {r : Reply given α}
    {next : α → (rest : List Lexeme) → rest.length ≤ given.length → Reply rest β}
    (h : r.Ends (.ok a) mid) (hnext : ∀ hle, (next a mid hle).Ends result rest) :
    (r.andThen next).Ends result rest := by
  obtain ⟨_, _, _, hle⟩ := r
  obtain ⟨rfl, rfl, rfl⟩ := h
  obtain ⟨hresult, hrest, hrecorded⟩ := hnext hle
  exact ⟨hresult, hrest, hrecorded⟩

theorem Ends.stop {r : Reply given α}
    {next : α → (rest : List Lexeme) → rest.length ≤ given.length → Reply rest β}
    (h : r.Ends (.error e) mid) : (r.andThen next).Ends (.error e) mid := by
  obtain ⟨_, _, _, hle⟩ := r
  obtain ⟨rfl, rfl, rfl⟩ := h
  exact ⟨rfl, rfl, rfl⟩

end Reply

/-! ## Stopping before a semicolon -/

section

variable {α β : Type} {close lexeme : Lexeme} {ts : List Lexeme}
  {p q : (given : List Lexeme) → Reply given α} {next : α → (given : List Lexeme) → Reply given β}

/-- On the lexemes `ts` before `close` the parser stops at `close` at the latest, its result does
not depend on what stands behind, and nothing is recorded. -/
def Halts (close : Lexeme) (ts : List Lexeme) (p : (given : List Lexeme) → Reply given α) : Prop :=
  ∃ result left, left <:+ ts ∧ ∀ tail, (p (ts ++ close :: tail)).Ends result (left ++ close :: tail)

theorem halts_ok (a : α) : Halts close ts fun _ => .ok a :=
  ⟨.ok a, ts, List.suffix_rfl, fun _ => Reply.ends_ok a⟩

theorem halts_fail (e : ParseError) :
    Halts close ts (fun _ => .fail e : (given : _) → Reply given α) :=
  ⟨.error e, ts, List.suffix_rfl, fun _ => Reply.ends_fail e⟩

theorem Halts.congr (h : Halts close ts q)
    (heq : ∀ tail, p (ts ++ close :: tail) = q (ts ++ close :: tail)) : Halts close ts p := by
  obtain ⟨result, left, hleft, hq⟩ := h
  exact ⟨result, left, hleft, fun tail => heq tail ▸ hq tail⟩

/-- A parser that takes one lexeme and goes on. -/
theorem Halts.cons (h : Halts close ts q) (heq : ∀ given, p (lexeme :: given) = (q given).taking) :
    Halts close (lexeme :: ts) p := by
  obtain ⟨result, left, hleft, hq⟩ := h
  refine ⟨result, left, hleft.trans (List.suffix_cons lexeme ts), fun tail => ?_⟩
  rw [List.cons_append, heq]
  exact hq tail

theorem Halts.andThen (h : Halts close ts p)
    (hnext : ∀ a left, left <:+ ts → Halts close left (next a)) :
    Halts close ts fun given => (p given).andThen fun a rest _ => next a rest := by
  obtain ⟨result, left, hleft, hp⟩ := h
  cases result with
  | error e => exact ⟨.error e, left, hleft, fun tail => (hp tail).stop⟩
  | ok a =>
    obtain ⟨result, left', hleft', hq⟩ := hnext a left hleft
    exact ⟨result, left', hleft'.trans hleft, fun tail => (hp tail).andThen fun _ => hq tail⟩

end

namespace Parse

variable {α β : Type} {finish : Place} {close lexeme : Lexeme} {ts : List Lexeme} {p : Parse α}
  {next : α → Parse β}

theorem halts_bind (h : Halts close ts (p finish))
    (hnext : ∀ a left, left <:+ ts → Halts close left (next a finish)) :
    Halts close ts ((p >>= next) finish) :=
  h.andThen hnext

theorem ends_peek {next : Token → Parse β} {given rest : List Lexeme} {result : Except ParseError β}
    (h : (next lexeme.token finish (lexeme :: given)).Ends result rest) :
    ((peek >>= next) finish (lexeme :: given)).Ends result rest :=
  (Reply.ends_ok lexeme.token).andThen fun _ => h

theorem halts_peek {next : Token → Parse β}
    (hnil : ts = [] → Halts close ts (next close.token finish))
    (hcons : ∀ lexeme more, ts = lexeme :: more → Halts close ts (next lexeme.token finish)) :
    Halts close ts ((peek >>= next) finish) := by
  cases ts with
  | nil =>
    obtain ⟨result, left, hleft, hp⟩ := hnil rfl
    exact ⟨result, left, hleft, fun tail => ends_peek (hp tail)⟩
  | cons lexeme more =>
    obtain ⟨result, left, hleft, hp⟩ := hcons lexeme more rfl
    exact ⟨result, left, hleft, fun tail => ends_peek (hp tail)⟩

theorem halts_advance : Halts close (lexeme :: ts) (advance finish) :=
  (halts_ok lexeme.token).cons fun _ => rfl

theorem halts_ident (hclose : close.token.kind = .semicolon) : Halts close ts (ident finish) := by
  refine halts_peek ?_ ?_
  · rintro rfl
    rw [if_neg (by simp [hclose])]
    exact halts_fail _
  · rintro lexeme more rfl
    split
    · exact halts_bind halts_advance fun _ left _ => halts_ok _
    · exact halts_fail _

/-- A token is taken that stands before the semicolon. -/
theorem halts_expect_of_nil {kind : TokenKind} (hkind : ts = [] → kind ≠ .semicolon)
    (hclose : close.token.kind = .semicolon) : Halts close ts (expect kind finish) := by
  refine halts_peek ?_ ?_
  · intro hnil
    rw [if_neg (by simpa [hclose] using (hkind hnil).symm), if_neg (by simp [hclose])]
    exact halts_fail _
  · rintro lexeme more rfl
    split
    · exact halts_advance
    · split
      · exact halts_fail _
      · exact halts_fail _

theorem halts_expect {kind : TokenKind} (hkind : kind ≠ .semicolon)
    (hclose : close.token.kind = .semicolon) : Halts close ts (expect kind finish) :=
  halts_expect_of_nil (fun _ => hkind) hclose

end Parse

namespace Grammar

variable {g : Grammar} {close : Lexeme}

theorem atom?_plain {token : Token} {e : Expr} {errors : List ParseError}
    (hkind : token.kind ≠ .interpolatedString) (h : g.atom? token = some (.ok (e, errors))) :
    errors = [] := by
  unfold atom? at h
  split at h
  case h_1 => cases hvalue : intLiteral token <;> simp_all [Except.map]
  all_goals simp_all

mutual

theorem halts_expr {ts : List Lexeme} (hclose : close.token.kind = .semicolon) (min : Nat)
    (hts : AllPlain ts) : Halts close ts (g.expr min) := by
  have hclimb : ∀ lhs left, left <:+ ts → Halts close left (g.climb min lhs) := by
    intro lhs left hleft
    have hle := hleft.length_le
    exact halts_climb hclose min lhs (hts.of_suffix hleft)
  exact ((halts_operand hclose hts).andThen hclimb).congr fun tail => by rw [expr]
termination_by 6 * ts.length + 2

theorem halts_operand {ts : List Lexeme} (hclose : close.token.kind = .semicolon)
    (hts : AllPlain ts) : Halts close ts g.operand := by
  cases ts with
  | nil =>
    refine (halts_fail (noOperand close.token)).congr fun tail => ?_
    rw [List.nil_append, operand]
    simp [hclose, UnaryOp.ofToken?, atom?]
  | cons lexeme ts =>
    have hkind : lexeme.token.kind ≠ .interpolatedString := hts lexeme (by simp)
    cases hop : UnaryOp.ofToken? lexeme.token.kind with
    | some op =>
      have hvalue : Halts close ts fun given =>
          (g.expr unaryPower given).andThen fun e _ _ =>
            .ok (Expr.unary op e (lexeme.token.span.merge e.span)) :=
        (halts_expr hclose unaryPower hts.tail).andThen fun e left _ => halts_ok _
      refine hvalue.cons fun given => ?_
      rw [operand]
      simp only [hop]
    | none =>
      cases hatom : g.atom? lexeme.token with
      | some atom =>
        rcases atom with e | ⟨e, errors⟩
        · refine (halts_fail e).cons fun given => ?_
          rw [operand]
          simp only [hop, hatom]
        · obtain rfl := atom?_plain hkind hatom
          refine (halts_ok e).cons fun given => ?_
          rw [operand]
          simp only [hop, hatom]
          rfl
      | none =>
        by_cases hparen : lexeme.token.kind = .leftParen
        · have hinner : Halts close ts fun given =>
              (g.expr 0 given).andThen fun e rest _ =>
                (Parse.expect .rightParen g.finish rest).andThen fun token _ _ =>
                  .ok (Expr.paren e (lexeme.token.span.merge token.span)) :=
            (halts_expr hclose 0 hts.tail).andThen fun e left _ =>
              (Parse.halts_expect (by decide) hclose).andThen fun token left _ => halts_ok _
          refine hinner.cons fun given => ?_
          rw [operand]
          simp only [hop, hatom, if_pos hparen]
        · refine (halts_fail (noOperand lexeme.token)).congr fun tail => ?_
          rw [List.cons_append, operand]
          simp only [hop, hatom, if_neg hparen]
termination_by 6 * ts.length + 1

theorem halts_climb {ts : List Lexeme} (hclose : close.token.kind = .semicolon) (min : Nat)
    (lhs : Expr) (hts : AllPlain ts) : Halts close ts (g.climb min lhs) := by
  cases ts with
  | nil =>
    refine (halts_ok lhs).congr fun tail => climb_of_stops lhs ?_
    simp [stops_cons, TokenKind.power?, hclose, BinaryOp.ofToken?]
  | cons lexeme ts =>
    by_cases hdot : lexeme.token.kind = .dot
    · by_cases hmin : memberPower < min
      · refine (halts_ok lhs).congr fun tail => ?_
        rw [List.cons_append, climb, if_pos hdot, if_pos hmin]
      · refine (halts_member hclose min lhs hts.tail).cons fun given => ?_
        rw [climb, if_pos hdot]
        exact if_neg hmin
    · by_cases hquestion : lexeme.token.kind = .question
      · by_cases hmin : ternaryPower < min
        · refine (halts_ok lhs).congr fun tail => ?_
          rw [List.cons_append, climb, if_neg hdot, if_pos hquestion, if_pos hmin]
        · refine (halts_ternary hclose min lhs hts.tail).cons fun given => ?_
          rw [climb, if_neg hdot, if_pos hquestion, if_neg hmin]
      · cases hop : BinaryOp.ofToken? lexeme.token.kind with
        | none =>
          refine (halts_ok lhs).congr fun tail => ?_
          rw [List.cons_append, climb, if_neg hdot, if_neg hquestion]
          simp only [hop]
        | some op =>
          by_cases hmin : op.leftPower < min
          · refine (halts_ok lhs).congr fun tail => ?_
            rw [List.cons_append, climb, if_neg hdot, if_neg hquestion]
            simp only [hop, if_pos hmin]
          · refine (halts_binary hclose min lhs op hts.tail).cons fun given => ?_
            rw [climb, if_neg hdot, if_neg hquestion]
            simp only [hop, if_neg hmin]
termination_by 6 * ts.length
decreasing_by all_goals grind

theorem halts_member {ts : List Lexeme} (hclose : close.token.kind = .semicolon) (min : Nat)
    (lhs : Expr) (hts : AllPlain ts) : Halts close ts fun given =>
      (Parse.ident g.finish given).andThen fun field rest _ =>
        (g.arguments? rest).andThen fun call rest' _ =>
          g.climb min (match call with
            | none                 => .member lhs field (lhs.span.merge field.span)
            | some (args, closing) => .call lhs field args (lhs.span.merge closing)) rest' := by
  refine (Parse.halts_ident hclose).andThen fun field left hleft => ?_
  have hle := hleft.length_le
  refine (halts_arguments? hclose (hts.of_suffix hleft)).andThen fun call left' hleft' => ?_
  have hle' := hleft'.length_le
  exact halts_climb hclose min _ (hts.of_suffix (hleft'.trans hleft))
termination_by 6 * ts.length + 1

theorem halts_ternary {ts : List Lexeme} (hclose : close.token.kind = .semicolon) (min : Nat)
    (lhs : Expr) (hts : AllPlain ts) : Halts close ts fun given =>
      (g.expr 0 given).andThen fun t rest _ =>
        (Parse.expect .colon g.finish rest).andThen fun _ rest' _ =>
          (g.expr ternaryPower rest').andThen fun f rest'' _ =>
            g.climb min (.ternary lhs t f (lhs.span.merge f.span)) rest'' := by
  refine (halts_expr hclose 0 hts).andThen fun t left hleft => ?_
  have hle := hleft.length_le
  refine (Parse.halts_expect (by decide) hclose).andThen fun _ left' hleft' => ?_
  have hle' := hleft'.length_le
  have hsuffix := hleft'.trans hleft
  refine (halts_expr hclose ternaryPower (hts.of_suffix hsuffix)).andThen fun f left'' hleft'' => ?_
  have hle'' := hleft''.length_le
  exact halts_climb hclose min _ (hts.of_suffix (hleft''.trans hsuffix))
termination_by 6 * ts.length + 3

theorem halts_binary {ts : List Lexeme} (hclose : close.token.kind = .semicolon) (min : Nat)
    (lhs : Expr) (op : BinaryOp) (hts : AllPlain ts) : Halts close ts fun given =>
      (g.expr op.rightPower given).andThen fun rhs rest _ =>
        g.climb min (.binary op lhs rhs (lhs.span.merge rhs.span)) rest := by
  refine (halts_expr hclose op.rightPower hts).andThen fun rhs left hleft => ?_
  have hle := hleft.length_le
  exact halts_climb hclose min _ (hts.of_suffix hleft)
termination_by 6 * ts.length + 3

theorem halts_arguments? {ts : List Lexeme} (hclose : close.token.kind = .semicolon)
    (hts : AllPlain ts) : Halts close ts g.arguments? := by
  cases ts with
  | nil =>
    refine (halts_ok none).congr fun tail => ?_
    rw [List.nil_append, arguments?, if_neg (by simp [hclose])]
  | cons lexeme ts =>
    by_cases hparen : lexeme.token.kind = .leftParen
    · have hargs : Halts close ts fun given =>
          (g.arguments given).andThen fun args rest _ =>
            (Parse.expect .rightParen g.finish rest).andThen fun token _ _ =>
              .ok (some (args, token.span)) :=
        (halts_arguments hclose hts.tail).andThen fun args left _ =>
          (Parse.halts_expect (by decide) hclose).andThen fun token left _ => halts_ok _
      refine hargs.cons fun given => ?_
      rw [arguments?, if_pos hparen]
    · refine (halts_ok none).congr fun tail => ?_
      rw [List.cons_append, arguments?, if_neg hparen]
termination_by 6 * ts.length
decreasing_by grind

theorem halts_arguments {ts : List Lexeme} (hclose : close.token.kind = .semicolon)
    (hts : AllPlain ts) : Halts close ts g.arguments := by
  by_cases hhead : ts.head?.any (·.token.kind = .rightParen)
  · refine (halts_ok []).congr fun tail => ?_
    cases ts with
    | nil => simp at hhead
    | cons lexeme ts => rw [arguments, if_pos (by simpa using hhead)]
  · refine (halts_argumentsOnto hclose [] hts).congr fun tail => ?_
    rw [arguments, if_neg]
    cases ts with
    | nil => simp [hclose]
    | cons lexeme ts => simpa using hhead
termination_by 6 * ts.length + 5

theorem halts_argumentsOnto {ts : List Lexeme} (hclose : close.token.kind = .semicolon)
    (out : List Expr) (hts : AllPlain ts) : Halts close ts (g.argumentsOnto out) := by
  have hmore : ∀ arg left, left <:+ ts → Halts close left fun given =>
      match given with
      | [] => .ok (arg :: out).reverse
      | lexeme :: rest =>
        if lexeme.token.kind = .comma then (g.argumentsOnto (arg :: out) rest).taking
        else .ok (arg :: out).reverse := by
    intro arg left hleft
    have hle := hleft.length_le
    cases left with
    | nil =>
      refine (halts_ok (arg :: out).reverse).congr fun tail => ?_
      simp only [List.nil_append, hclose, reduceCtorEq, if_false]
    | cons lexeme left =>
      by_cases hcomma : lexeme.token.kind = .comma
      · have hmore := halts_argumentsOnto hclose (arg :: out) (hts.of_suffix hleft).tail
        refine hmore.cons fun given => ?_
        simp only [if_pos hcomma]
      · refine (halts_ok (arg :: out).reverse).congr fun tail => ?_
        simp only [List.cons_append, if_neg hcomma]
  refine ((halts_expr hclose 0 hts).andThen hmore).congr fun tail => ?_
  rw [argumentsOnto]
  refine congrArg _ (funext fun arg => funext fun rest => funext fun _ => ?_)
  cases rest <;> rfl
termination_by 6 * ts.length + 4
decreasing_by all_goals grind

end

end Grammar

end TypedTemplate
