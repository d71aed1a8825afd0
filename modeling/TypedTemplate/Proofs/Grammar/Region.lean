-- SUMMARY: What an expression is read into lies where its lexemes do, errors included.
import TypedTemplate.Proofs.Token.Region
import TypedTemplate.Proofs.Tree.Spans

/-!
# Expressions in a region

Every span that a production makes is that of a token, of the end of the unit, or a span over two
that it has. So where the lexemes lie, there lie the tree, the error that stops a
production and the errors that it records. One fact about each way to go on carries this
through all productions.
-/

namespace TypedTemplate

variable {R : Region}

/-! ## Replies -/

/-- All the lexemes lie in the region. -/
def LieIn (lexemes : List Lexeme) (R : Region) : Prop := ∀ lexeme ∈ lexemes, lexeme.LiesIn R

theorem LieIn.head {lexeme : Lexeme} {rest : List Lexeme} (h : LieIn (lexeme :: rest) R) :
    lexeme.LiesIn R :=
  h lexeme List.mem_cons_self

theorem LieIn.tail {lexeme : Lexeme} {rest : List Lexeme} (h : LieIn (lexeme :: rest) R) :
    LieIn rest R :=
  fun other hother => h other (List.mem_cons_of_mem lexeme hother)

theorem Lexeme.LiesIn.place {lexeme : Lexeme} (h : lexeme.LiesIn R) :
    R lexeme.token.span.place :=
  h.token.start

/-- What a reply holds lies in the region, and so do the lexemes left. -/
structure Reply.LiesIn {given : List Lexeme} {α : Type} [Spanned α] (r : Reply given α)
    (R : Region) : Prop where
  result : R.Holds r.result
  recorded : R.Holds r.recorded
  rest : LieIn r.rest R

namespace Reply

variable {given : List Lexeme} {α β : Type} [Spanned α] [Spanned β]

theorem liesIn_ok {a : α} (ha : R.Holds a) (h : LieIn given R) :
    (Reply.ok a : Reply given α).LiesIn R :=
  ⟨ha, by simp [Reply.ok], h⟩

theorem liesIn_fail {e : ParseError} (he : R e.span.place) (h : LieIn given R) :
    (Reply.fail e : Reply given α).LiesIn R :=
  ⟨by simpa [Reply.fail] using he, by simp [Reply.fail], h⟩

theorem LiesIn.recording {r : Reply given α} {es : List ParseError} (h : r.LiesIn R)
    (hes : R.Holds es) : (r.recording es).LiesIn R :=
  ⟨h.result, hes.append h.recorded, h.rest⟩

theorem LiesIn.taking {lexeme : Lexeme} {r : Reply given α} (h : r.LiesIn R) :
    (r.taking : Reply (lexeme :: given) α).LiesIn R :=
  ⟨h.result, h.recorded, h.rest⟩

theorem LiesIn.andThen {r : Reply given α}
    {next : α → (rest : List Lexeme) → rest.length ≤ given.length → Reply rest β}
    (h : r.LiesIn R)
    (hnext : ∀ a rest hle, R.Holds a → LieIn rest R → (next a rest hle).LiesIn R) :
    (r.andThen next).LiesIn R := by
  obtain ⟨result, rest, recorded, hle⟩ := r
  cases result with
  | error e => exact ⟨h.result, h.recorded, h.rest⟩
  | ok a =>
    have hrest := (hnext a rest hle h.result h.rest).recording h.recorded
    exact ⟨hrest.result, hrest.recorded, hrest.rest⟩

end Reply

/-! ## Parsers -/

namespace Parse

variable {α β : Type} [Spanned α] [Spanned β]

/-- In a unit that ends in the region, the reply lies where the lexemes do. -/
def LiesIn (p : Parse α) (R : Region) : Prop :=
  ∀ finish given, R finish → LieIn given R → (p finish given).LiesIn R

theorem liesIn_pure {a : α} (ha : R.Holds a) : LiesIn (pure a) R :=
  fun _ _ _ h => Reply.liesIn_ok ha h

theorem liesIn_fail {e : ParseError} (he : R e.span.place) : (fail e : Parse α).LiesIn R :=
  fun _ _ _ h => Reply.liesIn_fail he h

theorem LiesIn.bind {p : Parse α} {next : α → Parse β} (h : p.LiesIn R)
    (hnext : ∀ a, R.Holds a → (next a).LiesIn R) : LiesIn (p >>= next) R :=
  fun finish given hfinish hgiven => (h finish given hfinish hgiven).andThen
    fun a rest _ ha hrest => hnext a ha finish rest hfinish hrest

theorem liesIn_peek : peek.LiesIn R := by
  intro finish given hfinish hgiven
  cases given with
  | nil => exact Reply.liesIn_ok (by simpa [Token.eof] using hfinish) hgiven
  | cons lexeme given => exact Reply.liesIn_ok (by simpa using hgiven.head.place) hgiven

theorem liesIn_advance : advance.LiesIn R := by
  intro finish given hfinish hgiven
  cases given with
  | nil => exact Reply.liesIn_ok (by simpa [Token.eof] using hfinish) hgiven
  | cons lexeme given =>
    exact (Reply.liesIn_ok (by simpa using hgiven.head.place) hgiven.tail).taking

theorem liesIn_eat (kind : TokenKind) : (eat kind).LiesIn R := by
  refine LiesIn.bind liesIn_peek fun token _ => ?_
  split
  · exact LiesIn.bind liesIn_advance fun _ _ => liesIn_pure (by simp)
  · exact liesIn_pure (by simp)

theorem liesIn_expect (kind : TokenKind) : (expect kind).LiesIn R := by
  refine LiesIn.bind liesIn_peek fun token htoken => ?_
  have hplace : R token.span.place := by simpa using htoken
  split
  · exact liesIn_advance
  · split <;> exact liesIn_fail hplace

theorem liesIn_ident : ident.LiesIn R := by
  refine LiesIn.bind liesIn_peek fun token htoken => ?_
  have hplace : R token.span.place := by simpa using htoken
  split
  · exact LiesIn.bind liesIn_advance fun _ _ => liesIn_pure (by simpa using hplace)
  · exact liesIn_fail hplace

end Parse

/-! ## Productions -/

/-- The interpolated strings in the region are read into trees and errors there. -/
def Region.Interpolates (R : Region) (interpolate : Token → Interpolation) : Prop :=
  ∀ lexeme : Lexeme, lexeme.LiesIn R → lexeme.token.kind = .interpolatedString →
    R.Holds (interpolate lexeme.token)

structure Grammar.LiesIn (g : Grammar) (R : Region) : Prop where
  finish : R g.finish
  interpolate : R.Interpolates g.interpolate

namespace Grammar

variable {g : Grammar}

theorem liesIn_atom? (hg : g.LiesIn R) {lexeme : Lexeme} (hlexeme : lexeme.LiesIn R) :
    R.Holds (g.atom? lexeme.token) := by
  have hplace := hlexeme.place
  unfold atom?
  split
  case h_1 =>
    unfold intLiteral
    dsimp only
    split <;> simpa [Except.map] using hplace
  case h_8 hkind =>
    have hread := hg.interpolate lexeme hlexeme hkind
    simp_all
  all_goals simp [hplace]

mutual

theorem liesIn_expr (hg : g.LiesIn R) {given : List Lexeme} (h : LieIn given R) (min : Nat) :
    (g.expr min given).LiesIn R := by
  rw [expr]
  exact (liesIn_operand hg h).andThen fun lhs rest _ hlhs hrest => liesIn_climb hg hrest hlhs min
termination_by 5 * given.length + 2

theorem liesIn_operand (hg : g.LiesIn R) {given : List Lexeme} (h : LieIn given R) :
    (g.operand given).LiesIn R := by
  cases given with
  | nil =>
    rw [operand]
    exact Reply.liesIn_fail hg.finish h
  | cons lexeme given =>
    have hplace := h.head.place
    have hatom := liesIn_atom? hg h.head
    rw [operand]
    split
    · exact ((liesIn_expr hg h.tail _).andThen fun e _ _ he hrest =>
        Reply.liesIn_ok (by simpa [he] using Region.merge hplace he.span) hrest).taking
    split
    · rename_i e errors heq
      rw [heq] at hatom
      have hparts : R.Holds e ∧ R.Holds errors := by simpa using hatom
      exact ((Reply.liesIn_ok hparts.1 h.tail).recording hparts.2).taking
    · rename_i e heq
      rw [heq] at hatom
      exact (Reply.liesIn_fail (by simpa using hatom) h.tail).taking
    split
    · refine ((liesIn_expr hg h.tail 0).andThen fun e rest hle he hrest => ?_).taking
      refine (Parse.liesIn_expect .rightParen g.finish rest hg.finish hrest).andThen
        fun close _ _ hclose hrest' => ?_
      have hmerge := Region.merge hplace ((Region.holds_token close).1 hclose)
      exact Reply.liesIn_ok (by simp [he, hmerge]) hrest'
    · exact Reply.liesIn_fail hplace h
termination_by 5 * given.length + 1

theorem liesIn_climb (hg : g.LiesIn R) {given : List Lexeme} (h : LieIn given R) {lhs : Expr}
    (hlhs : R.Holds lhs) (min : Nat) : (g.climb min lhs given).LiesIn R := by
  cases given with
  | nil =>
    rw [climb]
    exact Reply.liesIn_ok hlhs h
  | cons lexeme given =>
    rw [climb]
    have hstop : (Reply.ok lhs : Reply (lexeme :: given) Expr).LiesIn R := Reply.liesIn_ok hlhs h
    dsimp only
    split
    · split
      · exact hstop
      refine ((Parse.liesIn_ident g.finish given hg.finish h.tail).andThen
        fun field rest hle hfield hrest => ?_).taking
      refine (liesIn_arguments? hg hrest).andThen fun call rest' hle' hcall hrest' => ?_
      refine liesIn_climb hg hrest' ?_ min
      have hfield' : R field.span.place := (Region.holds_ident field).1 hfield
      cases call with
      | none => simp [hlhs, hfield', Region.merge hlhs.span hfield']
      | some call =>
        obtain ⟨args, closing⟩ := call
        have hparts : R.Holds args ∧ R closing.place := by simpa using hcall
        simp [-Region.holds_list, hlhs, hfield', hparts.1, Region.merge hlhs.span hparts.2]
    split
    · split
      · exact hstop
      refine ((liesIn_expr hg h.tail 0).andThen fun whenTrue rest hle ht hrest => ?_).taking
      refine (Parse.liesIn_expect .colon g.finish rest hg.finish hrest).andThen
        fun _ rest' hle' _ hrest' => ?_
      refine (liesIn_expr hg hrest' ternaryPower).andThen
        fun whenFalse rest'' hle'' hf hrest'' => ?_
      exact liesIn_climb hg hrest'' (by simp [hlhs, ht, hf, Region.merge hlhs.span hf.span]) min
    split
    · exact hstop
    · split
      · exact hstop
      refine ((liesIn_expr hg h.tail _).andThen fun rhs rest hle hrhs hrest => ?_).taking
      exact liesIn_climb hg hrest (by simp [hlhs, hrhs, Region.merge hlhs.span hrhs.span]) min
termination_by 5 * given.length + 1
decreasing_by all_goals subst_vars; simp only [List.length_cons]; omega

theorem liesIn_arguments? (hg : g.LiesIn R) {given : List Lexeme} (h : LieIn given R) :
    (g.arguments? given).LiesIn R := by
  cases given with
  | nil =>
    rw [arguments?]
    exact Reply.liesIn_ok (by simp) h
  | cons opening given =>
    rw [arguments?]
    split
    · refine ((liesIn_arguments hg h.tail).andThen fun args rest hle hargs hrest => ?_).taking
      refine (Parse.liesIn_expect .rightParen g.finish rest hg.finish hrest).andThen
        fun close _ _ hclose hrest' => ?_
      have hclose' : R close.span.place := (Region.holds_token close).1 hclose
      exact Reply.liesIn_ok (by simp [-Region.holds_list, hargs, hclose']) hrest'
    · exact Reply.liesIn_ok (by simp) h
termination_by 5 * given.length

theorem liesIn_arguments (hg : g.LiesIn R) {given : List Lexeme} (h : LieIn given R) :
    (g.arguments given).LiesIn R := by
  rw [arguments]
  split
  · exact Reply.liesIn_ok (by simp) h
  · exact liesIn_argumentsOnto hg h (by simp)
termination_by 5 * given.length + 4

theorem liesIn_argumentsOnto (hg : g.LiesIn R) {given : List Lexeme} (h : LieIn given R)
    {out : List Expr} (hout : R.Holds out) : (g.argumentsOnto out given).LiesIn R := by
  rw [argumentsOnto]
  refine (liesIn_expr hg h 0).andThen fun arg rest hle harg hrest => ?_
  have hmore := harg.cons hout
  cases rest with
  | nil => exact Reply.liesIn_ok hmore.reverse hrest
  | cons lexeme rest =>
    dsimp only
    split
    · exact (liesIn_argumentsOnto hg hrest.tail hmore).taking
    · exact Reply.liesIn_ok hmore.reverse hrest
termination_by 5 * given.length + 3

end

end Grammar

end TypedTemplate
