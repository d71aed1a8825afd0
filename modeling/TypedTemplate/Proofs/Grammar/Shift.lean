-- SUMMARY: A text that stands further down or to the right is parsed alike, with all spans moved.
import TypedTemplate.Grammar.Standalone
import TypedTemplate.Proofs.Token.Shift

/-!
# Moved expressions

Places go into trees and errors only through the spans of tokens and the end of the text. So the
reply to lexemes that are moved is the reply to them where they were, with every span in it
moved as far, whether it succeeds or fails, if the interpolated strings among them are read
alike. One fact about each way to go on carries this through all productions.
-/

namespace TypedTemplate

variable (lines cols : Nat)

/-! ## Trees -/

def Ident.shift (x : Ident) : Ident := { x with span := x.span.shift lines cols }

def FormatSpec.shift (spec : FormatSpec) : FormatSpec :=
  { spec with span := spec.span.shift lines cols }

mutual

/-- The expression with every span moved. -/
def Expr.shift : Expr → Expr
  | .literal value s      => .literal value (s.shift lines cols)
  | .name x               => .name (x.shift lines cols)
  | .member object field s =>
    .member object.shift (field.shift lines cols) (s.shift lines cols)
  | .call receiver method args s =>
    .call receiver.shift (method.shift lines cols) (Expr.shiftAll args) (s.shift lines cols)
  | .unary op e s           => .unary op e.shift (s.shift lines cols)
  | .binary op left right s => .binary op left.shift right.shift (s.shift lines cols)
  | .ternary e t f s        => .ternary e.shift t.shift f.shift (s.shift lines cols)
  | .interpolated segments s => .interpolated (Segment.shiftAll segments) (s.shift lines cols)
  | .paren e s              => .paren e.shift (s.shift lines cols)

def Expr.shiftAll : List Expr → List Expr
  | []      => []
  | e :: es => e.shift :: Expr.shiftAll es

def Segment.shift : Segment → Segment
  | .text s          => .text s
  | .hole e format s => .hole e.shift (format.map (.shift lines cols)) (s.shift lines cols)

def Segment.shiftAll : List Segment → List Segment
  | []      => []
  | s :: ss => s.shift :: Segment.shiftAll ss

end

variable {lines cols : Nat}

theorem Expr.span_shift (e : Expr) : (e.shift lines cols).span = e.span.shift lines cols := by
  cases e <;> rfl

theorem Expr.shiftAll_eq_map (es : List Expr) :
    Expr.shiftAll lines cols es = es.map (.shift lines cols) := by
  induction es with
  | nil => rfl
  | cons e es ih => rw [Expr.shiftAll, ih, List.map_cons]

theorem Segment.shiftAll_eq_map (ss : List Segment) :
    Segment.shiftAll lines cols ss = ss.map (.shift lines cols) := by
  induction ss with
  | nil => rfl
  | cons s ss ih => rw [Segment.shiftAll, ih, List.map_cons]

/-! ## Errors -/

def ParseError.shift (lines cols : Nat) (e : ParseError) : ParseError :=
  { e with span := e.span.shift lines cols }

/-- The outcome with every span moved, where `move` is how the results move. -/
def shiftResult {ε α : Type} (moveError : ε → ε) (move : α → α) : Except ε α → Except ε α
  | .ok a    => .ok (move a)
  | .error e => .error (moveError e)

/-- The segments and errors with every span moved. -/
def Interpolation.shift (lines cols : Nat) (i : Interpolation) : Interpolation :=
  ⟨Segment.shiftAll lines cols i.segments, i.errors.map (.shift lines cols)⟩

namespace ParseError

theorem ofLexError_shift (e : LexError) :
    ofLexError (e.shift lines cols) = (ofLexError e).shift lines cols := rfl

theorem shift_injective : Function.Injective (shift lines cols) := by
  rintro ⟨kind, ⟨line, col, len⟩, message⟩ ⟨kind', ⟨line', col', len'⟩, message'⟩ h
  simp only [shift, Span.shift, mk.injEq, Span.mk.injEq, Nat.add_right_cancel_iff] at h
  obtain ⟨rfl, ⟨rfl, rfl, rfl⟩, rfl⟩ := h
  rfl

theorem eraseReps_shift (errors : List ParseError) :
    (errors.map (shift lines cols)).eraseReps = errors.eraseReps.map (shift lines cols) := by
  have hloop (a : ParseError) (as out : List ParseError) :
      List.eraseRepsBy.loop (· == ·) (a.shift lines cols) (as.map (shift lines cols))
        (out.map (shift lines cols)) =
          (List.eraseRepsBy.loop (· == ·) a as out).map (shift lines cols) := by
    induction as generalizing a out with
    | nil => simp [List.eraseRepsBy.loop]
    | cons b as ih =>
      have heq : (a.shift lines cols == b.shift lines cols) = (a == b) := by
        rw [Bool.eq_iff_iff, beq_iff_eq, beq_iff_eq, shift_injective.eq_iff]
      rw [List.map_cons, List.eraseRepsBy.loop, List.eraseRepsBy.loop, heq]
      cases a == b with
      | true => exact ih a out
      | false => exact ih b (a :: out)
  cases errors with
  | nil => rfl
  | cons e errors => exact hloop e errors []

/-- Errors that are all moved as far come in the same order. -/
theorem inOrder_shift (errors : List ParseError) :
    inOrder (errors.map (shift lines cols)) = (inOrder errors).map (shift lines cols) := by
  unfold inOrder
  rw [← eraseReps_shift, List.map_mergeSort]
  intro a _ b _
  have hline : (a.span.line + lines == b.span.line + lines) = (a.span.line == b.span.line) := by
    rw [Bool.eq_iff_iff, beq_iff_eq, beq_iff_eq, Nat.add_right_cancel_iff]
  simp [shift, Span.shift, hline]

end ParseError

/-! ## Replies -/

/-- The interpolated strings among the lexemes `given` are read by `read'` where they are moved
as they are by `read` where they stand. -/
def Moves (lines cols : Nat) (read read' : Token → Interpolation) (given : List Lexeme) : Prop :=
  ∀ lexeme ∈ given, lexeme.token.kind = .interpolatedString →
    read' (lexeme.token.shift lines cols) = (read lexeme.token).shift lines cols

section

variable {read read' : Token → Interpolation} {given rest : List Lexeme}

theorem Moves.of_suffix (h : Moves lines cols read read' given) (hrest : rest <:+ given) :
    Moves lines cols read read' rest :=
  fun lexeme hlexeme => h lexeme (hrest.subset hlexeme)

theorem Moves.tail {lexeme : Lexeme} (h : Moves lines cols read read' (lexeme :: given)) :
    Moves lines cols read read' given :=
  h.of_suffix (List.suffix_cons lexeme given)

end

/-- The reply `r'` is the reply `r` with every span moved. -/
structure Reply.Shifts {given given' : List Lexeme} {α : Type} (lines cols : Nat) (move : α → α)
    (r : Reply given α) (r' : Reply given' α) : Prop where
  result : r'.result = shiftResult (.shift lines cols) move r.result
  rest : r'.rest = r.rest.map (.shift lines cols)
  recorded : r'.recorded = r.recorded.map (.shift lines cols)
  suffix : r.rest <:+ given

namespace Reply

variable {given : List Lexeme} {α β : Type} {move : α → α} {move' : β → β}

theorem shifts_ok (a : α) : Shifts lines cols move (.ok a : Reply given α)
    (.ok (move a) : Reply (given.map (.shift lines cols)) α) :=
  ⟨rfl, rfl, rfl, List.suffix_refl _⟩

theorem shifts_fail (e : ParseError) : Shifts lines cols move (.fail e : Reply given α)
    (.fail (e.shift lines cols) : Reply (given.map (.shift lines cols)) α) :=
  ⟨rfl, rfl, rfl, List.suffix_refl _⟩

namespace Shifts

variable {given' : List Lexeme} {r : Reply given α} {r' : Reply given' α}

theorem recording (h : r.Shifts lines cols move r') (es : List ParseError) :
    (r.recording es).Shifts lines cols move (r'.recording (es.map (.shift lines cols))) :=
  ⟨h.result, h.rest, by simp [Reply.recording, h.recorded], h.suffix⟩

theorem taking (h : r.Shifts lines cols move r') (lexeme lexeme' : Lexeme) :
    Shifts lines cols move (r.taking : Reply (lexeme :: given) α)
      (r'.taking : Reply (lexeme' :: given') α) :=
  ⟨h.result, h.rest, h.recorded, h.suffix.trans (List.suffix_cons lexeme given)⟩

theorem andThen {next : α → (rest : List Lexeme) → rest.length ≤ given.length → Reply rest β}
    {next' : α → (rest : List Lexeme) → rest.length ≤ given'.length → Reply rest β}
    (h : r.Shifts lines cols move r')
    (hnext : ∀ a rest hle hle', rest <:+ given →
      (next a rest hle).Shifts lines cols move' (next' (move a) (rest.map (.shift lines cols)) hle')) :
    (r.andThen next).Shifts lines cols move' (r'.andThen next') := by
  obtain ⟨result, rest, recorded, hle⟩ := r
  obtain ⟨_, _, _, hle'⟩ := r'
  obtain ⟨rfl, rfl, rfl, hsuffix⟩ := h
  cases result with
  | error e => exact ⟨rfl, rfl, rfl, hsuffix⟩
  | ok a =>
    have hrest := (hnext a rest hle hle' hsuffix).recording recorded
    exact ⟨hrest.result, hrest.rest, hrest.recorded, hrest.suffix.trans hsuffix⟩

end Shifts

end Reply

/-! ## Parsers -/

namespace Parse

variable {α β : Type} {move : α → α} {move' : β → β}

/-- The parser `p'` does to lexemes that are moved what `p` does to them where they stand. -/
def Shifts (lines cols : Nat) (move : α → α) (p p' : Parse α) : Prop :=
  ∀ finish given, (p finish given).Shifts lines cols move
    (p' (finish.shift lines cols) (given.map (.shift lines cols)))

theorem shifts_pure (a : α) : Shifts lines cols move (pure a) (pure (move a)) :=
  fun _ _ => Reply.shifts_ok a

theorem shifts_fail (e : ParseError) :
    Shifts lines cols move (fail e) (fail (e.shift lines cols)) :=
  fun _ _ => Reply.shifts_fail e

theorem Shifts.bind {p p' : Parse α} {next next' : α → Parse β} (h : p.Shifts lines cols move p')
    (hnext : ∀ a, (next a).Shifts lines cols move' (next' (move a))) :
    Shifts lines cols move' (p >>= next) (p' >>= next') :=
  fun finish given => (h finish given).andThen fun a rest _ _ _ => hnext a finish rest

theorem shifts_peek : Shifts lines cols (.shift lines cols) peek peek := by
  intro finish given
  cases given <;> exact Reply.shifts_ok _

theorem shifts_advance : Shifts lines cols (.shift lines cols) advance advance := by
  intro finish given
  cases given with
  | nil => exact Reply.shifts_ok _
  | cons lexeme given => exact (Reply.shifts_ok _).taking lexeme (lexeme.shift lines cols)

theorem shifts_expect (kind : TokenKind) :
    Shifts lines cols (.shift lines cols) (expect kind) (expect kind) := by
  refine shifts_peek.bind fun token => ?_
  rw [Token.kind_shift]
  split
  · exact shifts_advance
  · split <;> exact shifts_fail _

theorem shifts_ident : Shifts lines cols (.shift lines cols) ident ident := by
  refine shifts_peek.bind fun token => ?_
  rw [Token.kind_shift]
  split
  · have hpure (x : Ident) : Shifts lines cols (.shift lines cols) (pure x)
        (pure (x.shift lines cols)) := shifts_pure x
    exact shifts_advance.bind fun _ => hpure _
  · exact shifts_fail _

end Parse

/-! ## Productions -/

namespace Grammar

variable {g g' : Grammar} {given : List Lexeme}

/-- Both grammars read to the end of a text, `g'` to where that of `g` is moved. -/
def EndsMoved (lines cols : Nat) (g g' : Grammar) : Prop := g'.finish = g.finish.shift lines cols

theorem atom?_shift {lexeme : Lexeme}
    (hg : Moves lines cols g.interpolate g'.interpolate (lexeme :: given)) :
    g'.atom? (lexeme.token.shift lines cols) =
      (g.atom? lexeme.token).map (shiftResult (.shift lines cols) fun atom =>
        (atom.1.shift lines cols, atom.2.map (.shift lines cols))) := by
  have hread := hg lexeme List.mem_cons_self
  unfold atom?
  rw [Token.kind_shift]
  split
  case h_1 =>
    unfold intLiteral
    rw [Token.lexeme_shift]
    dsimp only
    split <;> rfl
  case h_8 hkind =>
    simp only [hread hkind]
    rfl
  all_goals rfl

mutual

theorem expr_shift (hfinish : EndsMoved lines cols g g') {given : List Lexeme}
    (hg : Moves lines cols g.interpolate g'.interpolate given) (min : Nat) :
    (g.expr min given).Shifts lines cols (.shift lines cols)
      (g'.expr min (given.map (.shift lines cols))) := by
  rw [expr, expr]
  exact (operand_shift hfinish hg).andThen fun lhs rest _ _ hrest =>
    climb_shift hfinish (hg.of_suffix hrest) lhs min
termination_by 5 * given.length + 2

theorem operand_shift (hfinish : EndsMoved lines cols g g') {given : List Lexeme}
    (hg : Moves lines cols g.interpolate g'.interpolate given) :
    (g.operand given).Shifts lines cols (.shift lines cols)
      (g'.operand (given.map (.shift lines cols))) := by
  cases given with
  | nil =>
    rw [List.map_nil, operand, operand, hfinish]
    exact Reply.shifts_fail _
  | cons lexeme given =>
    have hatom := atom?_shift hg
    rw [List.map_cons, operand, operand, Lexeme.token_shift, Token.kind_shift, hatom]
    cases hop : UnaryOp.ofToken? lexeme.token.kind with
    | some op =>
      refine ((expr_shift hfinish hg.tail _).andThen fun e rest _ _ _ => ?_).taking _ _
      rw [Expr.span_shift, Token.span_shift, Span.merge_shift]
      exact Reply.shifts_ok _
    | none =>
      cases hvalue : g.atom? lexeme.token with
      | some atom =>
        cases atom with
        | ok atom => exact ((Reply.shifts_ok _).recording _).taking _ _
        | error e => exact (Reply.shifts_fail _).taking _ _
      | none =>
        dsimp only [Option.map_none]
        split
        · refine ((expr_shift hfinish hg.tail 0).andThen fun e rest _ _ _ => ?_).taking _ _
          rw [hfinish]
          refine (Parse.shifts_expect .rightParen g.finish rest).andThen fun close _ _ _ _ => ?_
          rw [Token.span_shift, Token.span_shift, Span.merge_shift]
          exact Reply.shifts_ok _
        · exact Reply.shifts_fail _
termination_by 5 * given.length + 1

theorem climb_shift (hfinish : EndsMoved lines cols g g') {given : List Lexeme}
    (hg : Moves lines cols g.interpolate g'.interpolate given) (lhs : Expr) (min : Nat) :
    (g.climb min lhs given).Shifts lines cols (.shift lines cols)
      (g'.climb min (lhs.shift lines cols) (given.map (.shift lines cols))) := by
  cases given with
  | nil =>
    rw [List.map_nil, climb, climb]
    exact Reply.shifts_ok _
  | cons lexeme given =>
    rw [List.map_cons, climb, climb, Lexeme.token_shift, Token.kind_shift, hfinish]
    dsimp only
    split
    · split
      · exact Reply.shifts_ok _
      refine ((Parse.shifts_ident g.finish given).andThen fun field rest _ _ hrest => ?_).taking _ _
      have hg' := hg.tail.of_suffix hrest
      refine (arguments?_shift hfinish hg').andThen fun call rest' _ _ hrest' => ?_
      cases call with
      | none =>
        have hmoved := climb_shift hfinish (hg'.of_suffix hrest')
          (.member lhs field (lhs.span.merge field.span)) min
        rw [Expr.shift, ← Span.merge_shift, ← Expr.span_shift] at hmoved
        exact hmoved
      | some call =>
        have hmoved := climb_shift hfinish (hg'.of_suffix hrest')
          (.call lhs field call.1 (lhs.span.merge call.2)) min
        rw [Expr.shift, ← Span.merge_shift, ← Expr.span_shift] at hmoved
        exact hmoved
    split
    · split
      · exact Reply.shifts_ok _
      refine ((expr_shift hfinish hg.tail 0).andThen fun whenTrue rest _ _ hrest => ?_).taking _ _
      have hg' := hg.tail.of_suffix hrest
      refine (Parse.shifts_expect .colon g.finish rest).andThen fun _ rest' _ _ hrest' => ?_
      have hg'' := hg'.of_suffix hrest'
      refine (expr_shift hfinish hg'' ternaryPower).andThen fun whenFalse rest'' _ _ hrest'' => ?_
      rw [Expr.span_shift, Expr.span_shift, Span.merge_shift]
      exact climb_shift hfinish (hg''.of_suffix hrest'') _ min
    split
    · exact Reply.shifts_ok _
    · split
      · exact Reply.shifts_ok _
      refine ((expr_shift hfinish hg.tail _).andThen fun rhs rest _ _ hrest => ?_).taking _ _
      rw [Expr.span_shift, Expr.span_shift, Span.merge_shift]
      exact climb_shift hfinish (hg.tail.of_suffix hrest) _ min
termination_by 5 * given.length + 1
decreasing_by all_goals subst_vars; simp only [List.length_cons]; omega

theorem arguments?_shift (hfinish : EndsMoved lines cols g g') {given : List Lexeme}
    (hg : Moves lines cols g.interpolate g'.interpolate given) :
    (g.arguments? given).Shifts lines cols
      (Option.map fun call => (Expr.shiftAll lines cols call.1, call.2.shift lines cols))
      (g'.arguments? (given.map (.shift lines cols))) := by
  cases given with
  | nil =>
    rw [List.map_nil, arguments?, arguments?]
    exact Reply.shifts_ok _
  | cons opening given =>
    rw [List.map_cons, arguments?, arguments?, Lexeme.token_shift, Token.kind_shift, hfinish]
    split
    · refine ((arguments_shift hfinish hg.tail).andThen fun args rest _ _ _ => ?_).taking _ _
      refine (Parse.shifts_expect .rightParen g.finish rest).andThen fun close _ _ _ _ => ?_
      exact Reply.shifts_ok _
    · exact Reply.shifts_ok _
termination_by 5 * given.length

theorem arguments_shift (hfinish : EndsMoved lines cols g g') {given : List Lexeme}
    (hg : Moves lines cols g.interpolate g'.interpolate given) :
    (g.arguments given).Shifts lines cols (Expr.shiftAll lines cols)
      (g'.arguments (given.map (.shift lines cols))) := by
  have hhead : (given.map (Lexeme.shift lines cols)).head?.any (·.token.kind = .rightParen) =
      given.head?.any (·.token.kind = .rightParen) := by
    cases given <;> rfl
  rw [arguments, arguments, hhead]
  split
  · exact Reply.shifts_ok _
  · exact argumentsOnto_shift hfinish hg []
termination_by 5 * given.length + 4

theorem argumentsOnto_shift (hfinish : EndsMoved lines cols g g') {given : List Lexeme}
    (hg : Moves lines cols g.interpolate g'.interpolate given) (out : List Expr) :
    (g.argumentsOnto out given).Shifts lines cols (Expr.shiftAll lines cols)
      (g'.argumentsOnto (Expr.shiftAll lines cols out) (given.map (.shift lines cols))) := by
  rw [argumentsOnto, argumentsOnto]
  refine (expr_shift hfinish hg 0).andThen fun arg rest _ _ hrest => ?_
  have hdone : ((Expr.shift lines cols arg :: Expr.shiftAll lines cols out).reverse) =
      Expr.shiftAll lines cols (arg :: out).reverse := by
    simp [Expr.shiftAll_eq_map]
  have hg' := hg.of_suffix hrest
  cases rest with
  | nil =>
    simp only [hdone]
    exact Reply.shifts_ok _
  | cons lexeme rest =>
    simp only [hdone]
    change Reply.Shifts lines cols (Expr.shiftAll lines cols)
      (if lexeme.token.kind = .comma then (g.argumentsOnto (arg :: out) rest).taking else .ok _)
      (if lexeme.token.kind = .comma then
        (g'.argumentsOnto (Expr.shiftAll lines cols (arg :: out))
          (rest.map (.shift lines cols))).taking
      else .ok _)
    split
    · exact (argumentsOnto_shift hfinish hg'.tail (arg :: out)).taking _ _
    · exact Reply.shifts_ok _
termination_by 5 * given.length + 3

end

/-! ## Whole texts -/

theorem wholeExpr_shift (hfinish : EndsMoved lines cols g g')
    (hg : Moves lines cols g.interpolate g'.interpolate given) :
    (g.wholeExpr given).Shifts lines cols (.shift lines cols)
      (g'.wholeExpr (given.map (.shift lines cols))) := by
  refine (expr_shift hfinish hg 0).andThen fun e rest _ _ _ => ?_
  cases rest with
  | nil => exact Reply.shifts_ok e
  | cons lexeme rest => exact Reply.shifts_fail _

/-- The faults that are met are those met where the text stood before. -/
theorem faultsMet_shift {α : Type} {move : α → α} {given' : List Lexeme} {reply : Reply given α}
    {reply' : Reply given' α} (h : reply.Shifts lines cols move reply')
    (hgiven : given' = given.map (.shift lines cols)) :
    faultsMet reply' = (faultsMet reply).map (.shift lines cols) := by
  subst hgiven
  obtain ⟨result, rest, recorded, hle⟩ := reply
  obtain ⟨_, _, _, _⟩ := reply'
  obtain ⟨rfl, rfl, rfl, -⟩ := h
  have hfaults (lexemes : List Lexeme) :
      (lexemes.map (Lexeme.shift lines cols)).flatMap
          (fun lexeme => lexeme.errors.map ParseError.ofLexError) =
        (lexemes.flatMap fun lexeme => lexeme.errors.map ParseError.ofLexError).map
          (.shift lines cols) := by
    induction lexemes with
    | nil => rfl
    | cons lexeme lexemes ih =>
      rw [List.map_cons, List.flatMap_cons, List.flatMap_cons, List.map_append, ih]
      simp [Lexeme.shift, ParseError.ofLexError_shift, Function.comp_def]
  unfold faultsMet
  dsimp only
  rw [← hfaults, List.map_take, List.length_map, List.length_map]
  cases result with
  | ok a => rfl
  | error e =>
    obtain ⟨kind, span, message⟩ := e
    cases kind <;> rfl

/-- A text of one line is parsed as it is where it stood before: as the same expression or with
the same errors, moved. -/
theorem standalone_shift {interpolate interpolate' : Token → Interpolation} {place : Place}
    {text : List Char} (hline : ∀ c ∈ text, c ≠ '\n')
    (hread : Moves lines cols interpolate interpolate' (Lexemes.ofChars place text).lexemes) :
    standalone interpolate' (place.shift lines cols) text =
      shiftResult (List.map (.shift lines cols)) (.shift lines cols)
        (standalone interpolate place text) := by
  have hlexemes : (Lexemes.ofChars (place.shift lines cols) text).lexemes =
      (Lexemes.ofChars place text).lexemes.map (.shift lines cols) :=
    Lexemes.lexemes_shift hline place
  have hfinish : (Lexemes.ofChars (place.shift lines cols) text).finish =
      (Lexemes.ofChars place text).finish.shift lines cols := by
    rw [Lexemes.finish_ofChars, Lexemes.finish_ofChars, Place.after_shift hline]
  have hreply : (wholeExpr ⟨(Lexemes.ofChars place text).finish, interpolate⟩
      (Lexemes.ofChars place text).lexemes).Shifts lines cols (.shift lines cols)
        (wholeExpr ⟨(Lexemes.ofChars (place.shift lines cols) text).finish, interpolate'⟩
          (Lexemes.ofChars (place.shift lines cols) text).lexemes) := by
    rw [hlexemes, hfinish]
    exact wholeExpr_shift rfl hread
  unfold standalone
  dsimp only
  rw [faultsMet_shift hreply hlexemes, hreply.recorded, hreply.result, ← List.map_append]
  cases (wholeExpr ⟨(Lexemes.ofChars place text).finish, interpolate⟩
    (Lexemes.ofChars place text).lexemes).result with
  | ok e =>
    dsimp only [shiftResult]
    rw [List.isEmpty_map]
    split
    · rfl
    · exact congrArg Except.error (ParseError.inOrder_shift _)
  | error e =>
    simp only [shiftResult, ← ParseError.inOrder_shift, List.map_append, List.map_cons, List.map_nil]

end Grammar

end TypedTemplate
