-- SUMMARY: A text of one line is cut and parsed alike at every origin, with the spans moved to it.
import TypedTemplate.Proofs.Interpolation.Region
import TypedTemplate.Proofs.Interpolation.Shift
import TypedTemplate.Proofs.Token.Line
import TypedTemplate.Proofs.Token.Origin
import TypedTemplate.Proofs.Tree.Spans

/-!
# Origins

A text may be cut out of a unit, where its first character stands at any line and column. What is
found in it is then what is found in the text alone, with every span on that line and as many
columns to the right, at any depth of interpolation. Both are the findings at a place before the
first, moved, and all of a text of one line is on the line where it starts.
-/

namespace TypedTemplate

/-! ## Mapped spans -/

def Ident.mapSpan (f : Span → Span) (x : Ident) : Ident := { x with span := f x.span }

def FormatSpec.mapSpan (f : Span → Span) (spec : FormatSpec) : FormatSpec :=
  { spec with span := f spec.span }

def Token.mapSpan (f : Span → Span) (t : Token) : Token := { t with span := f t.span }

def LexError.mapSpan (f : Span → Span) (e : LexError) : LexError := { e with span := f e.span }

def ParseError.mapSpan (f : Span → Span) (e : ParseError) : ParseError :=
  { e with span := f e.span }

section

variable (f : Span → Span)

mutual

/-- The expression with `f` applied to every span in it. -/
def Expr.mapSpans : Expr → Expr
  | .literal value s         => .literal value (f s)
  | .name x                  => .name (x.mapSpan f)
  | .member object field s   => .member object.mapSpans (field.mapSpan f) (f s)
  | .call receiver method args s =>
    .call receiver.mapSpans (method.mapSpan f) (Expr.mapSpansAll args) (f s)
  | .unary op e s            => .unary op e.mapSpans (f s)
  | .binary op left right s  => .binary op left.mapSpans right.mapSpans (f s)
  | .ternary e t e' s        => .ternary e.mapSpans t.mapSpans e'.mapSpans (f s)
  | .interpolated segments s => .interpolated (Segment.mapSpansAll segments) (f s)
  | .paren e s               => .paren e.mapSpans (f s)

def Expr.mapSpansAll : List Expr → List Expr
  | []      => []
  | e :: es => e.mapSpans :: Expr.mapSpansAll es

def Segment.mapSpans : Segment → Segment
  | .text s          => .text s
  | .hole e format s => .hole e.mapSpans (format.map (.mapSpan f)) (f s)

def Segment.mapSpansAll : List Segment → List Segment
  | []      => []
  | s :: ss => s.mapSpans :: Segment.mapSpansAll ss

end

end

section

variable {f : Span → Span} {a b c d : Nat}

mutual

/-- A map that puts one move of every span in the place of another does so for the expression. -/
theorem Expr.mapSpans_shift : (e : Expr) →
    (∀ s ∈ e.spans, f (s.shift a b) = s.shift c d) → (e.shift a b).mapSpans f = e.shift c d
  | .literal value s, h => by simp_all [Expr.spans, Expr.shift, Expr.mapSpans]
  | .name x, h => by simp_all [Expr.spans, Expr.shift, Expr.mapSpans, Ident.shift, Ident.mapSpan]
  | .member object field s, h => by
    simp only [Expr.spans, List.forall_mem_cons] at h
    obtain ⟨hs, hfield, hobject⟩ := h
    simp [Expr.shift, Expr.mapSpans, Ident.shift, Ident.mapSpan, hs, hfield,
      Expr.mapSpans_shift object hobject]
  | .call receiver method args s, h => by
    simp only [Expr.spans, List.forall_mem_cons, List.forall_mem_append] at h
    obtain ⟨hs, hmethod, hreceiver, hargs⟩ := h
    simp [Expr.shift, Expr.mapSpans, Ident.shift, Ident.mapSpan, hs, hmethod,
      Expr.mapSpans_shift receiver hreceiver, Expr.mapSpansAll_shift args hargs]
  | .unary op e s, h => by
    simp only [Expr.spans, List.forall_mem_cons] at h
    simp [Expr.shift, Expr.mapSpans, h.1, Expr.mapSpans_shift e h.2]
  | .binary op left right s, h => by
    simp only [Expr.spans, List.forall_mem_cons, List.forall_mem_append] at h
    obtain ⟨hs, hleft, hright⟩ := h
    simp [Expr.shift, Expr.mapSpans, hs, Expr.mapSpans_shift left hleft,
      Expr.mapSpans_shift right hright]
  | .ternary e t e' s, h => by
    simp only [Expr.spans, List.forall_mem_cons, List.forall_mem_append] at h
    obtain ⟨hs, he, ht, he'⟩ := h
    simp [Expr.shift, Expr.mapSpans, hs, Expr.mapSpans_shift e he, Expr.mapSpans_shift t ht,
      Expr.mapSpans_shift e' he']
  | .interpolated segments s, h => by
    simp only [Expr.spans, List.forall_mem_cons] at h
    simp [Expr.shift, Expr.mapSpans, h.1, Segment.mapSpansAll_shift segments h.2]
  | .paren e s, h => by
    simp only [Expr.spans, List.forall_mem_cons] at h
    simp [Expr.shift, Expr.mapSpans, h.1, Expr.mapSpans_shift e h.2]

theorem Expr.mapSpansAll_shift : (es : List Expr) →
    (∀ s ∈ Expr.spansAll es, f (s.shift a b) = s.shift c d) →
      Expr.mapSpansAll f (Expr.shiftAll a b es) = Expr.shiftAll c d es
  | [], _ => rfl
  | e :: es, h => by
    obtain ⟨he, hes⟩ := List.forall_mem_append.1 h
    simp [Expr.shiftAll, Expr.mapSpansAll, Expr.mapSpans_shift e he, Expr.mapSpansAll_shift es hes]

theorem Segment.mapSpans_shift : (segment : Segment) →
    (∀ s ∈ segment.spans, f (s.shift a b) = s.shift c d) →
      (segment.shift a b).mapSpans f = segment.shift c d
  | .text s, _ => rfl
  | .hole e format s, h => by
    simp only [Segment.spans, List.forall_mem_cons, List.forall_mem_append] at h
    obtain ⟨hs, he, hformat⟩ := h
    simp only [Segment.shift, Segment.mapSpans, hs, Expr.mapSpans_shift e he]
    cases format with
    | none => rfl
    | some spec => simp_all [FormatSpec.shift, FormatSpec.mapSpan]

theorem Segment.mapSpansAll_shift : (segments : List Segment) →
    (∀ s ∈ Segment.spansAll segments, f (s.shift a b) = s.shift c d) →
      Segment.mapSpansAll f (Segment.shiftAll a b segments) = Segment.shiftAll c d segments
  | [], _ => rfl
  | segment :: segments, h => by
    obtain ⟨hsegment, hsegments⟩ := List.forall_mem_append.1 h
    simp [Segment.shiftAll, Segment.mapSpansAll, Segment.mapSpans_shift segment hsegment,
      Segment.mapSpansAll_shift segments hsegments]

end

end

/-! ## Origins -/

/-- The span in a text that starts at `origin`, given the one when the text starts at the first
place of a unit. -/
def Span.moveTo (origin : Place) (s : Span) : Span := ⟨origin.line, s.col + origin.col - 1, s.len⟩

/-- The places of the line before the first. -/
def Region.lineZero : Region := fun p => p.line = 0

theorem Region.covers_lineZero {text : List Char} (hline : ∀ c ∈ text, c ≠ '\n') :
    lineZero.Covers ⟨0, 0⟩ text :=
  fun pre hpre => (covers_line (p := ⟨0, 0⟩) hline pre hpre).1

theorem Span.moveTo_shift {s : Span} (h : Region.lineZero s.place) (origin : Place) :
    (s.shift 1 1).moveTo origin = s.shift origin.line origin.col := by
  have hline : s.line = 0 := h
  simp only [moveTo, shift, Span.mk.injEq, and_true, hline]
  omega

section

variable {origin : Place}

theorem Token.moveTo_shift {t : Token} (h : Region.lineZero t.span.place) :
    (t.shift 1 1).mapSpan (.moveTo origin) = t.shift origin.line origin.col := by
  simp only [mapSpan, shift, Span.moveTo_shift h]

theorem LexError.moveTo_shift {e : LexError} (h : Region.lineZero e.span.place) :
    (e.shift 1 1).mapSpan (.moveTo origin) = e.shift origin.line origin.col := by
  simp only [mapSpan, shift, Span.moveTo_shift h]

theorem ParseError.moveTo_shift {e : ParseError} (h : Region.lineZero.Holds e) :
    (e.shift 1 1).mapSpan (.moveTo origin) = e.shift origin.line origin.col := by
  simp only [mapSpan, shift, Span.moveTo_shift ((Region.holds_parseError e).1 h)]

theorem Expr.moveTo_shift {e : Expr} (h : Region.lineZero.Holds e) :
    (e.shift 1 1).mapSpans (.moveTo origin) = e.shift origin.line origin.col :=
  e.mapSpans_shift fun s hs => Span.moveTo_shift (h s hs) origin

end

/-- Every place is reached from the one before the first. -/
theorem Place.eq_shift (origin : Place) :
    origin = (⟨0, 0⟩ : Place).shift origin.line origin.col := by
  simp [shift]

/-! ## Lexers and parsers -/

theorem Lexer.calls_moveTo {text : List Char} (hline : ∀ c ∈ text, c ≠ '\n') (origin : Place)
    (calls : List LexerCall) :
    (start origin text).answers calls =
        ((start .first text).answers calls).map (.mapSpan (.moveTo origin)) ∧
      ((start origin text).afterCalls calls).errors =
        ((start .first text).afterCalls calls).errors.map (.mapSpan (.moveTo origin)) := by
  -- A span is moved to a line, not by lines, so what is found must be known to be on one line.
  have hstart : (start ⟨0, 0⟩ text).OnLastLine := hline
  obtain ⟨htokens, herrors⟩ := places_of_calls (Region.covers_lineZero hline) calls
  obtain ⟨hanswers, hafter⟩ := calls_shift origin.line origin.col hstart calls
  obtain ⟨hanswers', hafter'⟩ := calls_shift 1 1 hstart calls
  have horigin : start origin text = (start ⟨0, 0⟩ text).shift origin.line origin.col :=
    congrArg (start · text) origin.eq_shift
  have hfirst : start .first text = (start ⟨0, 0⟩ text).shift 1 1 := rfl
  rw [horigin, hfirst, hanswers, hafter, hanswers', hafter', List.map_map]
  refine ⟨List.map_congr_left fun t ht => (Token.moveTo_shift (htokens t ht)).symm, ?_⟩
  simp only [shift, List.map_map]
  exact List.map_congr_left fun e he => (LexError.moveTo_shift (herrors e he)).symm

theorem Expr.standalone_moveTo {text : String} (hline : ∀ c ∈ text.toList, c ≠ '\n') {depth : Nat}
    (hdepth : text.length ≤ depth) (origin : Place) :
    Grammar.standalone (Grammar.interpolation depth) origin text.toList =
      shiftResult (List.map (.mapSpan (.moveTo origin))) (.mapSpans (.moveTo origin))
        (parse text) := by
  have hlength : text.toList.length ≤ depth := String.length_toList ▸ hdepth
  have hlength' : text.toList.length ≤ text.length + 1 :=
    String.length_toList ▸ Nat.le_succ text.length
  have horigin : Grammar.standalone (Grammar.interpolation depth)
      ((⟨0, 0⟩ : Place).shift origin.line origin.col) text.toList = _ :=
    Grammar.standalone_interpolation_shift hline hlength hlength ⟨0, 0⟩
  have hfirst : Grammar.standalone (Grammar.interpolation (text.length + 1))
      ((⟨0, 0⟩ : Place).shift 1 1) text.toList = _ :=
    Grammar.standalone_interpolation_shift hline hlength hlength' ⟨0, 0⟩
  have hholds := Grammar.holds_standalone (Grammar.liesIn_interpolation depth)
    (Region.covers_lineZero hline)
  rw [← origin.eq_shift] at horigin
  rw [horigin, show parse text = _ from hfirst]
  cases hbase : Grammar.standalone (Grammar.interpolation depth) ⟨0, 0⟩ text.toList with
  | ok e =>
    rw [hbase, Region.holds_ok] at hholds
    exact congrArg Except.ok (moveTo_shift hholds).symm
  | error errors =>
    rw [hbase, Region.holds_error] at hholds
    simp only [shiftResult, List.map_map]
    exact congrArg Except.error <| List.map_congr_left fun e he =>
      (ParseError.moveTo_shift (hholds.mem he)).symm

/-- A text of one line has the same tokens and faults at every origin, and is the same expression or
has the same errors, all of it moved to the origin: every span in the expression too, those in the
holes of interpolated strings included. -/
theorem moveTo_commutes {text : String} (hline : '\n' ∉ text.toList) {depth : Nat}
    (hdepth : text.length ≤ depth) (origin : Place) :
    (∀ calls,
      (Lexer.start origin text.toList).answers calls =
        ((Lexer.start .first text.toList).answers calls).map (.mapSpan (.moveTo origin)) ∧
      ((Lexer.start origin text.toList).afterCalls calls).errors =
        ((Lexer.start .first text.toList).afterCalls calls).errors.map
          (.mapSpan (.moveTo origin))) ∧
    Grammar.standalone (Grammar.interpolation depth) origin text.toList =
      shiftResult (List.map (.mapSpan (.moveTo origin))) (.mapSpans (.moveTo origin))
        (Expr.parse text) := by
  have hchars : ∀ c ∈ text.toList, c ≠ '\n' := fun c hc heq => hline (heq ▸ hc)
  exact ⟨Lexer.calls_moveTo hchars origin, Expr.standalone_moveTo hchars hdepth origin⟩

/-- A string in the hole of a string is moved with it to the middle of a unit. -/
theorem moveTo_commutes_nested :
    let text := "$\"a\x7b$\"\x7bx:D\x7d\"\x7d\""
    let origin : Place := ⟨4, 9⟩
    '\n' ∉ text.toList ∧ text.length ≤ 14 ∧
      (Lexer.start origin text.toList).answers [.peek 1, .next] =
        ((Lexer.start .first text.toList).answers [.peek 1, .next]).map
          (.mapSpan (.moveTo origin)) ∧
      Grammar.standalone (Grammar.interpolation 14) origin text.toList =
        shiftResult (List.map (.mapSpan (.moveTo origin))) (.mapSpans (.moveTo origin))
          (Expr.parse text) := by
  intro text origin
  have hline : '\n' ∉ text.toList := by decide
  have hlength : text.length ≤ 14 := by decide
  obtain ⟨hcalls, hexpr⟩ := moveTo_commutes hline hlength origin
  exact ⟨hline, hlength, (hcalls [.peek 1, .next]).1, hexpr⟩

end TypedTemplate
