-- SUMMARY: Source locations: where a piece of a unit starts and how many bytes it covers.
import TypedTemplate.Number.Digits

/-!
# Spans

A span is a line, a column and a length. Lines and columns count from one;
columns and lengths are in UTF-8 bytes.
-/

namespace TypedTemplate

structure Span where
  line : Nat
  col : Nat
  len : Nat
deriving DecidableEq, Repr, Inhabited

namespace Span

/-- The span of a fault that has no place in the unit. -/
def nowhere : Span := ⟨0, 0, 0⟩

/-- The empty span at a position. -/
def point (line col : Nat) : Span := ⟨line, col, 0⟩

def isEmpty (s : Span) : Bool := s.len == 0

/-- The column after the last byte covered. -/
def endCol (s : Span) : Nat := s.col + s.len

/-- The least span over both, when they are on one line. On different lines the start of the
first is kept and the lengths are added. -/
def merge (a b : Span) : Span :=
  if a.line = b.line then
    let col := min a.col b.col
    ⟨a.line, col, max a.endCol b.endCol - col⟩
  else ⟨a.line, a.col, a.len + b.len⟩

/-- The start as `line:col`. -/
def start (s : Span) : String := Number.decimal s.line ++ ":" ++ Number.decimal s.col

/-- The start and the length as `line:col+len`. -/
def extent (s : Span) : String := s.start ++ "+" ++ Number.decimal s.len

/-- The span `lines` lines further down and `cols` columns further right. -/
def shift (lines cols : Nat) (s : Span) : Span := ⟨s.line + lines, s.col + cols, s.len⟩

end Span

end TypedTemplate
