-- SUMMARY: The position of a character in a unit.
import TypedTemplate.Source.Span

/-!
# Places

A place is a line and a column. A line feed leads to the start of the next line;
any other character leads as many columns to the right as it has bytes.
-/

namespace TypedTemplate

/-- The number of bytes of `cs` in UTF-8. -/
def Text.byteSize (cs : List Char) : Nat := cs.foldl (fun n c => n + c.utf8Size) 0

structure Place where
  line : Nat
  col : Nat
deriving DecidableEq, Repr

namespace Place

/-- The first place of a unit. -/
def first : Place := ⟨1, 1⟩

/-- The place after a character `c` at `p`. -/
def next (p : Place) (c : Char) : Place :=
  if c = '\n' then ⟨p.line + 1, 1⟩ else ⟨p.line, p.col + c.utf8Size⟩

/-- The place after the text `cs` that starts at `p`. -/
def after (p : Place) (cs : List Char) : Place := cs.foldl next p

/-- The span of `len` bytes from `p`. -/
def span (p : Place) (len : Nat) : Span := ⟨p.line, p.col, len⟩

/-- The span of the text `cs` that starts at `p`. -/
def spanOf (p : Place) (cs : List Char) : Span := p.span (Text.byteSize cs)

/-- The span from `p` up to `q` on the same line. -/
def upTo (p q : Place) : Span := p.span (q.col - p.col)

@[simp] theorem after_nil (p : Place) : p.after [] = p := rfl

@[simp] theorem after_cons (p : Place) (c : Char) (cs : List Char) :
    p.after (c :: cs) = (p.next c).after cs := rfl

theorem after_append (p : Place) (cs ds : List Char) :
    p.after (cs ++ ds) = (p.after cs).after ds := by
  simp [after]

end Place

end TypedTemplate
