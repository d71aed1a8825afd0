-- SUMMARY: A reading position inside a text, with what has been read and what is left.
import TypedTemplate.Source.Place

/-!
# Cursors

A cursor divides a text in two: the characters read, nearest first, and the
characters left. It knows the place of the next one. A cursor may start at any
place, for a text that is cut out of a larger unit.
-/

namespace TypedTemplate

structure Cursor where
  /-- What has been read, in reverse. -/
  before : List Char
  rest : List Char
  place : Place
  /-- The number of bytes read. -/
  offset : Nat
deriving Repr

namespace Cursor

/-- The cursor at the start of `cs`, whose first character stands at `place`. -/
def start (place : Place) (cs : List Char) : Cursor := ⟨[], cs, place, 0⟩

/-- The whole text. -/
def text (c : Cursor) : List Char := c.before.reverse ++ c.rest

def atEnd (c : Cursor) : Bool := c.rest.isEmpty

/-- The character `n` places ahead; none is skipped for zero. -/
def peek (c : Cursor) (n : Nat) : Option Char := c.rest[n]?

/-- Whether `cs` comes next. -/
def startsWith (c : Cursor) (cs : List Char) : Bool := cs.isPrefixOf c.rest

/-- Read one character. -/
def advance (c : Cursor) : Option Char × Cursor :=
  match c.rest with
  | []         => (none, c)
  | ch :: rest => (some ch, ⟨ch :: c.before, rest, c.place.next ch, c.offset + ch.utf8Size⟩)

/-- Read `n` characters, or all that are left. -/
def skip (c : Cursor) : Nat → Cursor
  | 0     => c
  | n + 1 => c.advance.2.skip n

/-- Read the next character if it is `ch`. -/
def eat (c : Cursor) (ch : Char) : Bool × Cursor :=
  if c.peek 0 = some ch then (true, c.advance.2) else (false, c)

/-- Read the characters that satisfy `p`, up to the first that does not. -/
def eatWhile (c : Cursor) (p : Char → Bool) : List Char × Cursor :=
  let taken := c.rest.takeWhile p
  (taken, c.skip taken.length)

/-- The characters read since the offset `start`. -/
def since (c : Cursor) (start : Nat) : List Char :=
  let rec back (offset : Nat) (out : List Char) : List Char → List Char
    | []      => out
    | ch :: cs => if offset ≤ start then out else back (offset - ch.utf8Size) (ch :: out) cs
  back c.offset [] c.before

@[simp] theorem text_start (place : Place) (cs : List Char) : (start place cs).text = cs := rfl

@[simp] theorem text_advance (c : Cursor) : c.advance.2.text = c.text := by
  unfold advance text
  split <;> simp_all

@[simp] theorem text_skip (c : Cursor) (n : Nat) : (c.skip n).text = c.text := by
  induction n generalizing c with
  | zero => rfl
  | succ n ih => simp [skip, ih]

end Cursor

end TypedTemplate
