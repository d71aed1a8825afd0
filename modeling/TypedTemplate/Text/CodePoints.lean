-- SUMMARY: Sets of characters given as tables of code point ranges.

/-!
# Character classes as range tables

A character property of the Unicode standard is kept as a table of inclusive code
point ranges. The ranges are in order and do not overlap, so a search can halve
the table at each step.
-/

namespace TypedTemplate.Text

/-- The inclusive range of code points from `first` to `last`. -/
structure CodeRange where
  first : Nat
  last : Nat

/-- The entry of `table` from place `low` on and before place `high` whose range holds `n`. Halving
the places `steps` times leaves none. -/
def searchRange {α : Type} (range : α → CodeRange) (table : Array α) (n : Nat) :
    (steps low high : Nat) → Option α
  | 0,         _,   _    => none
  | steps + 1, low, high =>
    let middle := (low + high) / 2
    if middle < high then
      match table[middle]? with
      | none   => none
      | some e =>
        if n < (range e).first then searchRange range table n steps low middle
        else if (range e).last < n then searchRange range table n steps (middle + 1) high
        else some e
    else none

/-- The entry of a table in order whose range holds the code point `n`. -/
def findRange? {α : Type} (range : α → CodeRange) (table : Array α) (n : Nat) : Option α :=
  searchRange range table n (table.size.log2 + 1) 0 table.size

/-- Whether one of the ranges of `table` holds `c`. -/
def inTable (table : Array CodeRange) (c : Char) : Bool := (findRange? id table c.toNat).isSome

end TypedTemplate.Text
