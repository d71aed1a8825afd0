-- SUMMARY: Format specifiers of interpolation holes.
import TypedTemplate.Number.Digits
import TypedTemplate.Source.Span

/-!
# Format specifiers

A hole may say how its value is written: numbers with a set number of decimals,
with a least number of digits or in hexadecimal, strings in upper or lower case.
-/

namespace TypedTemplate

inductive FormatKind where
  /-- A number with so many decimals. -/
  | fixed (decimals : UInt8)
  /-- An integer with at least so many digits. -/
  | decimal (width : UInt8)
  /-- An integer in hexadecimal with at least so many digits. -/
  | hex (letters : Number.DigitCase) (width : UInt8)
  | upper
  | lower
deriving DecidableEq, Repr

namespace FormatKind

/-- The greatest number that a specifier may carry. -/
def maxWidth : Nat := 32

/-- The number after the letter of a specifier: `none` if it is not acceptable, `some none` if
there is none. -/
def parseWidth (ds : List Char) : Option (Option UInt8) :=
  if ds.isEmpty then some none
  else if ds.all Char.isDigit && Number.ofDigits ds ≤ maxWidth then
    some (some (UInt8.ofNat (Number.ofDigits ds)))
  else none

/-- The specifier of a letter and the number behind it. The cases of strings take no number. -/
def ofLetter (letter : Char) (width : Option UInt8) : Option FormatKind :=
  match letter with
  | 'F' | 'f' => some (.fixed (width.getD 2))
  | 'D' | 'd' => some (.decimal (width.getD 0))
  | 'X'       => some (.hex .upper (width.getD 0))
  | 'x'       => some (.hex .lower (width.getD 0))
  | 'U' | 'u' => if width.isNone then some .upper else none
  | 'L' | 'l' => if width.isNone then some .lower else none
  | _         => none

/-- Read a specifier: a letter and, except for the cases of strings, an optional number. -/
def parse (text : List Char) : Option FormatKind :=
  match text with
  | []           => none
  | letter :: ds => (parseWidth ds).bind (ofLetter letter)

/-- The canonical spelling. -/
def text : FormatKind → String
  | .fixed n      => "F" ++ Number.decimal n.toNat
  | .decimal n    => "D" ++ Number.decimal n.toNat
  | .hex .upper n => "X" ++ Number.decimal n.toNat
  | .hex .lower n => "x" ++ Number.decimal n.toNat
  | .upper        => "U"
  | .lower        => "L"

/-- Whether the specifier is for numbers. -/
def isNumeric : FormatKind → Bool
  | .upper | .lower => false
  | _               => true

end FormatKind

/-- A specifier with its place. -/
structure FormatSpec where
  kind : FormatKind
  span : Span
deriving DecidableEq, Repr

end TypedTemplate
