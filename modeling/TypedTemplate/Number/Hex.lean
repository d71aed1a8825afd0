-- SUMMARY: Reading hexadecimal numerals and characters given by code point.
import TypedTemplate.Number.Digits

/-!
# Reading hexadecimal
-/

namespace TypedTemplate.Number

/-- The value of a hexadecimal digit, in either case. -/
def hexDigitValue? (c : Char) : Option Nat :=
  if '0' ≤ c && c ≤ '9' then some (c.toNat - '0'.toNat)
  else if 'a' ≤ c && c ≤ 'f' then some (c.toNat - 'a'.toNat + 10)
  else if 'A' ≤ c && c ≤ 'F' then some (c.toNat - 'A'.toNat + 10)
  else none

/-- Read digits behind the number `n`. There is no result above `bound`. -/
def hexFrom? (bound n : Nat) : List Char → Option Nat
  | []      => some n
  | c :: cs =>
    match hexDigitValue? c with
    | some d => if n * 16 + d ≤ bound then hexFrom? bound (n * 16 + d) cs else none
    | none   => none

/-- Read a numeral of a number up to `bound`: at least one digit, after an optional plus sign. -/
def hex? (bound : Nat) (cs : List Char) : Option Nat :=
  let ds := match cs with
    | '+' :: ds => ds
    | ds        => ds
  if ds.isEmpty then none else hexFrom? bound 0 ds

/-- The greatest code point. -/
def maxCodePoint : Nat := 0x10FFFF

/-- The character whose code point the numeral gives. -/
def hexChar? (cs : List Char) : Option Char :=
  match hex? maxCodePoint cs with
  | some n => if n.isValidChar then some (Char.ofNat n) else none
  | none   => none

end TypedTemplate.Number
