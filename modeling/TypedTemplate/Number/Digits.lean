-- SUMMARY: Positional numerals of natural numbers and integers, with zero padding.

/-!
# Digits

Numerals in base ten and sixteen. Padding puts zeros in front of the digits, after
the sign.
-/

namespace TypedTemplate.Number

/-- Which letters stand for the digit values from ten on. -/
inductive DigitCase where
  | lower
  | upper
deriving DecidableEq, Repr

/-- The digit with value `d`, for `d` below sixteen. -/
def DigitCase.digit (letters : DigitCase) (d : Nat) : Char :=
  if d < 10 then Char.ofNat ('0'.toNat + d)
  else match letters with
    | .lower => Char.ofNat ('a'.toNat + (d - 10))
    | .upper => Char.ofNat ('A'.toNat + (d - 10))

/-- Put the digits of `n` in base `b`, most significant first, before `tail`. -/
def digitsOnto (letters : DigitCase) (b : Nat) (n : Nat) (tail : List Char) : List Char :=
  if _h : b < 2 ∨ n < b then letters.digit n :: tail
  else digitsOnto letters b (n / b) (letters.digit (n % b) :: tail)
termination_by n
decreasing_by exact Nat.div_lt_self (by omega) (by omega)

/-- The digits of `n` in base `b`, at least one. -/
def digits (letters : DigitCase) (b : Nat) (n : Nat) : List Char :=
  digitsOnto letters b n []

/-- Zeros in front of `cs` until there are `width` characters. -/
def padZeros (width : Nat) (cs : List Char) : List Char :=
  List.replicate (width - cs.length) '0' ++ cs

/-- The decimal numeral of `n` with at least `width` digits. -/
def paddedDecimal (width : Nat) (n : Nat) : String :=
  String.ofList (padZeros width (digits .lower 10 n))

/-- The hexadecimal numeral of `n` with at least `width` digits. -/
def paddedHex (letters : DigitCase) (width : Nat) (n : Nat) : String :=
  String.ofList (padZeros width (digits letters 16 n))

/-- The decimal numeral of `n`. -/
def decimal (n : Nat) : String := paddedDecimal 0 n

/-- The decimal numeral of `i`: a minus sign when negative, then at least `width` digits. -/
def paddedInteger (width : Nat) (i : Int) : String :=
  (if i < 0 then "-" else "") ++ paddedDecimal width i.natAbs

/-- The decimal numeral of `i`. -/
def integer (i : Int) : String := paddedInteger 0 i

/-- The value of a decimal digit. -/
def digitValue (c : Char) : Nat := c.toNat - '0'.toNat

/-- Read a run of decimal digits in `2 ^ depth` pieces. Halving a long run keeps the factors of its
products of one size. -/
def ofDigitsIn : (depth : Nat) → List Char → Nat
  | 0,         cs => cs.foldl (fun n c => n * 10 + digitValue c) 0
  | depth + 1, cs =>
    let half := cs.length / 2
    ofDigitsIn depth (cs.take half) * Nat.pow 10 (cs.length - half) + ofDigitsIn depth (cs.drop half)

/-- The number that a run of decimal digits spells. -/
def ofDigits (cs : List Char) : Nat := ofDigitsIn (cs.length / 32).log2 cs

end TypedTemplate.Number
