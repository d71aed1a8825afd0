-- SUMMARY: The text of a double, shortest or with a set number of decimals, and its reading.
import TypedTemplate.Number.Digits
import TypedTemplate.Number.Shortest

/-!
# Doubles as text

A double is written without an exponent, either with the fewest digits that read
back or with a set number of decimals. In the second case the exact binary value
is rounded, a half to the even digit. The sign of zero is kept.
-/

namespace TypedTemplate.Number

/-- Write `digits` with a point before the last `places` of them, and no point for none. -/
def pointed (places : Nat) (digits : List Char) : List Char :=
  if places == 0 then digits else
  let padded := padZeros (places + 1) digits
  let whole := padded.length - places
  padded.take whole ++ '.' :: padded.drop whole

/-- The positional numeral of a decimal. -/
def Decimal.chars (d : Decimal) : List Char :=
  pointed (-d.exponent).toNat (digits .lower 10 (d.coefficient * Nat.pow 10 d.exponent.toNat))

/-- The numeral of `b` rounded to `places` decimals. -/
def Binary.fixed (b : Binary) (places : Nat) : List Char :=
  let (num, den) := b.fraction
  pointed places (digits .lower 10 (roundDiv (num * Nat.pow 10 places) den))

/-- The text of a double whose magnitude, when finite, `body` writes. -/
def floatText (body : Binary → List Char) (x : Float) : String :=
  if x.isNaN then "NaN" else
  let bits := x.toBits
  let sign := if bits >>> 63 == 1 then "-" else ""
  sign ++ (if x.isInf then "inf" else String.ofList (body (Binary.ofBits bits)))

/-- The shortest text that reads back to `x`. -/
def shortestText (x : Float) : String := floatText (fun b => b.shortest.chars) x

/-- The text of `x` with `places` decimals. -/
def fixedText (places : Nat) (x : Float) : String := floatText (fun b => b.fixed places) x

/-- The double nearest to `coefficient * 10 ^ exponent`. Beyond the exponents of any double the
result is known without computing the power. -/
def nearestFloat (d : Decimal) : Float :=
  if d.coefficient == 0 then 0 else
  if d.exponent > 400 then Float.ofBits infinityBits else
  if d.exponent + (d.coefficient.log2 + 1 : Nat) < -400 then 0 else
  Float.ofBits (nearestBits (d.coefficient * Nat.pow 10 d.exponent.toNat) (Nat.pow 10 (-d.exponent).toNat))

/-- From here on an exponent takes no more digits: it is out of all proportion already. -/
def exponentBound : Nat := 0x10000

/-- Read the digits of an exponent. -/
def readExponent (cs : List Char) : Nat :=
  cs.foldl (fun n c => if n < exponentBound then n * 10 + digitValue c else n) 0

/-- Read a decimal numeral: digits, optionally a point and digits, optionally `e` or `E`, a sign
and digits. -/
def readDecimal (cs : List Char) : Decimal :=
  let (whole, rest) := cs.span Char.isDigit
  let (part, rest) :=
    match rest with
    | '.' :: rest => rest.span Char.isDigit
    | _           => ([], rest)
  let exponent : Int :=
    match rest with
    | _ :: '-' :: ds => -(readExponent ds : Int)
    | _ :: '+' :: ds => readExponent ds
    | _ :: ds        => readExponent ds
    | []             => 0
  ⟨ofDigits (whole ++ part), exponent - part.length⟩

/-- The double nearest to the decimal numeral `cs`. -/
def readFloat (cs : List Char) : Float := nearestFloat (readDecimal cs)

end TypedTemplate.Number
