-- SUMMARY: Doubles as exact binary fractions, and the double nearest to a fraction.

/-!
# Double precision numbers, exactly

A finite double is `m * 2 ^ q`. `Binary.ofBits` takes its parts out of the bit
pattern, and `nearestBits` goes the other way: the bit pattern of the double
nearest to a quotient of natural numbers, with ties to the even mantissa and
values beyond the range at infinity.
-/

namespace TypedTemplate.Number

/-- The quotient `num / den` rounded to the nearest natural number, a half to the even one. -/
def roundDiv (num den : Nat) : Nat :=
  let whole := num / den
  let twice := 2 * (num % den)
  if twice < den || (twice == den && whole % 2 == 0) then whole else whole + 1

/-- The magnitude `m * 2 ^ q` of a finite double. -/
structure Binary where
  m : Nat
  q : Int
  /-- The gap to the double below is half the gap to the one above. -/
  narrowBelow : Bool

/-- The magnitude with the given bit pattern, for one that is neither infinite nor NaN. -/
def Binary.ofBits (bits : UInt64) : Binary :=
  let exponent := ((bits >>> 52) &&& 0x7FF).toNat
  let fraction := (bits &&& 0xFFFFFFFFFFFFF).toNat
  if exponent == 0 then ⟨fraction, -1074, false⟩
  else ⟨0x10000000000000 + fraction, (exponent : Int) - 1075, fraction == 0 && exponent > 1⟩

/-- The numerator and denominator of `m * 2 ^ q`. -/
def Binary.fraction (b : Binary) : Nat × Nat :=
  (b.m * Nat.pow 2 b.q.toNat, Nat.pow 2 (-b.q).toNat)

def infinityBits : UInt64 := 0x7FF0000000000000

/-- The bit pattern of the non-negative double nearest to `num / den`, for positive `den`. -/
def nearestBits (num den : Nat) : UInt64 :=
  if num == 0 then 0 else
  let scaled (q : Int) : Nat × Nat := (num * Nat.pow 2 (-q).toNat, den * Nat.pow 2 q.toNat)
  let low := max ((num.log2 : Int) - den.log2 - 53) (-1074)
  let fits (q : Int) : Bool := (scaled q).1 / (scaled q).2 < 0x20000000000000
  let q := if fits low then low else if fits (low + 1) then low + 1 else low + 2
  if q > 971 then infinityBits else
  let bits := (q + 1074).toNat * 0x10000000000000 + roundDiv (scaled q).1 (scaled q).2
  if bits ≥ infinityBits.toNat then infinityBits else UInt64.ofNat bits

end TypedTemplate.Number
