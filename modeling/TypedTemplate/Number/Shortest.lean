-- SUMMARY: The fewest decimal digits that read back to a double.
import TypedTemplate.Number.Binary

/-!
# Shortest decimals

A double stands for all reals that round to it. `shortest` finds the coarsest
decimal grid with a point among them and, of the two points next to the double,
the nearer one; when both are equally near, the upper one.
-/

namespace TypedTemplate.Number

/-- The decimal `coefficient * 10 ^ exponent`. -/
structure Decimal where
  coefficient : Nat
  exponent : Int
deriving DecidableEq, Repr

/-- A double and the ends of its rounding interval over one positive denominator. -/
structure Interval where
  low : Nat
  value : Nat
  high : Nat
  den : Nat
  /-- The ends themselves round to the double. -/
  closed : Bool

/-- The reals that round to `b`: half a gap to either side, ends included for an even mantissa. -/
def Binary.interval (b : Binary) : Interval :=
  let scale := Nat.pow 2 b.q.toNat
  { low    := (4 * b.m - (if b.narrowBelow then 1 else 2)) * scale
    value  := 4 * b.m * scale
    high   := (4 * b.m + 2) * scale
    den    := 4 * Nat.pow 2 (-b.q).toNat
    closed := b.m % 2 == 0 }

/-- The interval in units of `10 ^ g`. -/
def Interval.onGrid (i : Interval) (g : Int) : Interval :=
  let up := Nat.pow 10 (-g).toNat
  { i with
    low := i.low * up, value := i.value * up, high := i.high * up, den := i.den * Nat.pow 10 g.toNat }

/-- Whether the whole number `d` lies in the interval. -/
def Interval.holds (i : Interval) (d : Nat) : Bool :=
  if i.closed then i.low ≤ d * i.den && d * i.den ≤ i.high
  else i.low < d * i.den && d * i.den < i.high

/-- The whole number of the interval nearest to its value, the upper one of two. -/
def Interval.nearest? (i : Interval) : Option Nat :=
  let below := i.value / i.den
  match i.holds below, i.holds (below + 1) with
  | false, false => none
  | true,  false => some below
  | false, true  => some (below + 1)
  | true,  true  => some (if 2 * (i.value % i.den) < i.den then below else below + 1)

/-- Try the grids `10 ^ g`, `10 ^ (g - 1)` and so on, at most `tries` of them. -/
def Interval.coarsest (i : Interval) (g : Int) : (tries : Nat) → Decimal
  | 0         => ⟨0, g⟩
  | tries + 1 =>
    match (i.onGrid g).nearest? with
    | some d => ⟨d, g⟩
    | none   => i.coarsest (g - 1) tries

/-- The shortest decimal that rounds to `b`. The search starts above the double and ends at the
latest on the grid that holds it. -/
def Binary.shortest (b : Binary) : Decimal :=
  if b.m == 0 then ⟨0, 0⟩ else
  let i := b.interval
  let top := (i.high / i.den).log2 / 3 + 1
  i.coarsest top (top + (-b.q).toNat + 1)

end TypedTemplate.Number
