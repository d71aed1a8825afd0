-- SUMMARY: Operations that give text: string methods and format specifiers.
import TypedTemplate.Fault.Runtime
import TypedTemplate.Operation.Arith
import TypedTemplate.Text.Blank
import TypedTemplate.Text.Case
import TypedTemplate.Tree.Format

/-!
# Text operations
-/

namespace TypedTemplate

/-- A method of strings whose result is a string. -/
inductive TextOp where
  | upper
  | lower
  | trim
deriving DecidableEq, Repr

def TextOp.apply : TextOp → String → String
  | .upper, s => Text.upper s
  | .lower, s => Text.lower s
  | .trim,  s => Text.trim s

/-- The number of characters of a string as a value. -/
def Text.count (s : String) : Value := .int (Int64.ofInt s.length)

namespace Value

/-- A value of another type than expected. -/
def mismatch (expected : String) (v : Value) : RuntimeError := .typeMismatch expected v.typeName

/-- The 64 bits of an integer value, negative ones in two's complement. -/
def word? : Value → Option Nat
  | .int i  => some i.toUInt64.toNat
  | .uint u => some u.toNat
  | _       => none

/-- The text of a value under a format specifier. Null is the empty text under any. -/
def format (kind : FormatKind) (v : Value) : Except RuntimeError String :=
  if v.isNull then .ok "" else
  match kind with
  | .fixed decimals    =>
    match v.float? with
    | some x => .ok (Number.fixedText decimals.toNat x)
    | none   => .error (v.mismatch "int or float")
  | .decimal width     =>
    match v.wide? with
    | some n => .ok (Number.paddedInteger width.toNat n)
    | none   => .error (v.mismatch "int")
  | .hex letters width =>
    match v.word? with
    | some n => .ok (Number.paddedHex letters width.toNat n)
    | none   => .error (v.mismatch "int")
  | .upper             =>
    match v.str? with
    | some s => .ok (Text.upper s)
    | none   => .error (v.mismatch "string")
  | .lower             =>
    match v.str? with
    | some s => .ok (Text.lower s)
    | none   => .error (v.mismatch "string")

end Value

end TypedTemplate
