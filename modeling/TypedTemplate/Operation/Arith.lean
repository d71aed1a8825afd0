-- SUMMARY: Arithmetic on values: integers of both signs, and floats.
import TypedTemplate.Model.Value

/-!
# Arithmetic

Integer operations are exact and then fitted into a word. A signed operand asks
for a signed result; only two unsigned words may give another one. A result
that does not fit is an overflow, or is wrapped into a signed word.
-/

namespace TypedTemplate

inductive ArithOp where
  | add
  | sub
  | mul
deriving DecidableEq, Repr

namespace ArithOp

def symbol : ArithOp → String
  | .add => "+"
  | .sub => "-"
  | .mul => "*"

/-- The operation on integers without bounds. -/
def exact : ArithOp → Int → Int → Int
  | .add, x, y => x + y
  | .sub, x, y => x - y
  | .mul, x, y => x * y

/-- The operation on floats. -/
def float : ArithOp → Float → Float → Float
  | .add, x, y => x + y
  | .sub, x, y => x - y
  | .mul, x, y => x * y

end ArithOp

/-- Why an integer operation has no result. -/
inductive IntFault where
  | overflow
  | notInteger
deriving DecidableEq, Repr

namespace Value

def isSigned : Value → Bool
  | .int _ => true
  | _      => false

/-- The integer `n` as a signed word if it fits. -/
def ofSigned? (n : Int) : Option Value :=
  if minInt ≤ n ∧ n ≤ maxInt then some (.int (Int64.ofInt n)) else none

/-- The integer `n` as a word: a signed one if `signed`, else one of either kind. -/
def fit? (signed : Bool) (n : Int) : Option Value := if signed then ofSigned? n else ofWide? n

/-- The integer `n` as a word. When it does not fit, that is an overflow if `checked` and else
wrapped. -/
def fitOr (checked signed : Bool) (n : Int) : Except IntFault Value :=
  match fit? signed n with
  | some v => .ok v
  | none   => if checked then .error .overflow else .ok (.int (Int64.ofInt n))

/-- An integer operation on two values. -/
def arith (op : ArithOp) (a b : Value) (checked : Bool) : Except IntFault Value :=
  match a.wide?, b.wide? with
  | some x, some y => fitOr checked (a.isSigned || b.isSigned) (op.exact x y)
  | _, _           => .error .notInteger

/-- The negative of an integer value, which is always signed. -/
def neg (a : Value) (checked : Bool) : Except IntFault Value :=
  match a.wide? with
  | some x => fitOr checked true (-x)
  | none   => .error .notInteger

/-- A number as a float. -/
def float? : Value → Option Float
  | .int i   => some i.toFloat
  | .uint u  => some u.toFloat
  | .float x => some x
  | _        => none

/-- A number becomes a float and any other value stays. -/
def promote (v : Value) : Value :=
  match v.float? with
  | some x => .float x
  | none   => v

end Value

end TypedTemplate
