-- SUMMARY: The operators of expressions and how tightly they bind.
import TypedTemplate.Token.Basic

/-!
# Operators

Binding powers decide which operator takes an operand between two of them: the
one with the higher power. From loose to tight: the conditional, `??`, the
equalities, `+` and `-`, `*`, the unary operators, member access. All binary
operators group to the left, since the power to their right is the higher one.
-/

namespace TypedTemplate

inductive BinaryOp where
  | add
  | sub
  | mul
  | equal
  | notEqual
  /-- The left operand unless it is null, else the right one. -/
  | coalesce
deriving DecidableEq, Repr

namespace BinaryOp

def symbol : BinaryOp → String
  | .add      => "+"
  | .sub      => "-"
  | .mul      => "*"
  | .equal    => "=="
  | .notEqual => "!="
  | .coalesce => "??"

/-- The binding power to the left. -/
def leftPower : BinaryOp → Nat
  | .coalesce          => 3
  | .equal | .notEqual => 5
  | .add | .sub        => 7
  | .mul               => 9

/-- The binding power to the right. -/
def rightPower (op : BinaryOp) : Nat := op.leftPower + 1

def ofToken? : TokenKind → Option BinaryOp
  | .plus             => some .add
  | .minus            => some .sub
  | .star             => some .mul
  | .equalEqual       => some .equal
  | .bangEqual        => some .notEqual
  | .questionQuestion => some .coalesce
  | _                 => none

end BinaryOp

inductive UnaryOp where
  | not
  | neg
deriving DecidableEq, Repr

namespace UnaryOp

def symbol : UnaryOp → String
  | .not => "!"
  | .neg => "-"

def ofToken? : TokenKind → Option UnaryOp
  | .bang  => some .not
  | .minus => some .neg
  | _      => none

end UnaryOp

/-- The binding power of the conditional `? :`. -/
def ternaryPower : Nat := 2

/-- The binding power of the unary operators. -/
def unaryPower : Nat := 11

/-- The binding power of member access and method calls. -/
def memberPower : Nat := 13

end TypedTemplate
