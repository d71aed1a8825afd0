-- SUMMARY: The values of constant expressions.
import TypedTemplate.Operation.Text
import TypedTemplate.Tree.Expr

/-!
# Constant expressions

An expression is constant when all its leaves are literals and evaluating it
cannot fail. What would fail, such as an overflow, is left to the running code.
-/

namespace TypedTemplate

namespace Value

def isFloat : Value → Bool
  | .float _ => true
  | _        => false

/-- Whether two values are of one type, null being of any. -/
def alike (a b : Value) : Bool := a.isNull || b.isNull || a.typeName == b.typeName

/-- The value of a unary operation, if it is constant. -/
def foldUnary? : UnaryOp → Value → Option Value
  | .not, .bool b  => some (.bool (!b))
  | .not, _        => none
  | .neg, .float x => some (.float (-x))
  | .neg, v        => (v.neg true).toOption

/-- Whether two values are equal, if they can be compared. A number beside a float is compared as
one. -/
def foldEqual? (a b : Value) : Option Bool :=
  match a.float?, b.float?, a.isFloat || b.isFloat with
  | some x, some y, true => some (x == y)
  | _,      _,      _    => if a.alike b then some (a.same b) else none

/-- The value of an arithmetic operation, if it is constant. -/
def foldArith? (op : ArithOp) (a b : Value) : Option Value :=
  if a.isFloat || b.isFloat then
    match a.float?, b.float? with
    | some x, some y => some (.float (op.float x y))
    | _,      _      => none
  else (a.arith op b true).toOption

/-- The value of a binary operation other than `??`, if it is constant. -/
def foldBinary? (op : BinaryOp) (a b : Value) : Option Value :=
  match op with
  | .add      =>
    if a.str?.isSome || b.str?.isSome then some (.str (a.render ++ b.render))
    else foldArith? .add a b
  | .sub      => foldArith? .sub a b
  | .mul      => foldArith? .mul a b
  | .equal    => (foldEqual? a b).map .bool
  | .notEqual => (foldEqual? a b).map fun e => .bool (!e)
  | .coalesce => none

/-- The value of a method without arguments, if it is constant. -/
def foldMethod? (method : String) (receiver : Value) : Option Value :=
  match method, receiver with
  | "to_string", v      => some (.str v.render)
  | "upper",     .str s => some (.str (TextOp.upper.apply s))
  | "lower",     .str s => some (.str (TextOp.lower.apply s))
  | "trim",      .str s => some (.str (TextOp.trim.apply s))
  | "len",       .str s => some (Text.count s)
  | _,           _      => none

/-- The value of a conditional, if it is constant. -/
def foldTernary? (condition whenTrue whenFalse : Value) : Option Value :=
  match condition with
  | .bool b => if whenTrue.alike whenFalse then some (if b then whenTrue else whenFalse) else none
  | _       => none

/-- The text of a hole with a value, if it is constant. -/
def foldHole? (format : Option FormatSpec) (v : Value) : Option String :=
  match format with
  | some spec => (v.format spec.kind).toOption
  | none      => some v.render

end Value

mutual

/-- The value of an expression, if it is constant. -/
def Expr.constant? : Expr → Option Value
  | .literal v _           => some v.value
  | .name _                => none
  | .member _ _ _          => none
  | .paren e _             => e.constant?
  | .unary op e _          => e.constant?.bind (Value.foldUnary? op)
  | .call receiver m args _ =>
    if args.isEmpty then receiver.constant?.bind (Value.foldMethod? m.name) else none
  | .binary .coalesce l r _ =>
    match l.constant? with
    | some .null => r.constant?
    | _          => none
  | .binary op l r _       =>
    match l.constant? with
    | some a => r.constant?.bind (Value.foldBinary? op a)
    | none   => none
  | .ternary c t f _       =>
    match c.constant? with
    | some condition =>
      match t.constant? with
      | some whenTrue => f.constant?.bind (Value.foldTernary? condition whenTrue)
      | none          => none
    | none => none
  | .interpolated parts _  => (Segment.constantOnto? "" parts).map .str

/-- The text of a segment, if it is constant. -/
def Segment.constant? : Segment → Option String
  | .text s          => some s
  | .hole e format _ => e.constant?.bind (Value.foldHole? format)

/-- The text of segments behind `out`, if they are constant. -/
def Segment.constantOnto? (out : String) : List Segment → Option String
  | []        => some out
  | s :: rest =>
    match s.constant? with
    | some t => Segment.constantOnto? (out ++ t) rest
    | none   => none

end

end TypedTemplate
