-- SUMMARY: Evaluation as the code of a build does it: with constants replaced and read from a pool.
import TypedTemplate.Compile.Constant
import TypedTemplate.Proofs.Code.Constants
import TypedTemplate.Proofs.Semantics.Eval

/-!
# Evaluation in a build

A release build replaces constant expressions by their values, and any build reads
its constants from a pool, which may give a zero of the other sign. Evaluation in
a build is evaluation with these two differences.
-/

namespace TypedTemplate

/-- What a build makes of constants. -/
structure Build where
  /-- Constant expressions are replaced by their values. -/
  folds : Bool
  /-- What code gets when it reads a float. -/
  float : Float → Float

/-- The value that an expression is replaced by. -/
def Expr.folded? (folds : Bool) (e : Expr) : Option Value := if folds then e.constant? else none

/-- The text that a hole is replaced by. -/
def Expr.foldedHole? (folds : Bool) (e : Expr) (format : Option FormatSpec) : Option String :=
  if folds then e.constant?.bind (Value.foldHole? format) else none

/-- Read the value of an expression that the build replaces, or else go on as `m` says. -/
def Build.fold (b : Build) (e : Expr) (m : Except RuntimeError Value) : Except RuntimeError Value :=
  match e.folded? b.folds with
  | some v => .ok (v.readBy b.float)
  | none   => m

section

variable (r : Registry) (b : Build) (checked : Bool) (env : Env)

mutual

/-- The value of an expression as the code of a build gives it. -/
def Expr.evalBy : Expr → Except RuntimeError Value
  | .literal v _                      => .ok (v.value.readBy b.float)
  | .name x                           => .ok (env.value x.name)
  | .member e field _                 => do (← e.evalBy).evalField r (e.kind r env) field.name
  | .call e method args span          => b.fold (.call e method args span) do
    (← e.evalBy).evalMethod method.name
  | .unary op e span                  => b.fold (.unary op e span) do
    (← e.evalBy).evalUnary op checked span.line (e.kind r env)
  | .binary .coalesce left right span => b.fold (.binary .coalesce left right span) do
    let v ← left.evalBy
    if v.isNull then right.evalBy else return v
  | .binary op left right span        => b.fold (.binary op left right span) do
    let v ← left.evalBy
    let w ← right.evalBy
    v.evalBinary op checked span.line (left.kind r env) (right.kind r env) w
  | .ternary e t f span               => b.fold (.ternary e t f span) do
    if ← (← e.evalBy).bool? then t.evalBy else f.evalBy
  | .interpolated parts span          => b.fold (.interpolated parts span) do
    return .str (← Segment.evalAllBy parts)
  | .paren e span                     => b.fold (.paren e span) e.evalBy

def Segment.evalBy : Segment → Except RuntimeError String
  | .text s          => .ok s
  | .hole e format _ =>
    match e.foldedHole? b.folds format with
    | some s => .ok s
    | none   => do (← e.evalBy).evalHole format

def Segment.evalAllBy : List Segment → Except RuntimeError String
  | []        => .ok ""
  | s :: rest => do
    let t ← s.evalBy
    let u ← Segment.evalAllBy rest
    return t ++ u

end

end

theorem evalBy_binary {r : Registry} {b : Build} {checked : Bool} {env : Env} {op : BinaryOp}
    (left right : Expr) (span : Span) (hop : op ≠ .coalesce) :
    (Expr.binary op left right span).evalBy r b checked env =
      b.fold (.binary op left right span) ((left.evalBy r b checked env).bind fun v =>
        (right.evalBy r b checked env).bind fun w =>
          v.evalBinary op checked span.line (left.kind r env) (right.kind r env) w) := by
  cases op <;> first | rfl | exact absurd rfl hop

/-! ## The floats read -/

/-- The float of a value that is one. -/
def Value.floats : Value → List Float
  | .float x => [x]
  | _        => []

section

variable (folds : Bool)

/-- The floats of an expression that is replaced, or else `rest`. -/
def Expr.loadsOr (e : Expr) (rest : List Float) : List Float :=
  match e.folded? folds with
  | some v => v.floats
  | none   => rest

mutual

/-- The floats that the code of an expression reads. -/
def Expr.loads : Expr → List Float
  | .literal v _               => v.value.floats
  | .name _                    => []
  | .member e _ _              => e.loads
  | .call e method args span   => Expr.loadsOr folds (.call e method args span) e.loads
  | .unary op e span           => Expr.loadsOr folds (.unary op e span) e.loads
  | .binary op left right span =>
    Expr.loadsOr folds (.binary op left right span) (left.loads ++ right.loads)
  | .ternary e t f span        =>
    Expr.loadsOr folds (.ternary e t f span) (e.loads ++ (t.loads ++ f.loads))
  | .interpolated parts span   =>
    Expr.loadsOr folds (.interpolated parts span) (Segment.loadsAll parts)
  | .paren e span              => Expr.loadsOr folds (.paren e span) e.loads

def Segment.loads : Segment → List Float
  | .text _          => []
  | .hole e format _ => if (e.foldedHole? folds format).isSome then [] else e.loads

def Segment.loadsAll : List Segment → List Float
  | []        => []
  | s :: rest => s.loads ++ Segment.loadsAll rest

end

/-- The floats that statements up to the first `return` read. -/
def Stmt.loads : List Stmt → List Float
  | []                             => []
  | .letBinding _ value _ :: rest => value.loads folds ++ Stmt.loads rest
  | .ret value _ :: _              => value.loads folds

end

end TypedTemplate
