-- SUMMARY: A reference evaluator that walks the trees of expressions, bodies and functions.
import TypedTemplate.Machine.Step
import TypedTemplate.Compile.Signature
import TypedTemplate.Proofs.Semantics.Static

/-!
# Evaluation

The meaning of the language without code: operands from left to right, the first
error wins, and of `??` and `?:` only the branch taken is evaluated. Static types
matter in three places: they say where an integer becomes a float, which of the two
meanings of `+` is meant, and where in an instance a field is.
-/

namespace TypedTemplate

/-! ## Operations -/

/-- The error of an integer operation on `line`. An operand that is no integer is to blame, the first
one if there are two. -/
def IntFault.toError (symbol : String) (line : Nat) (operands : List Value) :
    IntFault → RuntimeError
  | .overflow   => .integerOverflow symbol line
  | .notInteger => ((operands.find? (·.wide?.isNone)).getD .null).mismatch "int"

/-- The place of a field in the instances of a model type. -/
def Registry.fieldIndex? (r : Registry) (kind : TyKind) (name : String) : Option Nat :=
  match kind with
  | .model id => (r.shape? id).bind (·.shape.fieldIndex name)
  | _         => none

theorem fieldIndex?_of_member {r : Registry} {t u : Ty} {name : String} {i : Nat}
    (h : Rule.member r t name = .ok (i, u)) : r.fieldIndex? t.kind name = some i := by
  obtain ⟨id, s, f, v, hkind, hs, hf, -, -⟩ := Rule.member_ok h
  simp only [Shape.field, Option.bind_eq_some_iff, Option.map_eq_some_iff, Prod.mk.injEq] at hf
  obtain ⟨_, hindex, _, -, rfl, -⟩ := hf
  simp [Registry.fieldIndex?, hkind, hs, hindex]

namespace Value

/-- An integer becomes a float where one is wanted. -/
def convert (found wanted : TyKind) (v : Value) : Value :=
  if found = .int ∧ wanted = .float then v.promote else v

/-- Arithmetic on integers, or on floats if one operand is a float. -/
def evalArith (op : ArithOp) (checked : Bool) (line : Nat) (a b : TyKind) (v w : Value) :
    Except RuntimeError Value :=
  if a = .int ∧ b = .int then
    (v.arith op w checked).mapError (IntFault.toError op.symbol line [v, w])
  else do
    let y ← (w.convert b a).asFloat
    let x ← (v.convert a b).asFloat
    return .float (op.float x y)

def evalUnary (op : UnaryOp) (checked : Bool) (line : Nat) (kind : TyKind) (v : Value) :
    Except RuntimeError Value :=
  match op with
  | .not => do return .bool !(← v.bool?)
  | .neg =>
    if kind = .float then do return .float (-(← v.asFloat))
    else (v.neg checked).mapError (IntFault.toError ArithOp.sub.symbol line [v])

/-- Operands with static kinds `a` and `b`. A string plus anything joins the two texts. -/
def evalBinary (op : BinaryOp) (checked : Bool) (line : Nat) (a b : TyKind) (v w : Value) :
    Except RuntimeError Value :=
  match op with
  | .add      =>
    if a = .str ∨ b = .str then .ok (.str (v.render ++ w.render))
    else evalArith .add checked line a b v w
  | .sub      => evalArith .sub checked line a b v w
  | .mul      => evalArith .mul checked line a b v w
  | .equal    => .ok (.bool ((v.convert a b).same (w.convert b a)))
  | .notEqual => .ok (.bool !((v.convert a b).same (w.convert b a)))
  | .coalesce => .ok (if v.isNull then w else v)

/-- A field of an instance. A field of null is null. -/
def evalField (r : Registry) (kind : TyKind) (name : String) (v : Value) :
    Except RuntimeError Value :=
  match v with
  | .null     => .ok .null
  | .object m =>
    match (r.fieldIndex? kind name).bind m.field with
    | some w => .ok w
    | none   => .error (.missingField m.typeName name)
  | v         => .error (v.mismatch "model")

/-- A method without arguments. Those of strings leave null as it is. -/
def evalMethod (name : String) (v : Value) : Except RuntimeError Value :=
  match name with
  | "to_string" => .ok (.str v.render)
  | "upper"     => v.onText fun s => .str (TextOp.upper.apply s)
  | "lower"     => v.onText fun s => .str (TextOp.lower.apply s)
  | "trim"      => v.onText fun s => .str (TextOp.trim.apply s)
  | "len"       => v.onText Text.count
  | _           => .error (v.mismatch "string")

/-- The text of a value in a hole. -/
def evalHole (format : Option FormatSpec) (v : Value) : Except RuntimeError String :=
  match format with
  | some spec => v.format spec.kind
  | none      => .ok v.render

end Value

/-! ## Expressions -/

/-- A name with its static type and its value. -/
structure Binding where
  name : String
  type : Ty
  value : Value

/-- The bindings in scope, the last first. -/
abbrev Env := List Binding

namespace Env

def get? (env : Env) (x : String) : Option Binding := env.find? (·.name == x)

def typing (env : Env) : Typing := fun x => (env.get? x).map (·.type)

/-- The value of a name, null if it has none. -/
def value (env : Env) (x : String) : Value := ((env.get? x).map (·.value)).getD .null

theorem get?_cons (b : Binding) (env : Env) (x : String) :
    Env.get? (b :: env) x = if b.name = x then some b else env.get? x := by
  by_cases h : b.name = x <;> simp [get?, h]

theorem typing_cons (b : Binding) (env : Env) :
    Env.typing (b :: env) = env.typing.bind b.name b.type := by
  funext x
  simp only [typing, get?_cons, Typing.bind]
  split <;> rfl

end Env

/-- The kind of an expression, which is that of null if it has no type. -/
def Expr.kind (r : Registry) (env : Env) (e : Expr) : TyKind :=
  ((e.type? r env.typing).map (·.kind)).getD .null

section

variable (r : Registry) (checked : Bool) (env : Env)

mutual

def Expr.eval : Expr → Except RuntimeError Value
  | .literal v _                   => .ok v.value
  | .name x                        => .ok (env.value x.name)
  | .member e field _              => do (← e.eval).evalField r (e.kind r env) field.name
  | .call e method _ _             => do (← e.eval).evalMethod method.name
  | .unary op e span               => do
    (← e.eval).evalUnary op checked span.line (e.kind r env)
  | .binary .coalesce left right _ => do
    let v ← left.eval
    if v.isNull then right.eval else return v
  | .binary op left right span     => do
    let v ← left.eval
    let w ← right.eval
    v.evalBinary op checked span.line (left.kind r env) (right.kind r env) w
  | .ternary e t f _               => do
    if ← (← e.eval).bool? then t.eval else f.eval
  | .interpolated parts _          => do return .str (← Segment.evalAll parts)
  | .paren e _                     => e.eval

def Segment.eval : Segment → Except RuntimeError String
  | .text s          => .ok s
  | .hole e format _ => do (← e.eval).evalHole format

/-- The texts of segments, joined. -/
def Segment.evalAll : List Segment → Except RuntimeError String
  | []        => .ok ""
  | s :: rest => do
    let t ← s.eval
    let u ← Segment.evalAll rest
    return t ++ u

end

end

/-! ## Functions -/

/-- How expressions are evaluated in an environment. -/
abbrev Evaluator := Env → Expr → Except RuntimeError Value

/-- The result of statements: the value of the first `return`, in the declared type. Statements
without a `return` give null. -/
def Stmt.evalAll (r : Registry) (eval : Evaluator) (declared : Ty) (env : Env) :
    List Stmt → Except RuntimeError Value
  | []                             => .ok .null
  | .letBinding x value _ :: rest => do
    let v ← eval env value
    let t := (value.type? r env.typing).getD .null
    Stmt.evalAll r eval declared (⟨x.name, t, v⟩ :: env) rest
  | .ret value _ :: _              => do
    let v ← eval env value
    return v.convert (value.kind r env) declared.kind

/-- The bindings of parameters to arguments. -/
def Env.ofParams (env : Env) : List (Param × DeclaredType) → List Value → Env
  | (p, d) :: params, v :: args => Env.ofParams (⟨p.name.name, d.type, v⟩ :: env) params args
  | _,                _         => env

namespace Signature

variable (s : Signature)

/-- The result of the function when `eval` evaluates its expressions. -/
def evalWith (r : Registry) (eval : Evaluator) (args : List Value) : Except RuntimeError Value :=
  Stmt.evalAll r eval s.result.type (Env.ofParams [] (s.decl.params.zip s.params) args)
    s.decl.body.stmts

/-- The result of the function. -/
def eval (r : Registry) (checked : Bool) (args : List Value) : Except RuntimeError Value :=
  s.evalWith r (Expr.eval r checked) args

end Signature

end TypedTemplate
