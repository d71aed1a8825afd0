-- SUMMARY: The typing rules of operators, methods and format specifiers, with the code they call for.
import TypedTemplate.Code.Instr
import TypedTemplate.Compile.Options
import TypedTemplate.Fault.Semantic
import TypedTemplate.Tree.Operator
import TypedTemplate.Typing.Ty

/-!
# Typing rules

A rule says for operands of given types what instructions do the operation and
what the type of the result is, or what is wrong.
-/

namespace TypedTemplate

/-- The outcome of a rule. -/
abbrev Ruling := Except SemanticFault (List Instr × Ty)

namespace Rule

variable (r : Registry) (o : Options)

/-! ## Operators -/

def unary (op : UnaryOp) (t : Ty) : Ruling :=
  match op with
  | .not =>
    if t = .bool then .ok ([.not], .bool) else mismatch
  | .neg =>
    if t = .int then .ok ([.neg o.overflowChecks], .int)
    else if t = .float then .ok ([.floatNeg], .float)
    else mismatch
where
  mismatch : Ruling :=
    .error (.typeMismatch s!"operator '{op.symbol}' cannot be applied to {t.text r}")

/-- The conversion of an integer operand when the other one is a float. -/
def promotion (a b : Ty) : List Instr :=
  match a.kind, b.kind with
  | .int,   .float => [.promoteUnder]
  | .float, .int   => [.promote]
  | _,      _      => []

/-- Arithmetic takes numbers that are not null. -/
def arith (op : ArithOp) (a b : Ty) : Ruling :=
  if a.nullable || b.nullable || !a.isNumeric || !b.isNumeric then
    .error (.typeMismatch
      s!"operator '{op.symbol}' cannot be applied to {a.text r} and {b.text r}")
  else if a = .int ∧ b = .int then .ok ([.arith op o.overflowChecks], .int)
  else .ok (promotion a b ++ [.floatArith op], .float)

/-- A string plus anything joins the two texts. -/
def add (a b : Ty) : Ruling :=
  if a.kind = .str ∨ b.kind = .str then .ok ([.concat], .str) else arith r o .add a b

/-- Equality takes two numbers, two values of one kind, or null and anything. -/
def equality (positive : Bool) (a b : Ty) : Ruling :=
  if a.kind = b.kind ∨ (a.isNumeric ∧ b.isNumeric) ∨ a.kind = .null ∨ b.kind = .null then
    .ok (promotion a b ++ [.compare positive], .bool)
  else .error (.typeMismatch s!"cannot compare {a.text r} with {b.text r}")

/-- The type of `??`, whose code is made of jumps. -/
def coalesce (a b : Ty) : Except SemanticFault Ty :=
  if a.kind = .null then .ok b
  else if b.kind = .null then .ok (a.orNull true)
  else if a.kind = b.kind then .ok ⟨a.kind, b.nullable⟩
  else .error (.typeMismatch
    s!"operands of '??' have different types: {a.text r} and {b.text r}")

/-- A binary operator other than `??`. -/
def binary (op : BinaryOp) (a b : Ty) : Ruling :=
  match op with
  | .add      => add r o a b
  | .sub      => arith r o .sub a b
  | .mul      => arith r o .mul a b
  | .equal    => equality r true a b
  | .notEqual => equality r false a b
  | .coalesce => (coalesce r a b).map fun t => ([], t)

/-- A condition is a bool that is not null. -/
def condition (t : Ty) : Except SemanticFault PUnit :=
  if t = .bool then .ok ⟨⟩
  else .error (.typeMismatch s!"condition must be bool, found {t.text r}")

/-- The type over both branches of a conditional. -/
def join (a b : Ty) : Except SemanticFault Ty :=
  if a.kind = .null then .ok (b.orNull true)
  else if b.kind = .null then .ok (a.orNull true)
  else if a.kind = b.kind then .ok (a.orNull b.nullable)
  else .error (.typeMismatch s!"branches have different types: {a.text r} and {b.text r}")

/-! ## Methods and formats -/

/-- A method. String methods leave null as it is. -/
def method (name : String) (t : Ty) : Ruling :=
  match name, t.kind with
  | "to_string", _    => .ok ([.toText], .str)
  | "upper",     .str => .ok ([.text .upper], Ty.str.orNull t.nullable)
  | "lower",     .str => .ok ([.text .lower], Ty.str.orNull t.nullable)
  | "trim",      .str => .ok ([.text .trim], Ty.str.orNull t.nullable)
  | "len",       .str => .ok ([.count], Ty.int.orNull t.nullable)
  | _,           _    => .error (.unknownMethod (t.nonNull.text r) name)

/-- No method takes arguments. -/
def arguments (method : String) (count : Nat) : Except SemanticFault PUnit :=
  if count = 0 then .ok ⟨⟩
  else .error (.invalidOperation
    (s!"method '{method}' takes no arguments, found " ++ Number.decimal count))

/-- Whether a format specifier is for values of a kind. Null takes any. -/
def formats (format : FormatKind) (kind : TyKind) : Bool :=
  match format, kind with
  | _,          .null  => true
  | .fixed _,   .int   => true
  | .fixed _,   .float => true
  | .decimal _, .int   => true
  | .hex _ _,   .int   => true
  | .upper,     .str   => true
  | .lower,     .str   => true
  | _,          _      => false

def format (kind : FormatKind) (t : Ty) : Except SemanticFault PUnit :=
  if formats kind t.kind then .ok ⟨⟩ else .error (.invalidFormat kind.text (t.text r))

/-! ## Results -/

/-- A `return` of a value of type `found`. An integer becomes a float where one is declared. -/
def result (declared found : Ty) : Except SemanticFault (List Instr) :=
  if found.nullable then mismatch
  else if found.kind = declared.kind then .ok [.ret]
  else if found.kind = .int ∧ declared.kind = .float then .ok [.promote, .ret]
  else mismatch
where
  mismatch : Except SemanticFault (List Instr) :=
    .error (.typeMismatch s!"function returns {declared.text r}, found {found.text r}")

/-! ## Fields -/

/-- The index and the type of the field of a model type. A field of an instance that may be null
may be null. -/
def member (t : Ty) (field : String) : Except SemanticFault (Nat × Ty) :=
  let unknown := .error (.unknownField (t.nonNull.text r) field)
  match t.kind with
  | .model id =>
    match (r.shape? id).bind (·.shape.field field) with
    | some (index, f) =>
      match Ty.ofField? r f.kind with
      | some fieldType => .ok (index, fieldType.orNull t.nullable)
      | none           => .error (.unknownType (f.kind.base.describe r.catalog))
    | none => unknown
  | _ => unknown

end Rule

end TypedTemplate
