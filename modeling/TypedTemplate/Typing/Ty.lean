-- SUMMARY: The static types of expressions.
import TypedTemplate.Typing.Registry
import TypedTemplate.Typing.ValueType

/-!
# Types

A type is a kind and whether the value may be null. Only the literal null has the
kind `null`.
-/

namespace TypedTemplate

inductive TyKind where
  | str
  | int
  | float
  | bool
  | null
  | model (id : ShapeId)
deriving DecidableEq, Repr

structure Ty where
  kind : TyKind
  nullable : Bool
deriving DecidableEq, Repr

namespace Ty

def str : Ty := ⟨.str, false⟩
def int : Ty := ⟨.int, false⟩
def float : Ty := ⟨.float, false⟩
def bool : Ty := ⟨.bool, false⟩
def null : Ty := ⟨.null, true⟩
def model (id : ShapeId) : Ty := ⟨.model id, false⟩

/-- The type that may also be null if `b`. -/
def orNull (t : Ty) (b : Bool) : Ty := { t with nullable := t.nullable || b }

def nonNull (t : Ty) : Ty := { t with nullable := false }

def isNumeric (t : Ty) : Bool := t.kind == .int || t.kind == .float

/-- The type with a name of its own in the unit language. -/
def builtin? : String → Option Ty
  | "string" => some str
  | "int"    => some int
  | "float"  => some float
  | "bool"   => some bool
  | _        => none

/-- The type of a model field, unless it is a model type that is not registered. -/
def ofField? (r : Registry) (k : FieldKind) : Option Ty :=
  let base : Option Ty :=
    match k.base with
    | .bool       => some bool
    | .int        => some int
    | .float      => some float
    | .str        => some str
    | .object i   => (r.idAt i).map model
    | .optional _ => none
  base.map (·.orNull k.isOptional)

/-- The type as messages name it. -/
def text (r : Registry) (t : Ty) : String :=
  let named (base : String) := if t.nullable then base ++ "?" else base
  match t.kind with
  | .null     => "null"
  | .str      => named "string"
  | .int      => named "int"
  | .float    => named "float"
  | .bool     => named "bool"
  | .model id => named (r.nameOf id)

/-- The type as a declaration. Null and what may be null cannot be declared. -/
def valueType? (r : Registry) (t : Ty) : Option ValueType :=
  if t.nullable then none else
  match t.kind with
  | .str      => some .str
  | .int      => some .int
  | .float    => some .float
  | .bool     => some .bool
  | .null     => none
  | .model id => (r.shape? id).map fun s => .model s.name s.hash

end Ty

end TypedTemplate
