-- SUMMARY: Shapes of model types: a name and a list of typed fields.
import TypedTemplate.Name.Spelling
import TypedTemplate.Name.TypeHash

/-!
# Model shapes

A shape is what the compiler knows about a model type. Shapes refer to each
other, also in circles, so they live in a catalog and a field of model type
holds the place of its shape there.
-/

namespace TypedTemplate

/-- The static type of a model field. -/
inductive FieldKind where
  | bool
  | int
  | float
  | str
  /-- A field that may be null. -/
  | optional (kind : FieldKind)
  /-- An instance of the model type at `shape` in the catalog. -/
  | object (shape : Nat)
deriving DecidableEq, Repr, Inhabited

structure Field where
  name : String
  kind : FieldKind
deriving DecidableEq, Repr

structure Shape where
  /-- The type's name as the host reports it. -/
  hostName : String
  fields : List Field
deriving DecidableEq, Repr

/-- All shapes that may refer to each other. -/
abbrev Catalog := Array Shape

namespace Shape

/-- The type's name as a unit spells it, if it can. -/
def typeName (s : Shape) : Option String := Spelling.normalize s.hostName

def typeHash (s : Shape) : TypeHash := TypeHash.ofName s.hostName

/-- The index of the first field called `name`. -/
def fieldIndex (s : Shape) (name : String) : Option Nat :=
  s.fields.findIdx? (·.name == name)

/-- The first field called `name`, with its index. -/
def field (s : Shape) (name : String) : Option (Nat × Field) :=
  (s.fieldIndex name).bind fun i => s.fields[i]?.map fun f => (i, f)

end Shape

namespace Catalog

/-- The host name of the shape at `i`. -/
def hostName (shapes : Catalog) (i : Nat) : String :=
  match shapes[i]? with
  | some s => s.hostName
  | none   => ""

end Catalog

namespace FieldKind

/-- The kind without the layers that allow null. -/
def base : FieldKind → FieldKind
  | .optional k => k.base
  | k           => k

def isOptional : FieldKind → Bool
  | .optional _ => true
  | _           => false

/-- The kind as text: a question mark follows each optional kind. -/
def describe (shapes : Catalog) : FieldKind → String
  | .bool       => "bool"
  | .int        => "int"
  | .float      => "float"
  | .str        => "string"
  | .optional k => k.describe shapes ++ "?"
  | .object i   => shapes.hostName i

/-- Equality of kinds, where model types are equal when their host names are. -/
def same (shapes : Catalog) : FieldKind → FieldKind → Bool
  | .bool,       .bool       => true
  | .int,        .int        => true
  | .float,      .float      => true
  | .str,        .str        => true
  | .optional a, .optional b => same shapes a b
  | .object i,   .object j   => shapes.hostName i == shapes.hostName j
  | _,           _           => false

end FieldKind

end TypedTemplate
