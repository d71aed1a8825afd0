-- SUMMARY: The namespaces and model types that units are compiled against.
import TypedTemplate.Model.Shape
import TypedTemplate.Name.Qualified

/-!
# Registries

Registering a model type makes known its name, the namespaces around it and, in
turn, the model types of its fields. Names are unique: another type that spells
the same is refused.

A type is entered before its fields are followed, so types that refer to
themselves are followed once. Each deeper step enters a new name, so the number
of shapes in the catalog bounds the depth.
-/

namespace TypedTemplate

inductive RegistryError where
  /-- The host's name of the type has no spelling. -/
  | invalidTypeName (hostName : String)
  /-- Another type has the same spelling. -/
  | duplicateType (name : String)
deriving DecidableEq, Repr

def RegistryError.message : RegistryError → String
  | .invalidTypeName name => s!"type name '{name}' cannot be spelled in a unit"
  | .duplicateType name   => s!"two different types normalize to '{name}'"

/-- The place of a model type in a registry. -/
abbrev ShapeId := Nat

/-- A model type as units see it. -/
structure RegisteredShape where
  /-- The name as a unit spells it. -/
  name : String
  shape : Shape
  hash : TypeHash
deriving DecidableEq, Repr

structure Registry where
  /-- The shapes that fields refer to. -/
  catalog : Catalog
  namespaces : List String
  shapes : Array RegisteredShape

/-- The catalog places of the model types of a shape's fields. -/
def Shape.nested (s : Shape) : List Nat :=
  s.fields.filterMap fun f =>
    match f.kind.base with
    | .object i => some i
    | _         => none

namespace Registry

/-- The namespace that every unit may use. -/
def standardNamespace : String := "std"

/-- The registry without types over the shapes of `catalog`. -/
def empty (catalog : Catalog) : Registry := ⟨catalog, [standardNamespace], #[]⟩

def size (r : Registry) : Nat := r.shapes.size

def isEmpty (r : Registry) : Bool := r.shapes.isEmpty

def hasNamespace (r : Registry) (ns : String) : Bool := r.namespaces.contains ns

/-- Make a namespace known, whether or not it has types. -/
def addNamespace (r : Registry) (ns : String) : Registry :=
  if r.hasNamespace ns then r else { r with namespaces := r.namespaces ++ [ns] }

/-- The type with exactly this name. -/
def lookup (r : Registry) (name : String) : Option ShapeId := r.shapes.findIdx? (·.name == name)

/-- The type that a unit calls `name`: the one with exactly this name or else the first found under
one of the namespaces used. -/
def resolve (r : Registry) (name : String) (uses : List String) : Option ShapeId :=
  match r.lookup name with
  | some id => some id
  | none    => uses.findSome? fun ns => r.lookup (ns ++ "::" ++ name)

/-- The type of a shape, if it is registered. -/
def idOf (r : Registry) (s : Shape) : Option ShapeId := s.typeName.bind r.lookup

/-- The type of the shape at `i` in the catalog, if it is registered. -/
def idAt (r : Registry) (i : Nat) : Option ShapeId := r.catalog[i]?.bind r.idOf

def shape? (r : Registry) (id : ShapeId) : Option RegisteredShape := r.shapes[id]?

/-- The name of a registered type. -/
def nameOf (r : Registry) (id : ShapeId) : String := ((r.shape? id).map (·.name)).getD ""

/-- Enter a type with its name and the namespaces around it. -/
def enter (r : Registry) (name : String) (s : Shape) : Registry :=
  let r := (QualifiedName.parse name).enclosing.foldl addNamespace r
  { r with shapes := r.shapes.push ⟨name, s, s.typeHash⟩ }

mutual

/-- Register a shape and the model types of its fields, following at most `depth` fields in a row. -/
def registerTo (depth : Nat) (r : Registry) (s : Shape) : Except RegistryError ShapeId × Registry :=
  match s.typeName with
  | none      => (.error (.invalidTypeName s.hostName), r)
  | some name =>
    match r.lookup name with
    | some id =>
      if ((r.shape? id).map (·.hash)) == some s.typeHash then (.ok id, r)
      else (.error (.duplicateType name), r)
    | none =>
      match depth with
      | 0         => (.ok r.size, r.enter name s)
      | depth + 1 =>
        match registerAllTo depth (r.enter name s) s.nested with
        | (.ok _, r')    => (.ok r.size, r')
        | (.error e, r') => (.error e, r')
termination_by (depth, 0)

/-- Register the shapes at the given places up to the first that is refused. -/
def registerAllTo (depth : Nat) (r : Registry) : List Nat → Except RegistryError Unit × Registry
  | []      => (.ok (), r)
  | i :: is =>
    match r.catalog[i]? with
    | none   => registerAllTo depth r is
    | some s =>
      match registerTo depth r s with
      | (.ok _, r)    => registerAllTo depth r is
      | (.error e, r) => (.error e, r)
termination_by is => (depth, is.length + 1)

end

/-- Register a shape and the model types of its fields. What was entered before one was refused
stays. -/
def register (r : Registry) (s : Shape) : Except RegistryError ShapeId × Registry :=
  registerTo (r.catalog.size + 1) r s

end Registry

end TypedTemplate
