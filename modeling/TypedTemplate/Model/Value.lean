-- SUMMARY: The values of the unit language: null, scalars, strings and model instances.
import TypedTemplate.Name.TypeHash
import TypedTemplate.Number.Text
import TypedTemplate.Text.Quoted

/-!
# Values

Integers have two constructors: `int` for what fits a signed word and `uint`
for the unsigned words above. Both count as one type, and `wide?` is the number
they stand for. A model instance is known by its identity, so two instances
with equal fields are different values.
-/

namespace TypedTemplate

/-- An instance of a model type whose fields hold values of type `α`. A field that the instance
cannot supply is `none`. -/
structure InstanceOf (α : Type) where
  identity : Nat
  typeName : String
  fields : List (Option α)

/-- A value at run time. -/
inductive Value where
  | null
  | bool (b : Bool)
  | int (i : Int64)
  | uint (u : UInt64)
  | float (x : Float)
  | str (s : String)
  | object (model : InstanceOf Value)

/-- A model instance. -/
abbrev Instance := InstanceOf Value

namespace InstanceOf

variable {α : Type}

/-- The value of the field at `index`. -/
def field (m : InstanceOf α) (index : Nat) : Option α := m.fields[index]?.join

/-- The identity of the instance's type. -/
def typeHash (m : InstanceOf α) : TypeHash := TypeHash.ofName m.typeName

end InstanceOf

/-- The least and the greatest signed word. -/
def minInt : Int := -0x8000000000000000
def maxInt : Int := 0x7FFFFFFFFFFFFFFF

/-- The greatest unsigned word. -/
def maxUInt : Int := 0xFFFFFFFFFFFFFFFF

namespace Value

/-- An unsigned word, signed when it fits. -/
def ofUnsigned (u : UInt64) : Value :=
  if (u.toNat : Int) ≤ maxInt then .int (Int64.ofInt u.toNat) else .uint u

/-- The integer `n` as a signed word if it fits, else as an unsigned one. -/
def ofWide? (n : Int) : Option Value :=
  if minInt ≤ n ∧ n ≤ maxInt then some (.int (Int64.ofInt n))
  else if 0 ≤ n ∧ n ≤ maxUInt then some (.uint (UInt64.ofNat n.toNat))
  else none

/-- The number that an integer value stands for. -/
def wide? : Value → Option Int
  | .int i  => some i.toInt
  | .uint u => some (u.toNat : Int)
  | _       => none

def isNull : Value → Bool
  | .null => true
  | _     => false

def str? : Value → Option String
  | .str s => some s
  | _      => none

/-- The value's type as the unit language spells it. -/
def typeName : Value → String
  | .null     => "null"
  | .bool _   => "bool"
  | .int _    => "int"
  | .uint _   => "int"
  | .float _  => "float"
  | .str _    => "string"
  | .object m => m.typeName

/-- The value without any model instance: an instance becomes the name of its type. -/
def detach : Value → Value
  | .object m => .str m.typeName
  | v         => v

/-- Equality of the unit language: integers by the number they stand for, floats as numbers,
instances by identity. Values of different types are never equal. -/
def same : Value → Value → Bool
  | .null,     .null     => true
  | .bool a,   .bool b   => a == b
  | .float x,  .float y  => x == y
  | .str s,    .str t    => s == t
  | .object m, .object n => m.identity == n.identity
  | a,         b         =>
    match a.wide?, b.wide? with
    | some x, some y => x == y
    | _, _           => false

def boolText (b : Bool) : String := if b then "true" else "false"

/-- The text of the value in rendered output. Null is nothing. -/
def render : Value → String
  | .null     => ""
  | .bool b   => boolText b
  | .int i    => Number.integer i.toInt
  | .uint u   => Number.decimal u.toNat
  | .float x  => Number.shortestText x
  | .str s    => s
  | .object m => m.typeName

/-- The form shown to developers, with the constructor. -/
def debugText : Value → String
  | .null     => "Null"
  | .bool b   => "Bool(" ++ boolText b ++ ")"
  | .int i    => "Int(" ++ Number.integer i.toInt ++ ")"
  | .uint u   => "UInt(" ++ Number.decimal u.toNat ++ ")"
  | .float x  => "Float(" ++ Number.shortestText x ++ ")"
  | .str s    => "Str(" ++ Text.quoted s ++ ")"
  | .object m => "Object(" ++ m.typeName ++ ")"

end Value

end TypedTemplate
