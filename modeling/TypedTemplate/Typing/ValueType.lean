-- SUMMARY: The declared types of parameters and results, checked when a function is called.
import TypedTemplate.Model.Value

/-!
# Value types
-/

namespace TypedTemplate

inductive ValueType where
  | str
  | int
  | float
  | bool
  /-- A model type, known by the identity of its name. -/
  | model (name : String) (hash : TypeHash)
deriving DecidableEq, Repr

namespace ValueType

/-- Whether a value is of this type. Null is of none. -/
def accepts : ValueType → Value → Bool
  | .str,          .str _    => true
  | .int,          .int _    => true
  | .int,          .uint _   => true
  | .float,        .float _  => true
  | .bool,         .bool _   => true
  | .model _ hash, .object m => m.typeHash == hash
  | _,             _         => false

def text : ValueType → String
  | .str          => "string"
  | .int          => "int"
  | .float        => "float"
  | .bool         => "bool"
  | .model name _ => name

end ValueType

end TypedTemplate
