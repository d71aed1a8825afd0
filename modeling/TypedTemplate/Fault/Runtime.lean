-- SUMMARY: Faults of a running function.
import TypedTemplate.Number.Digits

/-!
# Run time faults
-/

namespace TypedTemplate

inductive RuntimeError where
  | integerOverflow (op : String) (line : Nat)
  | argumentCount (expected actual : Nat)
  /-- An argument is not of the declared type. -/
  | argumentMismatch (index : Nat) (expected actual : String)
  /-- A model instance has no value for a field of its shape. -/
  | missingField (typeName field : String)
  | typeMismatch (expected actual : String)
  | nullValue (target : String)
  | stackUnderflow
  | malformedBytecode (offset : Nat) (detail : String)
deriving DecidableEq, Repr

def RuntimeError.message : RuntimeError → String
  | .integerOverflow op line => s!"integer overflow in '{op}' at line " ++ Number.decimal line
  | .argumentCount expected actual =>
    "expected " ++ Number.decimal expected ++ " argument(s), got " ++ Number.decimal actual
  | .argumentMismatch index expected actual =>
    "argument " ++ Number.decimal index ++ s!" expected '{expected}', got '{actual}'"
  | .missingField typeName field => s!"model '{typeName}' returned no value for field '{field}'"
  | .typeMismatch expected actual => s!"type mismatch: expected {expected}, got {actual}"
  | .nullValue target => s!"null value cannot be used as {target}"
  | .stackUnderflow => "stack underflow"
  | .malformedBytecode offset detail =>
    "malformed bytecode at offset " ++ Number.decimal offset ++ ": " ++ detail

end TypedTemplate
