-- SUMMARY: Faults found while resolving names and checking types.
import TypedTemplate.Source.Span

/-!
# Semantic faults
-/

namespace TypedTemplate

inductive SemanticFault where
  /-- A `use` names a namespace that is not known. -/
  | unknownNamespace (name : String)
  | unknownType (name : String)
  | unknownVariable (name : String)
  | unknownField (typeName field : String)
  | unknownMethod (typeName method : String)
  | typeMismatch (message : String)
  | invalidOperation (message : String)
  | invalidFormat (spec typeName : String)
  | duplicate (name : String)
  /-- The unit is written for another edition of the language. -/
  | editionMismatch (expected found : Nat)
  /-- A function has no `return`. -/
  | missingReturn (name : String)
  /-- The code does not fit the limits of its encoding. -/
  | limitExceeded (message : String)
deriving DecidableEq, Repr

structure CompilationError where
  fault : SemanticFault
  span : Span
deriving DecidableEq, Repr

/-- The fault without its place. -/
def SemanticFault.message : SemanticFault → String
  | .unknownNamespace name         => s!"unknown namespace '{name}'"
  | .unknownType name              => s!"unknown type '{name}'"
  | .unknownVariable name          => s!"unknown variable '{name}'"
  | .unknownField typeName field   => s!"type '{typeName}' has no field '{field}'"
  | .unknownMethod typeName method => s!"type '{typeName}' has no method '{method}'"
  | .typeMismatch message          => message
  | .invalidOperation message      => message
  | .invalidFormat spec typeName   => s!"format specifier '{spec}' cannot be applied to {typeName}"
  | .duplicate name                => s!"duplicate definition of '{name}'"
  | .editionMismatch expected found =>
    "unit targets edition " ++ Number.decimal found ++ ", compiler is pinned to " ++
      Number.decimal expected
  | .missingReturn name            => s!"function '{name}' does not return a value"
  | .limitExceeded message         => message

/-- The place and the fault. -/
def CompilationError.message (e : CompilationError) : String :=
  "at " ++ e.span.start ++ ": " ++ e.fault.message

end TypedTemplate
