-- SUMMARY: Calling the function that renders a compiled template.
import TypedTemplate.Machine.Call
import TypedTemplate.Template.Synthesis

/-!
# Invocation
-/

namespace TypedTemplate

structure Invoker where
  /-- The name of the function to call. -/
  entryPoint : String
deriving DecidableEq, Repr

namespace Invoker

/-- Calls the function of generated units. -/
def standard : Invoker := ⟨GeneratedUnit.entryPoint⟩

/-- Render a model through the function of the type with a qualified name. -/
def invokeType (i : Invoker) (a : Artifact) (typeName : String) (model : Instance) :
    Except InvocationError String :=
  match a.type? typeName with
  | none   => .error (.typeNotFound typeName)
  | some t =>
    match t.function? i.entryPoint with
    | none   => .error (.entryPointNotFound typeName i.entryPoint)
    | some f =>
      match f.call a.pool [.object model] with
      | .ok (.str text) => .ok text
      | .ok v           => .error (.unexpectedResultType v.typeName)
      | .error e        => .error (.invocationFailed e)

/-- Render a model through the function of the type generated for a template. -/
def invoke (i : Invoker) (a : Artifact) (id : String) (model : Instance) :
    Except InvocationError String :=
  match ModuleName.typePathOfId id with
  | .ok path => i.invokeType a path model
  | .error _ => .error (.typeNotFound id)

end Invoker

end TypedTemplate
