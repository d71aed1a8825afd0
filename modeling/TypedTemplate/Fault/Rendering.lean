-- SUMMARY: Faults between a template's text and its rendered output.
import TypedTemplate.Fault.Diagnostic
import TypedTemplate.Fault.Runtime

/-!
# Rendering faults

A render fails because no unit can be written for the template, because the unit
does not compile, or because the compiled function cannot be called or fails.
-/

namespace TypedTemplate

/-- Why no unit can be written for a template. -/
inductive SynthesisError where
  | emptyTemplateId
  /-- The model type has no spelling in a unit. -/
  | invalidModelShape (hostName : String)
deriving DecidableEq, Repr

def SynthesisError.message : SynthesisError → String
  | .emptyTemplateId        => "template id is empty"
  | .invalidModelShape name => s!"type '{name}' cannot be named in a template unit"

/-- Why a compiled template gives no text. -/
inductive InvocationError where
  | typeNotFound (typeName : String)
  | entryPointNotFound (typeName entryPoint : String)
  /-- The template's own code failed. -/
  | invocationFailed (cause : RuntimeError)
  | unexpectedResultType (found : String)
deriving DecidableEq, Repr

namespace InvocationError

def message : InvocationError → String
  | .typeNotFound type             => s!"compiled template has no type '{type}'"
  | .entryPointNotFound type entry => s!"type '{type}' has no entry point '{entry}'"
  | .invocationFailed cause        => "template raised an error: " ++ cause.message
  | .unexpectedResultType found    => s!"entry point returned {found}, expected string"

/-- The fault of the template's own code, if that is what failed. -/
def cause? : InvocationError → Option RuntimeError
  | .invocationFailed cause => some cause
  | _                       => none

/-- Whether the template's own code failed. -/
def isRenderFailure (e : InvocationError) : Bool := e.cause?.isSome

end InvocationError

/-- Why a render fails. -/
inductive RenderError where
  | templateSourceUnavailable (templateId : String)
  | invalidModelShape (hostName : String)
  | synthesis (error : SynthesisError)
  | compilationFailed (templateId : String) (diagnostics : Diagnostics)
  | invocation (error : InvocationError)
deriving DecidableEq, Repr

namespace RenderError

/-- A model type without a spelling is a fault of its own. -/
def ofSynthesisError : SynthesisError → RenderError
  | .invalidModelShape name => .invalidModelShape name
  | e                       => .synthesis e

def message : RenderError → String
  | .templateSourceUnavailable id =>
    s!"template '{id}' is not available from the template source"
  | .invalidModelShape name   => s!"type '{name}' cannot be used as a template model"
  | .synthesis error          => "synthesis failed: " ++ error.message
  | .compilationFailed id ds  => s!"template '{id}' failed to compile:\n" ++ Diagnostics.text ds
  | .invocation error         => error.message

/-- The diagnostics of a template that does not compile. -/
def diagnostics? : RenderError → Option Diagnostics
  | .compilationFailed _ ds => some ds
  | _                       => none

end RenderError

end TypedTemplate
