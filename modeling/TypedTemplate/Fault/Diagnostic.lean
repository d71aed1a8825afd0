-- SUMMARY: What a compilation reports: errors and warnings with their places.
import TypedTemplate.Fault.Grammar
import TypedTemplate.Fault.Semantic

/-!
# Diagnostics

A failed compilation reports all the faults it found, of every stage, as one
list. A successful one may still carry warnings.
-/

namespace TypedTemplate

inductive Severity where
  | error
  | warning
deriving DecidableEq, Repr

def Severity.title : Severity → String
  | .error   => "error"
  | .warning => "warning"

structure Diagnostic where
  severity : Severity
  message : String
  span : Span
deriving DecidableEq, Repr

namespace Diagnostic

def isError (d : Diagnostic) : Bool := d.severity == .error

/-- The diagnostic as a line `unit:LINE:COL: error: MESSAGE`. -/
def text (d : Diagnostic) : String :=
  "unit:" ++ d.span.start ++ ": " ++ d.severity.title ++ ": " ++ d.message

def ofParseError (e : ParseError) : Diagnostic :=
  ⟨.error, e.kind.title ++ ": " ++ e.message, e.span⟩

def ofLexError (e : LexError) : Diagnostic := ofParseError (.ofLexError e)

/-- The place is in the diagnostic itself, so its message leaves it out. -/
def ofCompilationError (e : CompilationError) : Diagnostic := ⟨.error, e.fault.message, e.span⟩

end Diagnostic

/-- The diagnostics of one compilation, in the order found. -/
abbrev Diagnostics := List Diagnostic

namespace Diagnostics

def errors (ds : Diagnostics) : Diagnostics := ds.filter (·.isError)

def hasErrors (ds : Diagnostics) : Bool := ds.any (·.isError)

def errorCount (ds : Diagnostics) : Nat := ds.errors.length

/-- One diagnostic a line. -/
def text (ds : Diagnostics) : String := "\n".intercalate (ds.map (·.text))

end Diagnostics

end TypedTemplate
