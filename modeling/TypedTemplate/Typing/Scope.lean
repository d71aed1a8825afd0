-- SUMMARY: The local names of a function and their slots.
import TypedTemplate.Fault.Semantic
import TypedTemplate.Typing.Ty

/-!
# Scopes

Parameters take the first slots and bindings the next ones, in order. A name is
declared once. The name of a binding whose value has errors is poisoned: it
has no slot, it cannot be declared, and uses of it are not reported again.
-/

namespace TypedTemplate

structure Local where
  name : String
  type : Ty
  span : Span
deriving DecidableEq, Repr

structure Scope where
  /-- The names declared. The slot of each is its place here. -/
  locals : Array Local
  poisoned : List String
deriving DecidableEq, Repr

namespace Scope

/-- The greatest number of locals. -/
def maxLocals : Nat := 256

def empty : Scope := ⟨#[], []⟩

/-- The number of slots in use. -/
def frameSize (s : Scope) : Nat := s.locals.size

def slot? (s : Scope) (name : String) : Option Nat := s.locals.findIdx? (·.name == name)

/-- The slot and the declaration of a name. -/
def get? (s : Scope) (name : String) : Option (Nat × Local) :=
  (s.slot? name).bind fun slot => s.locals[slot]?.map fun l => (slot, l)

def isPoisoned (s : Scope) (name : String) : Bool := s.poisoned.contains name

def isKnown (s : Scope) (name : String) : Bool := (s.slot? name).isSome || s.isPoisoned name

/-- Declare a name. Gives its slot. -/
def declare (s : Scope) (name : String) (type : Ty) (span : Span) :
    Except CompilationError (Nat × Scope) :=
  if s.isKnown name then .error ⟨.duplicate name, span⟩
  else if s.frameSize < maxLocals then
    .ok (s.frameSize, { s with locals := s.locals.push ⟨name, type, span⟩ })
  else
    .error ⟨.limitExceeded ("more than " ++ Number.decimal maxLocals ++ " locals in one function"),
      span⟩

/-- Poison a name unless it is declared. -/
def poison (s : Scope) (name : String) : Scope :=
  if s.isKnown name then s else { s with poisoned := name :: s.poisoned }

end Scope

end TypedTemplate
