-- SUMMARY: The options of a compilation.

/-!
# Options
-/

namespace TypedTemplate

inductive OptLevel where
  /-- Emit every expression as written. -/
  | debug
  /-- Replace constant expressions by their values. -/
  | release
deriving DecidableEq, Repr

structure Options where
  /-- Integer overflow is an error instead of wrapping. -/
  overflowChecks : Bool
  level : OptLevel
deriving DecidableEq, Repr

namespace Options

/-- What templates are compiled with. -/
def standard : Options := ⟨true, .release⟩

/-- Whether constant expressions are replaced. -/
def folds (o : Options) : Bool := o.level == .release

/-- The edition of the language. -/
def edition : Nat := 1

end Options

end TypedTemplate
