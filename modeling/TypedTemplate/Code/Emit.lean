-- SUMMARY: Emitting code: actions that give code, add constants and may fail on a limit.
import TypedTemplate.Code.Instr
import TypedTemplate.Code.Pool
import TypedTemplate.Fault.Semantic

/-!
# Emission

An emission is what an action makes of a pool: a result or the error that stopped
it, the code up to there and the pool with the constants added. Code and
constants outlive an error, since an error in one statement does not undo what
came before it.

Indices and distances are words. What does not fit one is a limit error at the
construct that needs it.
-/

namespace TypedTemplate

structure Emission (α : Type) where
  result : Except CompilationError α
  code : Code
  pool : Pool

/-- An action that emits code. -/
def Emit (α : Type) : Type := Pool → Emission α

namespace Emit

variable {α β : Type}

instance : Monad Emit where
  pure a := fun pool => ⟨.ok a, [], pool⟩
  bind m next := fun pool =>
    match m pool with
    | ⟨.error e, code, pool⟩ => ⟨.error e, code, pool⟩
    | ⟨.ok a, code, pool⟩    =>
      let rest := next a pool
      ⟨rest.result, code ++ rest.code, rest.pool⟩

/-- Stop with a fault at `span`. -/
def fail (fault : SemanticFault) (span : Span) : Emit α := fun pool => ⟨.error ⟨fault, span⟩, [], pool⟩

/-- Emit one instruction for the construct at `span`. -/
def instr (span : Span) (i : Instr) : Emit PUnit := fun pool => ⟨.ok ⟨⟩, [⟨span.line, i⟩], pool⟩

/-- Run an action without its code. An error keeps the code up to it. -/
def silently (m : Emit α) : Emit α := fun pool =>
  match m pool with
  | ⟨.ok a, _, pool⟩       => ⟨.ok a, [], pool⟩
  | ⟨.error e, code, pool⟩ => ⟨.error e, code, pool⟩

/-! ## Limits -/

/-- A count or index of `what` as an operand. -/
def word (span : Span) (n : Nat) (message : String) : Emit UInt16 :=
  if n < UInt16.size then return UInt16.ofNat n else fail (.limitExceeded message) span

/-- Emit an instruction with a count of `what`. -/
def counted (span : Span) (n : Nat) (what : String) (i : UInt16 → Instr) : Emit PUnit := do
  instr span (i (← word span n ("too many " ++ what)))

/-- Emit a jump over the code of `body` and `more` bytes that come after it. Until its distance is
known the jump holds a placeholder, which is what an error in the body leaves there. -/
def jumpOver (span : Span) (jump : UInt16 → Instr) (more : Nat) (body : Emit α) : Emit α :=
  fun pool =>
    let ⟨result, code, pool⟩ := body pool
    let jumpOf (distance : UInt16) : PlacedInstr := ⟨span.line, jump distance⟩
    match result with
    | .error e => ⟨.error e, jumpOf Chunk.unpatched :: code, pool⟩
    | .ok a    =>
      let distance := code.size + more
      match word span distance ("jump of " ++ Number.decimal distance ++ " bytes is too long") pool with
      | ⟨.ok d, _, pool⟩    => ⟨.ok a, jumpOf d :: code, pool⟩
      | ⟨.error e, _, pool⟩ => ⟨.error e, jumpOf Chunk.unpatched :: code, pool⟩

/-! ## Constants -/

/-- Add a constant to the pool. The pool keeps it also when its index is beyond the limit. -/
def constantIndex (span : Span) (c : Constant) : Emit UInt16 := fun pool =>
  let (i, pool) := pool.add c
  word span i "too many constants in one unit" pool

def constant (span : Span) (c : Constant) : Emit PUnit := do
  instr span (.constant (← constantIndex span c))

/-- Emit an integer. Zero and one have instructions of their own. -/
def int (span : Span) (i : Int64) : Emit PUnit :=
  if i = 0 then instr span .pushZero
  else if i = 1 then instr span .pushOne
  else constant span (.int i)

def str (span : Span) (s : String) : Emit PUnit := constant span (.str s)

/-- Emit a value. No code can make a model instance. -/
def value (span : Span) : Value → Emit PUnit
  | .null     => instr span .pushNull
  | .bool b   => instr span (.pushBool b)
  | .int i    => int span i
  | .uint u   => constant span (.uint u)
  | .float x  => constant span (.float x)
  | .str s    => str span s
  | .object _ => fail (.invalidOperation "a model instance cannot be a constant") span

/-- Emit a read of the field at `index`, called `name`. -/
def getField (span : Span) (index : Nat) (name : String) : Emit PUnit := do
  let i ← word span index "field index out of range"
  let n ← constantIndex span (.str name)
  instr span (.getField i n)

end Emit

end TypedTemplate
