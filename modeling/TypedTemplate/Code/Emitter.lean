-- SUMMARY: Code written by hand, step by step, into one chunk and a shared pool.
import TypedTemplate.Code.Emit

/-!
# Emitters

An emitter writes one function. It keeps the span of the construct being written:
each byte gets its line, and limit errors point at it. Besides whole emissions it
takes single opcodes and operands. A failing step writes nothing.
-/

namespace TypedTemplate

structure Emitter where
  chunk : Chunk
  pool : Pool
  span : Span

namespace Emitter

/-- An emitter of a new function over the constants of `pool`. -/
def start (pool : Pool) : Emitter := ⟨.empty, pool, .point 1 1⟩

def setSpan (e : Emitter) (span : Span) : Emitter := { e with span }

/-- The offset of the next byte. -/
def offset (e : Emitter) : Nat := e.chunk.size

/-- Write what an action emits for the current construct. -/
def emit {α : Type} (e : Emitter) (m : Span → Emit α) : Except CompilationError α × Emitter :=
  let ⟨chunk, pool, span⟩ := e
  let ⟨result, code, pool⟩ := m span pool
  (result, ⟨chunk.append code, pool, span⟩)

/-- Write an opcode without operands. -/
def op (e : Emitter) (op : Opcode) : Emitter :=
  { e with chunk := e.chunk.writeOp e.span.line op }

/-- Write an opcode and a byte. -/
def opByte (e : Emitter) (op : Opcode) (b : UInt8) : Emitter :=
  { e with chunk := (e.chunk.writeOp e.span.line op).writeByte e.span.line b }

/-- Write an opcode and a word. -/
def opWord (e : Emitter) (op : Opcode) (w : UInt16) : Emitter :=
  { e with chunk := (e.chunk.writeOp e.span.line op).writeWord e.span.line w }

/-- Write an opcode with a count of `what`. -/
def opCount (e : Emitter) (op : Opcode) (n : Nat) (what : String) :
    Except CompilationError PUnit × Emitter :=
  match e.emit fun span => Emit.word span n ("too many " ++ what) with
  | (.ok w, e)        => (.ok ⟨⟩, e.opWord op w)
  | (.error fault, e) => (.error fault, e)

/-- Write a jump to be patched. Gives the offset of its operand. -/
def jump (e : Emitter) (op : Opcode) : Nat × Emitter :=
  let (label, chunk) := e.chunk.writeJump e.span.line op
  (label, { e with chunk })

/-- Let a jump lead to the current offset. -/
def patch (e : Emitter) (label : Nat) : Except CompilationError PUnit × Emitter :=
  match e.chunk.patch label with
  | .ok chunk       => (.ok ⟨⟩, { e with chunk })
  | .error distance =>
    (.error ⟨.limitExceeded ("jump of " ++ Number.decimal distance ++ " bytes is too long"), e.span⟩, e)

/-- Drop all code from `offset` on. The pool keeps its constants. -/
def truncate (e : Emitter) (offset : Nat) : Emitter := { e with chunk := e.chunk.truncate offset }

end Emitter

end TypedTemplate
