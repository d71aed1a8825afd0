-- SUMMARY: The bytes of a function, each with the line it comes from.
import TypedTemplate.Code.Opcode

/-!
# Chunks

A chunk grows at its end. A jump forward is written before its length is known
and patched when the code has grown up to its target.
-/

namespace TypedTemplate

structure Cell where
  byte : UInt8
  line : Nat
deriving DecidableEq, Repr

structure Chunk where
  cells : Array Cell
deriving DecidableEq, Repr

/-- The two bytes of a word, the high one first. -/
def wordBytes (w : UInt16) : List UInt8 := [(w >>> 8).toUInt8, w.toUInt8]

/-- The word with the given bytes. -/
def wordOf (high low : UInt8) : UInt16 := (high.toUInt16 <<< 8) ||| low.toUInt16

namespace Chunk

def empty : Chunk := ⟨#[]⟩

/-- The number of bytes, which is the offset of the next one. -/
def size (c : Chunk) : Nat := c.cells.size

def isEmpty (c : Chunk) : Bool := c.cells.isEmpty

def bytes (c : Chunk) : List UInt8 := c.cells.toList.map (·.byte)

/-! ## Writing -/

def writeByte (c : Chunk) (line : Nat) (b : UInt8) : Chunk := ⟨c.cells.push ⟨b, line⟩⟩

def write (c : Chunk) (line : Nat) (bs : List UInt8) : Chunk := bs.foldl (·.writeByte line ·) c

def writeOp (c : Chunk) (line : Nat) (op : Opcode) : Chunk := c.writeByte line op.byte

def writeWord (c : Chunk) (line : Nat) (w : UInt16) : Chunk := c.write line (wordBytes w)

/-- The operand of a jump that is not patched. -/
def unpatched : UInt16 := 0xFFFF

/-- Write a jump to be patched. Gives the offset of its operand. -/
def writeJump (c : Chunk) (line : Nat) (op : Opcode) : Nat × Chunk :=
  let c := c.writeOp line op
  (c.size, c.writeWord line unpatched)

/-- Replace the byte at `offset` and keep its line. -/
def setByte (c : Chunk) (offset : Nat) (b : UInt8) : Chunk :=
  ⟨c.cells.modify offset fun cell => { cell with byte := b }⟩

/-- Let the jump whose operand is at `offset` lead to the end of the code, or give the distance if
that is too far. -/
def patch (c : Chunk) (offset : Nat) : Except Nat Chunk :=
  let distance := c.size - offset - 2
  if distance < UInt16.size then
    let w := UInt16.ofNat distance
    .ok ((c.setByte offset (w >>> 8).toUInt8).setByte (offset + 1) w.toUInt8)
  else .error distance

/-- Drop all code from `offset` on. -/
def truncate (c : Chunk) (offset : Nat) : Chunk := ⟨c.cells.take offset⟩

/-! ## Reading -/

def byteAt? (c : Chunk) (offset : Nat) : Option UInt8 := c.cells[offset]?.map (·.byte)

/-- The lines of the bytes, each run of equal lines as the line and the length of the run. -/
def lineRuns (c : Chunk) : List (Nat × Nat) :=
  (c.cells.foldl (fun runs cell =>
    match runs with
    | (line, n) :: rest => if line == cell.line then (line, n + 1) :: rest else (cell.line, 1) :: runs
    | []                => [(cell.line, 1)]) []).reverse

def lineAt? (c : Chunk) (offset : Nat) : Option Nat := c.cells[offset]?.map (·.line)

def wordAt? (c : Chunk) (offset : Nat) : Option UInt16 :=
  match c.byteAt? offset, c.byteAt? (offset + 1) with
  | some high, some low => some (wordOf high low)
  | _, _                => none

def opcodeAt? (c : Chunk) (offset : Nat) : Option Opcode := (c.byteAt? offset).bind Opcode.ofByte?

/-- The opcodes from `offset` on behind those of `out`, which is in reverse. A byte that is no opcode
is skipped. -/
def opcodesOnto (c : Chunk) (out : List Opcode) (offset : Nat) : List Opcode :=
  if _h : offset < c.size then
    match c.opcodeAt? offset with
    | some op => c.opcodesOnto (op :: out) (offset + op.length)
    | none    => c.opcodesOnto out (offset + 1)
  else out.reverse
termination_by c.size - offset
decreasing_by
  · simp only [Opcode.length]
    omega
  · omega

/-- The opcodes, without operands. -/
def opcodes (c : Chunk) : List Opcode := c.opcodesOnto [] 0

end Chunk

end TypedTemplate
