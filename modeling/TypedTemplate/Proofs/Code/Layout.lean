-- SUMMARY: Where the bytes of code lie, and that the machine reads back the instructions written.
import TypedTemplate.Machine.Call

/-!
# The layout of code

Code is written instruction by instruction, so an instruction starts at the size
of the code before it. Fetching there gives the instruction back, whatever code
comes before and after.
-/

namespace TypedTemplate

/-! ## Cells -/

namespace PlacedInstr

/-- The bytes of an instruction, each with its line. -/
def cells (p : PlacedInstr) : List Cell := p.instr.bytes.map fun b => ⟨b, p.line⟩

@[simp] theorem length_cells (p : PlacedInstr) : p.cells.length = p.instr.size := by
  simp [cells, Instr.size]

end PlacedInstr

namespace Code

def cells (code : Code) : List Cell := code.flatMap (·.cells)

@[simp] theorem size_nil : Code.size [] = 0 := rfl

@[simp] theorem size_cons (p : PlacedInstr) (code : Code) :
    Code.size (p :: code) = p.instr.size + Code.size code := rfl

@[simp] theorem size_append (a b : Code) : Code.size (a ++ b) = Code.size a + Code.size b := by
  induction a with
  | nil => simp
  | cons p a ih => simp [ih, Nat.add_assoc]

@[simp] theorem length_cells (code : Code) : (Code.cells code).length = Code.size code := by
  induction code with
  | nil => rfl
  | cons p code ih => simp_all [cells]

end Code

namespace Chunk

theorem toList_write (c : Chunk) (line : Nat) (bs : List UInt8) :
    (c.write line bs).cells.toList = c.cells.toList ++ bs.map fun b => ⟨b, line⟩ := by
  induction bs generalizing c with
  | nil => simp [write]
  | cons b bs ih =>
    have h := ih (c.writeByte line b)
    simp only [write, List.foldl_cons] at h ⊢
    rw [h]
    simp [writeByte]

theorem toList_writeTo (c : Chunk) (code : Code) :
    (code.writeTo c).cells.toList = c.cells.toList ++ Code.cells code := by
  induction code generalizing c with
  | nil => simp [Code.writeTo, Code.cells]
  | cons p code ih =>
    have h := ih (c.write p.line p.instr.bytes)
    simp only [Code.writeTo, List.foldl_cons] at h ⊢
    rw [h, toList_write]
    simp [Code.cells, PlacedInstr.cells]

@[simp] theorem toList_toChunk (code : Code) :
    (Code.toChunk code).cells.toList = Code.cells code := by
  simp [Code.toChunk, toList_writeTo, empty]

@[simp] theorem size_toChunk (code : Code) : (Code.toChunk code).size = Code.size code := by
  rw [size, ← Array.length_toList, toList_toChunk, Code.length_cells]

theorem getElem?_cells_toChunk (code : Code) (i : Nat) :
    (Code.toChunk code).cells[i]? = (Code.cells code)[i]? := by
  rw [← Array.getElem?_toList, toList_toChunk]

end Chunk

/-! ## Reading -/

/-- In the code of `c` the instruction `p` stands at `offset`. -/
def Chunk.HoldsAt (c : Chunk) (offset : Nat) (p : PlacedInstr) : Prop :=
  ∀ k < p.instr.size, c.cells[offset + k]? = p.cells[k]?

theorem Chunk.holdsAt_toChunk (pre post : Code) (p : PlacedInstr) :
    (Code.toChunk (pre ++ p :: post)).HoldsAt (Code.size pre) p := by
  intro k hk
  have hcells : Code.cells (pre ++ p :: post) = Code.cells pre ++ (p.cells ++ Code.cells post) := by
    simp [Code.cells]
  rw [getElem?_cells_toChunk, hcells, List.getElem?_append_right (by simp)]
  rw [Code.length_cells, Nat.add_sub_cancel_left, List.getElem?_append_left (by simpa using hk)]

namespace Chunk.HoldsAt

variable {c : Chunk} {offset : Nat} {p : PlacedInstr}

theorem byteAt? (h : c.HoldsAt offset p) {k : Nat} (hk : k < p.instr.size) :
    c.byteAt? (offset + k) = p.instr.bytes[k]? := by
  simp [Chunk.byteAt?, h k hk, PlacedInstr.cells, Function.comp_def]

theorem opcodeAt? (h : c.HoldsAt offset p) : c.opcodeAt? offset = some p.instr.opcode := by
  have hb : c.byteAt? offset = some p.instr.opcode.byte := by
    simpa [Instr.bytes] using h.byteAt? (k := 0) (by simp [Instr.size, Instr.bytes])
  simp [Chunk.opcodeAt?, hb]

theorem lineAt? (h : c.HoldsAt offset p) : c.lineAt? offset = some p.line := by
  have h0 := h 0 (by simp [Instr.size, Instr.bytes])
  simp only [Nat.add_zero] at h0
  simp [Chunk.lineAt?, h0, PlacedInstr.cells, Instr.bytes]

/-- The operand bytes follow the opcode. -/
theorem operandAt? (h : c.HoldsAt offset p) {k : Nat} (hk : k < p.instr.operands.length) :
    c.byteAt? (offset + (k + 1)) = p.instr.operands[k]? := by
  rw [h.byteAt? (by simp [Instr.size, Instr.bytes]; omega)]
  simp [Instr.bytes]

end Chunk.HoldsAt

theorem wordOf_bytes (w : UInt16) : wordOf (w >>> 8).toUInt8 w.toUInt8 = w := by
  apply UInt16.eq_of_toBitVec_eq
  simp only [wordOf, UInt16.toBitVec_or, UInt16.toBitVec_shiftLeft, UInt8.toBitVec_toUInt16,
    UInt16.toBitVec_toUInt8, UInt16.toBitVec_shiftRight]
  ext i hi
  simp only [BitVec.getElem_or, BitVec.getElem_setWidth]
  by_cases h : i < 8
  · simp [h, BitVec.getLsbD_eq_getElem hi]
  · have hlow : i - 8 < 8 := by omega
    have hback : 8 + (i - 8) = i := by omega
    simp [h, hlow, hback, BitVec.getLsbD_eq_getElem hi]

theorem toUInt16_toUInt8 {i : UInt16} (h : i < Instr.wideIndex) : i.toUInt8.toUInt16 = i := by
  apply UInt16.toNat_inj.1
  have hlt : i.toNat < 256 := by simpa [Instr.wideIndex, UInt16.lt_iff_toNat_lt] using h
  simp [Nat.mod_eq_of_lt hlt]

namespace Chunk.HoldsAt

variable {c : Chunk} {offset : Nat} {p : PlacedInstr}

theorem byteOperand (h : c.HoldsAt offset p) {b : UInt8} {l : List UInt8}
    (hb : p.instr.operands = b :: l) : c.byteAt? (offset + 1) = some b := by
  simpa [hb] using h.operandAt? (k := 0) (by simp [hb])

theorem wordOperand (h : c.HoldsAt offset p) {w : UInt16} {l : List UInt8}
    (hw : p.instr.operands = wordBytes w ++ l) : c.wordAt? (offset + 1) = some w := by
  have h0 := h.operandAt? (k := 0) (by simp [hw, wordBytes])
  have h1 := h.operandAt? (k := 1) (by simp [hw, wordBytes])
  simp only [hw, wordBytes, List.cons_append, List.nil_append, List.getElem?_cons_zero,
    List.getElem?_cons_succ, Nat.zero_add, Nat.reduceAdd] at h0 h1
  simp [Chunk.wordAt?, h0, h1, wordOf_bytes]

theorem secondWordOperand (h : c.HoldsAt offset p) {v w : UInt16}
    (hw : p.instr.operands = wordBytes v ++ wordBytes w) : c.wordAt? (offset + 3) = some w := by
  have h2 := h.operandAt? (k := 2) (by simp [hw, wordBytes])
  have h3 := h.operandAt? (k := 3) (by simp [hw, wordBytes])
  simp only [hw, wordBytes, List.cons_append, List.nil_append, List.getElem?_cons_zero,
    List.getElem?_cons_succ, Nat.reduceAdd] at h2 h3
  simp [Chunk.wordAt?, h2, h3, wordOf_bytes]

/-- Decoding by the opcode gives the instruction back. -/
theorem instr (h : c.HoldsAt offset p) : c.instr offset p.instr.opcode = some p.instr := by
  obtain ⟨line, i⟩ := p
  cases i with
  | constant i =>
    by_cases hi : i < Instr.wideIndex
    · have hb := h.byteOperand (b := i.toUInt8) (l := []) (by simp [Instr.operands, hi])
      simp [Instr.opcode, hi, Chunk.instr, hb, toUInt16_toUInt8 hi]
    · have hw := h.wordOperand (w := i) (l := []) (by simp [Instr.operands, hi])
      simp [Instr.opcode, hi, Chunk.instr, hw]
  | getLocal slot =>
    simp [Instr.opcode, Chunk.instr, h.byteOperand (b := slot) (l := []) rfl]
  | setLocal slot =>
    simp [Instr.opcode, Chunk.instr, h.byteOperand (b := slot) (l := []) rfl]
  | getField i n =>
    have hi := h.wordOperand (w := i) (l := wordBytes n) rfl
    have hn := h.secondWordOperand (v := i) (w := n) rfl
    simp [Instr.opcode, Chunk.instr, hi, hn]
  | buildString n =>
    simp [Instr.opcode, Chunk.instr, h.wordOperand (w := n) (l := []) (by simp [Instr.operands])]
  | jump d =>
    simp [Instr.opcode, Chunk.instr, h.wordOperand (w := d) (l := []) (by simp [Instr.operands])]
  | jumpIfFalse d =>
    simp [Instr.opcode, Chunk.instr, h.wordOperand (w := d) (l := []) (by simp [Instr.operands])]
  | jumpIfNotNull d =>
    simp [Instr.opcode, Chunk.instr, h.wordOperand (w := d) (l := []) (by simp [Instr.operands])]
  | format kind =>
    cases kind with
    | fixed n =>
      simp [Instr.opcode, Chunk.instr, h.byteOperand (b := n) (l := []) rfl]
    | decimal n =>
      simp [Instr.opcode, Chunk.instr, h.byteOperand (b := n) (l := []) rfl]
    | hex letters n =>
      have hn := h.byteOperand (b := n) (l := []) rfl
      cases letters <;> simp [Instr.opcode, Chunk.instr, hn]
    | upper => rfl
    | lower => rfl
  | pushBool b => cases b <;> rfl
  | arith op checked => cases op <;> cases checked <;> rfl
  | neg checked => cases checked <;> rfl
  | floatArith op => cases op <;> rfl
  | text op => cases op <;> rfl
  | compare positive => cases positive <;> rfl
  | _ => rfl

/-- Fetching gives the instruction back and the offset after it. -/
theorem fetch (h : c.HoldsAt offset p) :
    c.fetch offset = .ok (p.instr, offset + p.instr.size) := by
  have hsize : p.instr.opcode.length = p.instr.size := by
    simp [Opcode.length, Instr.size, Instr.bytes, Instr.length_operands, Nat.add_comm]
  simp [Chunk.fetch, h.opcodeAt?, h.instr, hsize]

end Chunk.HoldsAt

end TypedTemplate
