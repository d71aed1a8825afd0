-- SUMMARY: Listings of code, which keep what each operand was meant as, and reading them back.
import TypedTemplate.Proofs.Code.History
import TypedTemplate.Proofs.Code.Layout

/-!
# Listings

A listing has the instructions of a chunk with what their operands stand for: the
constant behind an index, the place a jump leads to. A chunk with the bytes of a
listing reads back as the listing, opcode by opcode.
-/

namespace TypedTemplate

/-! ## Instructions of a listing -/

/-- What follows an opcode. -/
inductive Operand where
  | none
  | byte (b : UInt8)
  | word (n : Nat)
  /-- The index of a field, and of the constant that is its name. -/
  | field (index nameIndex : Nat) (name : String)
  | constant (index : Nat) (c : Constant)
  /-- The offset a jump leads to, once it is patched. -/
  | target (to? : Option Nat)

/-- The bytes of an operand, when the offset behind it is `behind`. -/
def Operand.bytes (behind : Nat) : Operand → List UInt8
  | .none            => []
  | .byte b          => [b]
  | .word n          => wordBytes (UInt16.ofNat n)
  | .field i n _     => wordBytes (UInt16.ofNat i) ++ wordBytes (UInt16.ofNat n)
  | .constant i _    => (Instr.constant (UInt16.ofNat i)).operands
  | .target .none    => wordBytes Chunk.unpatched
  | .target (some t) => wordBytes (UInt16.ofNat (t - behind))

/-- An instruction as it was written. -/
structure Written where
  offset : Nat
  op : Opcode
  operand : Operand
  line : Nat

namespace Written

/-- The offset behind the instruction. -/
def behind (w : Written) : Nat := w.offset + w.op.length

def bytes (w : Written) : List UInt8 := w.op.byte :: w.operand.bytes w.behind

def cells (w : Written) : List Cell := w.bytes.map fun b => ⟨b, w.line⟩

/-- The operand has the length that its opcode says, and its numbers fit it. -/
def Fits (w : Written) : Prop :=
  match w.operand with
  | .none            => w.op.operandLength = 0
  | .byte _          => w.op.operandLength = 1
  | .word n          => w.op.operandLength = 2 ∧ n < UInt16.size
  | .field i n _     => w.op = .getField ∧ i < UInt16.size ∧ n < UInt16.size
  | .constant i _    => w.op = (Instr.constant (UInt16.ofNat i)).opcode ∧ i < UInt16.size
  | .target .none    => w.op.operandLength = 2
  | .target (some t) => w.op.operandLength = 2 ∧ w.behind ≤ t ∧ t < w.behind + UInt16.size

/-- The constants that the operand names are in the pool where it says. -/
def Named (w : Written) (p : Pool) : Prop :=
  match w.operand with
  | .field _ n name => p.index[(Constant.str name).key]? = some n
  | .constant i c   => p.index[c.key]? = some i
  | _               => True

/-- The code reads back as what was written. An index leads to the constant meant, or to a zero for
a zero. -/
def Reads (w : Written) (c : Chunk) (p : Pool) : Prop :=
  match w.operand with
  | .none            => True
  | .byte b          => c.byteAt? (w.offset + 1) = some b
  | .word n          => (c.wordAt? (w.offset + 1)).map UInt16.toNat = some n
  | .field i n name  => (c.wordAt? (w.offset + 1)).map UInt16.toNat = some i ∧
    (c.wordAt? (w.offset + 3)).map UInt16.toNat = some n ∧ p.str? n = some name
  | .constant i k    =>
    (match w.op with
      | .constant => (c.byteAt? (w.offset + 1)).map UInt8.toNat
      | _         => (c.wordAt? (w.offset + 1)).map UInt16.toNat) = some i ∧
    ∃ d, p.get? i = some d ∧ (d = k ∨ d.isZero = true ∧ k.isZero = true)
  | .target .none    => c.wordAt? (w.offset + 1) = some 0xFFFF
  | .target (some t) => ∃ d, c.wordAt? (w.offset + 1) = some d ∧ w.behind + d.toNat = t

variable {w : Written}

theorem offset_lt_behind (w : Written) : w.offset < w.behind := by
  simp only [behind, Opcode.length]
  omega

theorem Fits.length_bytes (h : w.Fits) : w.bytes.length = w.op.length := by
  obtain ⟨offset, op, operand, line⟩ := w
  simp only [Fits] at h
  simp only [bytes, List.length_cons, Opcode.length]
  rw [Nat.add_comm 1, Nat.add_right_cancel_iff]
  cases operand with
  | none => exact h.symm
  | byte b => exact h.symm
  | word n => exact h.1.symm
  | field i n name => rw [h.1]; rfl
  | constant i k => rw [h.1, ← Instr.length_operands]; rfl
  | target to? =>
    cases to? with
    | none => exact h.symm
    | some t => exact h.1.symm

theorem Fits.length_cells (h : w.Fits) : w.cells.length = w.op.length := by
  rw [cells, List.length_map, h.length_bytes]

theorem Fits.operandLength_target (h : w.Fits) {to? : Option Nat} (hto : w.operand = .target to?) :
    w.op.operandLength = 2 := by
  cases to? with
  | none => simpa only [Fits, hto] using h
  | some t =>
    simp only [Fits, hto] at h
    exact h.1

/-- The operand of a jump is one word, whether or not it is patched. -/
theorem cells_target (w : Written) {to? : Option Nat} (hto : w.operand = .target to?) :
    ∃ v : UInt16,
      w.cells = [⟨w.op.byte, w.line⟩, ⟨(v >>> 8).toUInt8, w.line⟩, ⟨v.toUInt8, w.line⟩] := by
  cases to? <;> exact ⟨_, by simp only [cells, bytes, hto, Operand.bytes, wordBytes]; rfl⟩

theorem Named.within {p q : Pool} (h : w.Named p) (hpool : p.Within q) : w.Named q := by
  obtain ⟨offset, op, operand, line⟩ := w
  cases operand with
  | field i n name => exact hpool.index _ _ h
  | constant i c => exact hpool.index _ _ h
  | _ => trivial

end Written

/-! ## Layout -/

namespace Listing

/-- The number of bytes of the instructions. -/
def size : List Written → Nat
  | []     => 0
  | w :: l => w.op.length + size l

/-- The instructions stand one behind the other from `offset` on. -/
def Laid : Nat → List Written → Prop
  | _, []          => True
  | offset, w :: l => w.offset = offset ∧ Laid w.behind l

def cells (l : List Written) : List Cell := l.flatMap (·.cells)

@[simp] theorem size_nil : size [] = 0 := rfl

@[simp] theorem size_cons (w : Written) (l : List Written) :
    size (w :: l) = w.op.length + size l := rfl

@[simp] theorem size_append (a b : List Written) : size (a ++ b) = size a + size b := by
  induction a with
  | nil => simp
  | cons w a ih => rw [List.cons_append, size_cons, size_cons, ih, Nat.add_assoc]

@[simp] theorem cells_cons (w : Written) (l : List Written) :
    cells (w :: l) = w.cells ++ cells l := by
  simp [cells]

@[simp] theorem cells_append (a b : List Written) : cells (a ++ b) = cells a ++ cells b := by
  simp [cells]

variable {l a b : List Written} {w : Written} {n : Nat}

theorem length_cells (h : ∀ w ∈ l, w.Fits) : (cells l).length = size l := by
  induction l with
  | nil => rfl
  | cons w l ih =>
    rw [cells_cons, List.length_append, size_cons, (h w (by simp)).length_cells,
      ih fun w hw => h w (by simp [hw])]

theorem laid_append : Laid n (a ++ b) ↔ Laid n a ∧ Laid (n + size a) b := by
  induction a generalizing n with
  | nil => simp [Laid]
  | cons w a ih =>
    simp only [List.cons_append, Laid, ih, size_cons, and_assoc]
    refine and_congr_right fun hw => ?_
    rw [Written.behind, hw, Nat.add_assoc]

/-- An instruction lies within its listing. -/
theorem Laid.mem (h : Laid n l) (hw : w ∈ l) : n ≤ w.offset ∧ w.behind ≤ n + size l := by
  obtain ⟨a, b, rfl⟩ := List.append_of_mem hw
  obtain ⟨-, hoffset, -⟩ := laid_append.1 h
  simp only [Written.behind, hoffset, size_append, size_cons]
  omega

/-- What stands below an offset between two instructions is what comes before it. -/
theorem filter_lt_of_laid (h : Laid 0 (a ++ b)) :
    (a ++ b).filter (·.offset < size a) = a := by
  obtain ⟨ha, hb⟩ := laid_append.1 h
  have hbelow : ∀ w ∈ a, decide (w.offset < size a) = true := fun w hw => by
    have := (ha.mem hw).2
    have := w.offset_lt_behind
    exact decide_eq_true (by omega)
  have habove : ∀ w ∈ b, ¬decide (w.offset < size a) = true := fun w hw => by
    have := (hb.mem hw).1
    simpa using by omega
  rw [List.filter_append, List.filter_eq_self.2 hbelow, List.filter_eq_nil_iff.2 habove,
    List.append_nil]

/-- A change to the instruction at one offset changes that instruction only. -/
theorem map_at_of_laid {f : Written → Written} (h : Laid n (a ++ w :: b)) :
    (a ++ w :: b).map (fun v => if v.offset = w.offset then f v else v) = a ++ f w :: b := by
  obtain ⟨ha, hw, hb⟩ := laid_append.1 h
  have hbefore : ∀ v ∈ a, (if v.offset = w.offset then f v else v) = v := fun v hv => by
    have := (ha.mem hv).2
    have := v.offset_lt_behind
    exact if_neg (by omega)
  have hafter : ∀ v ∈ b, (if v.offset = w.offset then f v else v) = v := fun v hv => by
    have := (hb.mem hv).1
    have := w.offset_lt_behind
    exact if_neg (by omega)
  rw [List.map_append, List.map_cons, if_pos rfl, List.map_congr_left hbefore,
    List.map_congr_left hafter, List.map_id', List.map_id']

/-- Every byte belongs to an instruction. -/
theorem Laid.covers (h : Laid n l) {i : Nat} (hle : n ≤ i) (hlt : i < n + size l) :
    ∃ w ∈ l, ∃ k < w.op.length, i = w.offset + k := by
  induction l generalizing n with
  | nil => simp at hlt; omega
  | cons w l ih =>
    obtain ⟨rfl, hl⟩ := h
    by_cases hi : i < w.behind
    · exact ⟨w, by simp, i - w.offset, by simp only [Written.behind] at hi; omega, by omega⟩
    · obtain ⟨v, hv, hk⟩ := ih hl (by omega) (by
        simp only [size_cons, Written.behind] at hlt ⊢
        omega)
      exact ⟨v, by simp [hv], hk⟩

end Listing

/-! ## Reading -/

namespace Chunk

variable {c : Chunk} {p : Pool} {w : Written} {l : List Written}

/-- The code has the bytes of the instruction at its offset. -/
def HasAt (c : Chunk) (w : Written) : Prop :=
  ∀ k < w.op.length, c.cells[w.offset + k]? = w.cells[k]?

theorem hasAt_of_cells (hcells : c.cells.toList = Listing.cells l) (hlaid : Listing.Laid 0 l)
    (hfits : ∀ w ∈ l, w.Fits) (hw : w ∈ l) : c.HasAt w := by
  obtain ⟨a, b, rfl⟩ := List.append_of_mem hw
  obtain ⟨-, hoffset, -⟩ := Listing.laid_append.1 hlaid
  have hlength : (Listing.cells a).length = w.offset := by
    rw [Listing.length_cells fun v hv => hfits v (by simp [hv]), hoffset, Nat.zero_add]
  intro k hk
  rw [← Array.getElem?_toList, hcells, Listing.cells_append, Listing.cells_cons,
    List.getElem?_append_right (by omega), hlength, Nat.add_sub_cancel_left,
    List.getElem?_append_left (by rwa [(hfits w hw).length_cells])]

namespace HasAt

theorem lineAt? (h : c.HasAt w) (hfits : w.Fits) {k : Nat} (hk : k < w.op.length) :
    c.lineAt? (w.offset + k) = some w.line := by
  have hlt : k < w.bytes.length := by rwa [hfits.length_bytes]
  simp [Chunk.lineAt?, h k hk, Written.cells, List.getElem?_eq_getElem hlt]

theorem byteAt? (h : c.HasAt w) {k : Nat} (hk : k < w.op.length) :
    c.byteAt? (w.offset + k) = w.bytes[k]? := by
  simp [Chunk.byteAt?, h k hk, Written.cells, Function.comp_def]

theorem opcodeAt? (h : c.HasAt w) : c.opcodeAt? w.offset = some w.op := by
  have hbyte : c.byteAt? w.offset = some w.op.byte :=
    h.byteAt? (k := 0) (by simp only [Opcode.length]; omega)
  simp [Chunk.opcodeAt?, hbyte]

/-- A word among the operand bytes reads back. -/
theorem wordAt? (h : c.HasAt w) (hfits : w.Fits) {v : UInt16} {k : Nat} (before rest : List UInt8)
    (hbytes : w.bytes = before ++ (wordBytes v ++ rest)) (hk : before.length = k) :
    c.wordAt? (w.offset + k) = some v := by
  have hlength := hfits.length_bytes
  simp only [hbytes, List.length_append, wordBytes, List.length_cons] at hlength
  have hhigh := h.byteAt? (k := k) (by omega)
  have hlow := h.byteAt? (k := k + 1) (by omega)
  rw [hbytes, ← hk, List.getElem?_append_right (Nat.le_refl _), Nat.sub_self] at hhigh
  rw [hbytes, ← hk, List.getElem?_append_right (Nat.le_add_right _ _), Nat.add_sub_cancel_left]
    at hlow
  simp only [wordBytes, List.cons_append, List.getElem?_cons_zero, List.getElem?_cons_succ]
    at hhigh hlow
  simp [Chunk.wordAt?, ← hk, hhigh, Nat.add_assoc, hlow, wordOf_bytes]

end HasAt

theorem toNat_ofNat_word {n : Nat} (h : n < UInt16.size) : (UInt16.ofNat n).toNat = n :=
  UInt16.toNat_ofNat_of_lt' h

/-- Code that has the bytes of an instruction reads back as the instruction. -/
theorem HasAt.reads (h : c.HasAt w) (hfits : w.Fits) (hp : p.Consistent) (hnamed : w.Named p) :
    w.Reads c p := by
  obtain ⟨offset, op, operand, line⟩ := w
  have hnumbers := hfits
  cases operand with
  | none => trivial
  | byte b =>
    have hlength : op.operandLength = 1 := hnumbers
    exact h.byteAt? (k := 1) (by simp [Opcode.length, hlength])
  | word n =>
    obtain ⟨-, hn⟩ : _ ∧ n < UInt16.size := hnumbers
    have hword : c.wordAt? (offset + 1) = some (UInt16.ofNat n) :=
      h.wordAt? hfits [op.byte] [] rfl rfl
    show (c.wordAt? (offset + 1)).map UInt16.toNat = some n
    rw [hword, Option.map_some, toNat_ofNat_word hn]
  | field i n name =>
    obtain ⟨-, hi, hn⟩ : _ ∧ i < UInt16.size ∧ n < UInt16.size := hnumbers
    have hindex : c.wordAt? (offset + 1) = some (UInt16.ofNat i) :=
      h.wordAt? hfits [op.byte] _ rfl rfl
    have hname : c.wordAt? (offset + 3) = some (UInt16.ofNat n) :=
      h.wordAt? hfits (op.byte :: wordBytes (UInt16.ofNat i)) [] rfl rfl
    refine ⟨?_, ?_, Pool.str?_of_index hp hnamed⟩
    · rw [hindex, Option.map_some, toNat_ofNat_word hi]
    · rw [hname, Option.map_some, toNat_ofNat_word hn]
  | constant i k =>
    obtain ⟨rfl, hi⟩ : op = (Instr.constant (UInt16.ofNat i)).opcode ∧ i < UInt16.size := hnumbers
    refine ⟨?_, ?_⟩
    · by_cases hnarrow : UInt16.ofNat i < Instr.wideIndex
      · have hop : (Instr.constant (UInt16.ofNat i)).opcode = .constant := if_pos hnarrow
        have hbyte := h.byteAt? (k := 1) (by simp only [hop]; decide)
        simp only [Written.bytes, Operand.bytes, Instr.operands, hnarrow, if_true,
          List.getElem?_cons_succ, List.getElem?_cons_zero] at hbyte
        have hback := congrArg UInt16.toNat (toUInt16_toUInt8 hnarrow)
        rw [toNat_ofNat_word hi, UInt8.toNat_toUInt16] at hback
        simp only [hop, hbyte, Option.map_some, hback]
      · have hop : (Instr.constant (UInt16.ofNat i)).opcode = .constantWide := if_neg hnarrow
        have hword : c.wordAt? (offset + 1) = some (UInt16.ofNat i) :=
          h.wordAt? hfits [Opcode.constantWide.byte] []
            (by simp [Written.bytes, Operand.bytes, Instr.operands, hop, hnarrow]) rfl
        simp only [hop, hword, Option.map_some, toNat_ofNat_word hi]
    · obtain ⟨d, hd, hkey⟩ := hp _ _ hnamed
      exact ⟨d, hd, Constant.key_eq_iff.1 hkey⟩
  | target to? =>
    cases to? with
    | none => exact h.wordAt? hfits [op.byte] [] rfl rfl
    | some t =>
      have hword := h.wordAt? hfits [op.byte] [] rfl rfl
      obtain ⟨-, hle, hlt⟩ := hnumbers
      refine ⟨_, hword, ?_⟩
      rw [toNat_ofNat_word (by omega)]
      exact Nat.add_sub_cancel' hle

/-- The opcodes from an offset on are those of the instructions from there on. -/
theorem opcodesOnto_laid {offset : Nat} (hlaid : Listing.Laid offset l) (hhas : ∀ w ∈ l, c.HasAt w)
    (hsize : offset + Listing.size l = c.size) (out : List Opcode) :
    c.opcodesOnto out offset = out.reverse ++ l.map (·.op) := by
  induction l generalizing offset out with
  | nil =>
    have hend : ¬offset < c.size := by simp only [Listing.size_nil] at hsize; omega
    rw [opcodesOnto, dif_neg hend, List.map_nil, List.append_nil]
  | cons w l ih =>
    obtain ⟨rfl, hrest⟩ := hlaid
    rw [Listing.size_cons] at hsize
    have hlt : w.offset < c.size := by
      simp only [Opcode.length] at hsize
      omega
    rw [opcodesOnto, dif_pos hlt, (hhas w (by simp)).opcodeAt?]
    simp only
    have hnext := ih hrest (fun v hv => hhas v (by simp [hv]))
      (by rw [Written.behind]; omega) (w.op :: out)
    rw [Written.behind] at hnext
    rw [hnext]
    simp

end Chunk

end TypedTemplate
