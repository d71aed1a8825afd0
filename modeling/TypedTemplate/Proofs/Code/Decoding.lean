-- SUMMARY: Whatever is emitted, patched and cut off, the code decodes to the instructions left.
import TypedTemplate.Proofs.Code.Draft
import TypedTemplate.Proofs.Code.Emission

/-!
# Decoding emitted code

An emitter runs beside its draft. Call by call its bytes stay those of the draft's
listing, so in the end they decode to it.
-/

namespace TypedTemplate

/-! ## The emitter beside its draft -/

namespace Chunk

theorem toList_setByte (c : Chunk) {a b : List Cell} {cell : Cell}
    (hcells : c.cells.toList = a ++ cell :: b) (value : UInt8) :
    (c.setByte a.length value).cells.toList = a ++ { cell with byte := value } :: b := by
  rw [setByte, Array.toList_modify, hcells]
  clear hcells
  induction a with
  | nil => rfl
  | cons _ a ih =>
    rw [List.cons_append, List.length_cons, List.modify_succ_cons, ih, List.cons_append]

theorem toList_setWord (c : Chunk) {a b : List Cell} {high low : Cell}
    (hcells : c.cells.toList = a ++ high :: low :: b) (w : UInt16) :
    ((c.setByte a.length (w >>> 8).toUInt8).setByte (a.length + 1) w.toUInt8).cells.toList =
      a ++ { high with byte := (w >>> 8).toUInt8 } :: { low with byte := w.toUInt8 } :: b := by
  have hhigh := c.toList_setByte hcells (w >>> 8).toUInt8
  rw [List.append_cons] at hhigh
  simpa using Chunk.toList_setByte _ hhigh w.toUInt8

end Chunk

namespace Emitter

/-- The emitter holds the bytes of the draft's listing. -/
structure Follows (e : Emitter) (d : Draft) : Prop where
  cells : e.chunk.cells.toList = Listing.cells d.listing
  pool : e.pool = d.pool
  span : e.span = d.span

/-- Write the bytes of an addition. -/
def add (e : Emitter) : Addition → Emitter
  | (some (op, operand), pool) =>
    ⟨e.chunk.write e.span.line (op.byte :: operand.bytes (e.chunk.size + op.length)), pool, e.span⟩
  | (none, pool) => { e with pool }

variable {e : Emitter} {d : Draft}

theorem Follows.size (h : e.Follows d) (hd : d.Formed) : e.chunk.size = d.size := by
  rw [Chunk.size, ← Array.length_toList, h.cells, Listing.length_cells hd.fits, Draft.size]

theorem Follows.add (h : e.Follows d) (hd : d.Formed) (a : Addition) :
    (e.add a).Follows (d.add a) := by
  obtain ⟨written, pool⟩ := a
  cases written with
  | none => exact ⟨h.cells, rfl, h.span⟩
  | some new =>
    refine ⟨?_, rfl, h.span⟩
    simp only [Emitter.add, Draft.add, Chunk.toList_write, Listing.cells_append, h.cells]
    simp [Listing.cells, Written.cells, Written.bytes, Written.behind, h.size hd, h.span]

section

variable (e)

theorem emit_some {α : Type} {m : Span → Emit α} {r : Except CompilationError α} {pool : Pool}
    (i : Instr) (operand : Operand) (hm : m e.span e.pool = ⟨r, [⟨e.span.line, i⟩], pool⟩)
    (hoperand : i.operands = operand.bytes (e.chunk.size + i.opcode.length)) :
    (e.emit m).2 = e.add (some (i.opcode, operand), pool) := by
  simp only [emit, hm, Emitter.add, Chunk.append, Code.writeTo, List.foldl_cons, List.foldl_nil,
    Instr.bytes, hoperand]

theorem emit_none {α : Type} {m : Span → Emit α} {r : Except CompilationError α} {pool : Pool}
    (hm : m e.span e.pool = ⟨r, [], pool⟩) : (e.emit m).2 = e.add (none, pool) := by
  simp only [emit, hm, Emitter.add, Chunk.append, Code.writeTo, List.foldl_nil]

theorem emit_constant (c : Constant) :
    (e.emit (Emit.constant · c)).2 = e.add (.constant e.pool c) := by
  by_cases hi : (e.pool.add c).1 < UInt16.size
  · have hemit := e.emit_some (m := (Emit.constant · c)) _ (.constant (e.pool.add c).1 c)
      ((Emit.constant_ok (a := ⟨⟩)).2 ⟨hi, rfl, rfl⟩) rfl
    simpa only [Addition.constant, hi, if_true] using hemit
  · have hlimit : Emit.constant e.span c e.pool = ⟨.error ⟨.limitExceeded
        "too many constants in one unit", e.span⟩, [], (e.pool.add c).2⟩ := by
      simp [Emit.constant, Emit.constantIndex, Emit.word, hi, Emit.fail, bind]
    simpa only [Addition.constant, hi, if_false] using e.emit_none hlimit

theorem emit_int (i : Int64) : (e.emit (Emit.int · i)).2 = e.add (.int e.pool i) := by
  unfold Emit.int Addition.int
  by_cases h0 : i = 0
  · simp only [h0, if_true]
    exact e.emit_some .pushZero .none rfl rfl
  · by_cases h1 : i = 1
    · simp only [h1, if_true]
      exact e.emit_some .pushOne .none rfl rfl
    · simp only [h0, h1, if_false]
      exact e.emit_constant _

theorem emit_value (v : Value) : (e.emit (Emit.value · v)).2 = e.add (.value e.pool v) := by
  cases v with
  | null => exact e.emit_some .pushNull .none rfl rfl
  | bool b =>
    cases b with
    | true => exact e.emit_some (.pushBool true) .none rfl rfl
    | false => exact e.emit_some (.pushBool false) .none rfl rfl
  | int i => exact e.emit_int i
  | uint u => exact e.emit_constant _
  | float x => exact e.emit_constant _
  | str s => exact e.emit_constant _
  | object o => exact e.emit_none rfl

theorem emit_getField (index : Nat) (name : String) :
    (e.emit (Emit.getField · index name)).2 = e.add (.getField e.pool index name) := by
  by_cases hi : index < UInt16.size
  · by_cases hn : (e.pool.add (.str name)).1 < UInt16.size
    · have hemit := e.emit_some (m := (Emit.getField · index name)) _
        (.field index (e.pool.add (.str name)).1 name)
        ((Emit.getField_ok (a := ⟨⟩)).2 ⟨hi, hn, rfl, rfl⟩) rfl
      simpa only [Addition.getField, hi, hn, if_true, Instr.opcode] using hemit
    · have hlimit : Emit.getField e.span index name e.pool = ⟨.error ⟨.limitExceeded
          "too many constants in one unit", e.span⟩, [], (e.pool.add (.str name)).2⟩ := by
        simp [Emit.getField, Emit.constantIndex, Emit.word, hi, hn, Emit.fail, bind, pure]
      simpa only [Addition.getField, hi, hn, if_true, if_false] using e.emit_none hlimit
  · have hlimit : Emit.getField e.span index name e.pool = ⟨.error ⟨.limitExceeded
        "field index out of range", e.span⟩, [], e.pool⟩ := by
      simp [Emit.getField, Emit.word, hi, Emit.fail, bind]
    simpa only [Addition.getField, hi, if_false] using e.emit_none hlimit

theorem opWord_eq (op : Opcode) (w : UInt16) :
    e.opWord op w = e.add (some (op, .word w.toNat), e.pool) := by
  simp [opWord, Emitter.add, Chunk.writeOp, Chunk.writeWord, Chunk.write, Operand.bytes]

theorem opCount_eq (op : Opcode) (n : Nat) (what : String) :
    (e.opCount op n what : Except CompilationError Unit × Emitter).2 =
      e.add (if n < UInt16.size then some (op, .word n) else none, e.pool) := by
  by_cases hn : n < UInt16.size
  · simp [opCount, emit, Emit.word, pure, hn, opWord_eq, Chunk.toNat_ofNat_word hn, Chunk.append,
      Code.writeTo]
  · simp [opCount, emit, Emit.word, Emit.fail, hn, Emitter.add, Chunk.append, Code.writeTo]

end

/-- A patch that is too long is refused and changes nothing. Any other gives the jump its target. -/
theorem Follows.patch (h : e.Follows d) (hd : d.Formed) {w : Written} (hw : w ∈ d.listing)
    {to? : Option Nat} (hto : w.operand = .target to?) :
    if d.size < w.behind + UInt16.size then
      ∃ e' : Emitter, e.patch (w.offset + 1) = (.ok (), e') ∧ e'.Follows (d.patch (w.offset + 1))
    else
      e.patch (w.offset + 1) = ((.error ⟨.limitExceeded
        ("jump of " ++ Number.decimal (d.size - w.behind) ++ " bytes is too long"), d.span⟩ :
          Except CompilationError Unit), e) ∧
      d.patch (w.offset + 1) = d := by
  have hlength := (hd.fits w hw).operandLength_target hto
  have hbehind : w.behind = w.offset + 1 + 2 := by simp [Written.behind, Opcode.length, hlength]
  have hdistance : e.chunk.size - (w.offset + 1) - 2 = d.size - w.behind := by
    rw [h.size hd]
    omega
  have hend : w.behind ≤ d.size := by simpa [Draft.size] using (hd.laid.mem hw).2
  split
  · rename_i hnear
    obtain ⟨a, b, hsplit, hpatch⟩ := hd.patch_split hw (hbehind ▸ hnear)
    have hpatched : e.chunk.patch (w.offset + 1) = .ok
        ((e.chunk.setByte (w.offset + 1) (UInt16.ofNat (d.size - w.behind) >>> 8).toUInt8).setByte
          (w.offset + 1 + 1) (UInt16.ofNat (d.size - w.behind)).toUInt8) := by
      simp only [Chunk.patch, hdistance]
      exact if_pos (by omega)
    refine ⟨_, by rw [Emitter.patch, hpatched], ?_, by rw [hpatch]; exact h.pool,
      by rw [hpatch]; exact h.span⟩
    have hbefore : (Listing.cells a).length = w.offset := by
      have hlaid := hsplit ▸ hd.laid
      rw [Listing.length_cells fun v hv => hd.fits v (by simp [hsplit, hv]),
        (Listing.laid_append.1 hlaid).2.1, Nat.zero_add]
    obtain ⟨v, hv⟩ := w.cells_target hto
    have hcells : e.chunk.cells.toList = (Listing.cells a ++ [⟨w.op.byte, w.line⟩]) ++
        ⟨(v >>> 8).toUInt8, w.line⟩ :: ⟨v.toUInt8, w.line⟩ :: Listing.cells b := by
      simp [h.cells, hsplit, hv]
    have hwritten := e.chunk.toList_setWord hcells (UInt16.ofNat (d.size - w.behind))
    rw [List.length_append, List.length_singleton, hbefore] at hwritten
    rw [hpatch, hwritten]
    simp [Written.cells, Written.bytes, Operand.bytes, wordBytes, Written.behind]
  · rename_i hfar
    have hrefused : e.chunk.patch (w.offset + 1) = .error (d.size - w.behind) := by
      simp only [Chunk.patch, hdistance]
      exact if_neg (by omega)
    refine ⟨by rw [Emitter.patch, hrefused, h.span], if_neg (by omega)⟩

theorem Follows.truncate (h : e.Follows d) (hd : d.Formed) {offset : Nat}
    (hboundary : d.Boundary offset) : (e.truncate offset).Follows (d.truncate offset) := by
  obtain ⟨a, b, hsplit, rfl, htruncate⟩ := hd.truncate_split hboundary
  have hlength : (Listing.cells a).length = Listing.size a :=
    Listing.length_cells fun w hw => hd.fits w (by simp [hsplit, hw])
  rw [htruncate]
  refine ⟨?_, h.pool, h.span⟩
  simp [Emitter.truncate, Chunk.truncate, h.cells, hsplit, ← hlength]

theorem Follows.after (h : e.Follows d) (hd : d.Formed) {call : Call} (hcall : d.Permits call) :
    (e.after call).Follows (d.after call) := by
  have hadd := h.add hd
  obtain ⟨chunk, pool, span⟩ := e
  obtain ⟨listing, pool', span'⟩ := d
  obtain rfl : pool = pool' := h.pool
  cases call with
  | setSpan span => exact ⟨h.cells, rfl, rfl⟩
  | op op => exact hadd (some (op, .none), pool)
  | opByte op b => exact hadd (some (op, .byte b), pool)
  | opWord op w =>
    rw [Emitter.after, opWord_eq]
    exact hadd _
  | opCount op n what =>
    rw [Emitter.after, opCount_eq]
    exact hadd _
  | getField index name =>
    rw [Emitter.after, emit_getField]
    exact hadd _
  | constant c =>
    rw [Emitter.after, emit_constant]
    exact hadd _
  | int i =>
    rw [Emitter.after, emit_int]
    exact hadd _
  | float x =>
    rw [Emitter.after, emit_constant]
    exact hadd _
  | str s =>
    have hstr : (emit ⟨chunk, pool, span⟩ (Emit.str · s)).2 = _ := emit_constant _ (.str s)
    rw [Emitter.after, hstr]
    exact hadd _
  | bool b =>
    rw [Emitter.after, emit_value]
    exact hadd _
  | value v =>
    rw [Emitter.after, emit_value]
    exact hadd _
  | getLocal slot =>
    rw [Emitter.after, emit_some _ (.getLocal slot) (.byte slot) rfl rfl]
    exact hadd _
  | setLocal slot =>
    rw [Emitter.after, emit_some _ (.setLocal slot) (.byte slot) rfl rfl]
    exact hadd _
  | jump op => exact hadd (some (op, .target none), pool)
  | patch label =>
    obtain ⟨w, hw, rfl, to?, hto⟩ := hcall
    have hpatch := h.patch hd hw hto
    split at hpatch
    · obtain ⟨e', he, hfollows⟩ := hpatch
      rwa [Emitter.after, Draft.after, he]
    · rw [Emitter.after, Draft.after, hpatch.1, hpatch.2]
      exact h
  | truncate offset => exact h.truncate hd hcall.1

theorem Follows.afterAll (h : e.Follows d) (hd : d.Formed) {calls : List Call}
    (hcalls : d.PermitsAll calls) :
    (e.afterAll calls).Follows (d.afterAll calls) ∧ (d.afterAll calls).Formed := by
  induction calls generalizing e d with
  | nil => exact ⟨h, hd⟩
  | cons call calls ih => exact ih (h.after hd hcalls.1) (hd.after hcalls.1) hcalls.2

/-! ## Decoding -/

/-- The code of the emitter decodes to the listing of the draft. -/
structure DecodesTo (e : Emitter) (d : Draft) : Prop where
  opcodes : e.chunk.opcodes = d.listing.map (·.op)
  opcode : ∀ w ∈ d.listing, e.chunk.opcodeAt? w.offset = some w.op
  operand : ∀ w ∈ d.listing, w.Reads e.chunk e.pool
  line : ∀ w ∈ d.listing, ∀ k < w.op.length, e.chunk.lineAt? (w.offset + k) = some w.line
  /-- No byte is left over. -/
  covered : ∀ i < e.chunk.size, ∃ w ∈ d.listing, ∃ k < w.op.length, i = w.offset + k
  /-- Jumps lead to instructions or to the end. -/
  lands : ∀ w ∈ d.listing, ∀ t, w.operand = .target (some t) → d.Boundary t
  /-- The next jump is written at the end and its label is the offset of its operand. -/
  label : ∀ op, (e.jump op).1 = d.size + 1
  /-- A jump that is near enough can be patched. -/
  patch : ∀ w ∈ d.listing, (∃ to?, w.operand = .target to?) →
    d.size < w.behind + UInt16.size → (e.patch (w.offset + 1)).1 = .ok ()
  /-- A patch that is too long changes nothing. -/
  refused : ∀ w ∈ d.listing, (∃ to?, w.operand = .target to?) →
    ¬d.size < w.behind + UInt16.size → e.patch (w.offset + 1) = ((.error ⟨.limitExceeded
      ("jump of " ++ Number.decimal (d.size - w.behind) ++ " bytes is too long"), d.span⟩ :
        Except CompilationError Unit), e)

theorem Follows.decodesTo (h : e.Follows d) (hd : d.Formed) : e.DecodesTo d := by
  have hhas := fun w hw => Chunk.hasAt_of_cells h.cells hd.laid hd.fits (w := w) hw
  have hsize := h.size hd
  have hconsistent : e.pool.Consistent := h.pool ▸ hd.consistent
  constructor
  case opcodes =>
    have hread := Chunk.opcodesOnto_laid hd.laid hhas (by rw [hsize, Nat.zero_add]; rfl) []
    rwa [List.reverse_nil, List.nil_append] at hread
  case opcode => exact fun w hw => (hhas w hw).opcodeAt?
  case operand =>
    exact fun w hw => (hhas w hw).reads (hd.fits w hw) hconsistent (h.pool ▸ hd.named w hw)
  case line => exact fun w hw k hk => (hhas w hw).lineAt? (hd.fits w hw) hk
  case covered =>
    exact fun i hi => hd.laid.covers (Nat.zero_le i) (by rwa [Nat.zero_add, ← Draft.size, ← hsize])
  case lands => exact hd.lands
  case label =>
    intro op
    rw [← hsize]
    simp [jump, Chunk.writeJump, Chunk.writeOp, Chunk.writeByte, Chunk.size]
  case patch =>
    rintro w hw ⟨to?, hto⟩ hnear
    have hpatch := h.patch hd hw hto
    rw [if_pos hnear] at hpatch
    obtain ⟨e', he, -⟩ := hpatch
    rw [he]
  case refused =>
    rintro w hw ⟨to?, hto⟩ hfar
    have hpatch := h.patch hd hw hto
    rw [if_neg hfar] at hpatch
    exact hpatch.1

/-- After any permitted calls on a new emitter, over a pool with any constants, the code decodes to
the instructions that are left, each as it was written and on its line. -/
theorem decodesTo_afterAll (known : List Constant) (calls : List Call)
    (h : (Draft.start (Pool.empty.addAll known)).PermitsAll calls) :
    ((start (Pool.empty.addAll known)).afterAll calls).DecodesTo
      ((Draft.start (Pool.empty.addAll known)).afterAll calls) := by
  have hstart : (start (Pool.empty.addAll known)).Follows
      (Draft.start (Pool.empty.addAll known)) := ⟨rfl, rfl, rfl⟩
  obtain ⟨hfollows, hformed⟩ :=
    hstart.afterAll (Draft.formed_start (Pool.records_addAll known).consistent) h
  exact hfollows.decodesTo hformed

/-- A jump is patched, code behind its target is cut off and other code written there. -/
theorem decodesTo_afterAll_cut :
    let calls : List Call := [.bool true, .setSpan (.point 7 1), .jump .jumpIfFalse,
      .opByte .formatFixed 2, .patch 2, .opWord .buildString 300, .truncate 6, .op .ret]
    (Draft.start .empty).PermitsAll calls ∧
      ((start .empty).afterAll calls).chunk.opcodes =
        [.pushTrue, .jumpIfFalse, .formatFixed, .ret] := by
  intro calls
  have hpermits : (Draft.start .empty).PermitsAll calls := by
    refine ⟨trivial, trivial, rfl, rfl, ?_, rfl, ⟨?_, ?_⟩, rfl, trivial⟩
    · exact ⟨⟨1, .jumpIfFalse, .target none, 7⟩, .tail _ (.head _), rfl, none, rfl⟩
    · exact .inr ⟨⟨6, .buildString, .word 300, 7⟩, .tail _ (.tail _ (.tail _ (.head _))), rfl⟩
    · rintro w (_ | ⟨_, _ | ⟨_, _ | ⟨_, _ | ⟨_, ⟨⟩⟩⟩⟩⟩) hlt t ht <;> cases ht
      exact Nat.le_refl 6
  exact ⟨hpermits, (decodesTo_afterAll [] calls hpermits).opcodes⟩

end Emitter

end TypedTemplate
