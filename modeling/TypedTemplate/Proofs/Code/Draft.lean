-- SUMMARY: Drafts, which keep as a listing what the calls to an emitter are for.
import TypedTemplate.Code.Emitter
import TypedTemplate.Proofs.Code.Listing

/-!
# Drafts

A draft keeps a listing where an emitter keeps bytes. Every call adds to it what it
is for: the line in force, the constant meant, the jump patched and where to, the
instructions cut off. Calls that fit the opcodes, patch jumps that are there and cut
between instructions keep the listing well-formed.
-/

namespace TypedTemplate

/-! ## Calls -/

/-- A call to an emitter. -/
inductive Emitter.Call where
  | setSpan (span : Span)
  | op (op : Opcode)
  | opByte (op : Opcode) (b : UInt8)
  | opWord (op : Opcode) (w : UInt16)
  | opCount (op : Opcode) (n : Nat) (what : String)
  | getField (index : Nat) (name : String)
  | constant (c : Constant)
  | int (i : Int64)
  | float (x : Float)
  | str (s : String)
  | bool (b : Bool)
  | value (v : Value)
  | getLocal (slot : UInt8)
  | setLocal (slot : UInt8)
  | jump (op : Opcode)
  | patch (label : Nat)
  | truncate (offset : Nat)

/-- The emitter after a call. It goes on after a call that fails. -/
def Emitter.after (e : Emitter) : Call → Emitter
  | .setSpan span       => e.setSpan span
  | .op op              => e.op op
  | .opByte op b        => e.opByte op b
  | .opWord op w        => e.opWord op w
  | .opCount op n what  => (e.opCount op n what : Except CompilationError Unit × Emitter).2
  | .getField i name    => (e.emit (Emit.getField · i name)).2
  | .constant c         => (e.emit (Emit.constant · c)).2
  | .int i              => (e.emit (Emit.int · i)).2
  | .float x            => (e.emit (Emit.constant · (.float x))).2
  | .str s              => (e.emit (Emit.str · s)).2
  | .bool b             => (e.emit (Emit.value · (.bool b))).2
  | .value v            => (e.emit (Emit.value · v)).2
  | .getLocal slot      => (e.emit (Emit.instr · (.getLocal slot))).2
  | .setLocal slot      => (e.emit (Emit.instr · (.setLocal slot))).2
  | .jump op            => (e.jump op).2
  | .patch label        => (e.patch label : Except CompilationError Unit × Emitter).2
  | .truncate offset    => e.truncate offset

def Emitter.afterAll (e : Emitter) (calls : List Call) : Emitter := calls.foldl (·.after ·) e

/-! ## Drafts -/

/-- What an instruction adds: its opcode and operand, or nothing when a limit stops it, and the
constants. -/
abbrev Addition := Option (Opcode × Operand) × Pool

namespace Addition

def constant (p : Pool) (c : Constant) : Addition :=
  let (i, p) := p.add c
  (if i < UInt16.size then some ((Instr.constant (UInt16.ofNat i)).opcode, .constant i c) else none,
    p)

def int (p : Pool) (i : Int64) : Addition :=
  if i = 0 then (some (.pushZero, .none), p)
  else if i = 1 then (some (.pushOne, .none), p)
  else constant p (.int i)

def bool (p : Pool) (b : Bool) : Addition :=
  (some (if b then .pushTrue else .pushFalse, .none), p)

def getField (p : Pool) (index : Nat) (name : String) : Addition :=
  if index < UInt16.size then
    let (i, p) := p.add (.str name)
    (if i < UInt16.size then some (.getField, .field index i name) else none, p)
  else (none, p)

def value (p : Pool) : Value → Addition
  | .null     => (some (.pushNull, .none), p)
  | .bool b   => bool p b
  | .int i    => int p i
  | .uint u   => constant p (.uint u)
  | .float x  => constant p (.float x)
  | .str s    => constant p (.str s)
  | .object _ => (none, p)

end Addition

structure Draft where
  listing : List Written
  pool : Pool
  span : Span

namespace Draft

def start (pool : Pool) : Draft := ⟨[], pool, .point 1 1⟩

def size (d : Draft) : Nat := Listing.size d.listing

/-- Write an instruction at the end, on the line in force. -/
def add (d : Draft) : Addition → Draft
  | (some (op, operand), pool) =>
    { d with listing := d.listing ++ [⟨d.size, op, operand, d.span.line⟩], pool }
  | (none, pool) => { d with pool }

/-- Let the jump with its operand at `label` lead to the end, if that is not too far. -/
def patch (d : Draft) (label : Nat) : Draft :=
  if d.size < label + 2 + UInt16.size then
    { d with
      listing := d.listing.map fun w =>
        if w.offset + 1 = label then { w with operand := .target (some d.size) } else w }
  else d

def truncate (d : Draft) (offset : Nat) : Draft :=
  { d with listing := d.listing.filter (·.offset < offset) }

def after (d : Draft) : Emitter.Call → Draft
  | .setSpan span      => { d with span }
  | .op op             => d.add (some (op, .none), d.pool)
  | .opByte op b       => d.add (some (op, .byte b), d.pool)
  | .opWord op w       => d.add (some (op, .word w.toNat), d.pool)
  | .opCount op n _    => d.add (if n < UInt16.size then some (op, .word n) else none, d.pool)
  | .getField i name   => d.add (.getField d.pool i name)
  | .constant c        => d.add (.constant d.pool c)
  | .int i             => d.add (.int d.pool i)
  | .float x           => d.add (.constant d.pool (.float x))
  | .str s             => d.add (.constant d.pool (.str s))
  | .bool b            => d.add (.bool d.pool b)
  | .value v           => d.add (.value d.pool v)
  | .getLocal slot     => d.add (some (.getLocal, .byte slot), d.pool)
  | .setLocal slot     => d.add (some (.setLocal, .byte slot), d.pool)
  | .jump op           => d.add (some (op, .target none), d.pool)
  | .patch label       => d.patch label
  | .truncate offset   => d.truncate offset

def afterAll (d : Draft) (calls : List Emitter.Call) : Draft := calls.foldl (·.after ·) d

/-- An instruction starts at the offset, or the code ends there. -/
def Boundary (d : Draft) (offset : Nat) : Prop :=
  offset = d.size ∨ ∃ w ∈ d.listing, w.offset = offset

/-- The call is one that code may make: the opcode has the operand written, the jump to patch is
there, and no instruction is cut in two and no target that is left is cut off. -/
def Permits (d : Draft) : Emitter.Call → Prop
  | .op op           => op.operandLength = 0
  | .opByte op _     => op.operandLength = 1
  | .opWord op _     => op.operandLength = 2
  | .opCount op _ _  => op.operandLength = 2
  | .jump op         => op.operandLength = 2
  | .patch label     => ∃ w ∈ d.listing, w.offset + 1 = label ∧ ∃ to?, w.operand = .target to?
  | .truncate offset => d.Boundary offset ∧
    ∀ w ∈ d.listing, w.offset < offset → ∀ t, w.operand = .target (some t) → t ≤ offset
  | _                => True

/-- Each call is permitted where it is made. -/
def PermitsAll : Draft → List Emitter.Call → Prop
  | _, []         => True
  | d, call :: cs => d.Permits call ∧ (d.after call).PermitsAll cs

/-! ## Well-formed drafts -/

/-- What every permitted call keeps. -/
structure Formed (d : Draft) : Prop where
  laid : Listing.Laid 0 d.listing
  fits : ∀ w ∈ d.listing, w.Fits
  named : ∀ w ∈ d.listing, w.Named d.pool
  consistent : d.pool.Consistent
  lands : ∀ w ∈ d.listing, ∀ t, w.operand = .target (some t) → d.Boundary t

theorem formed_start {pool : Pool} (h : pool.Consistent) : (start pool).Formed :=
  ⟨trivial, by simp [start], by simp [start], h, by simp [start]⟩

variable {d : Draft}

/-- An addition that may be written to a draft. -/
structure Addable (d : Draft) (a : Addition) : Prop where
  grows : d.pool.GrowsTo a.2
  fits : ∀ op operand, a.1 = some (op, operand) →
    Written.Fits ⟨d.size, op, operand, d.span.line⟩ ∧
      Written.Named ⟨d.size, op, operand, d.span.line⟩ a.2
  fresh : ∀ op t, a.1 ≠ some (op, .target (some t))

theorem Boundary.append {l : List Written} {pool : Pool} {span : Span} {w : Written} {offset : Nat}
    (h : Boundary ⟨l, pool, span⟩ offset) (hw : w.offset = Listing.size l) (pool' : Pool)
    (span' : Span) : Boundary ⟨l ++ [w], pool', span'⟩ offset := by
  obtain rfl | ⟨v, hv, hoffset⟩ := h
  · exact .inr ⟨w, by simp, hw⟩
  · exact .inr ⟨v, by simp [hv], hoffset⟩

theorem Formed.add (h : d.Formed) {a : Addition} (ha : d.Addable a) : (d.add a).Formed := by
  obtain ⟨written, pool⟩ := a
  have hkept := fun w hw => (h.named w hw).within ha.grows.within
  cases written with
  | none => exact ⟨h.laid, h.fits, hkept, ha.grows.consistent h.consistent, h.lands⟩
  | some new =>
    obtain ⟨op, operand⟩ := new
    obtain ⟨hfits, hnamed⟩ := ha.fits op operand rfl
    refine ⟨?_, ?_, ?_, ha.grows.consistent h.consistent, ?_⟩
    · exact Listing.laid_append.2 ⟨h.laid, by simp [Listing.Laid, size]⟩
    · simpa [Draft.add, or_imp, forall_and] using ⟨h.fits, hfits⟩
    · simpa [Draft.add, or_imp, forall_and] using ⟨hkept, hnamed⟩
    · intro w hw t ht
      obtain hw | hw := List.mem_append.1 hw
      · exact (h.lands w hw t ht).append rfl pool d.span
      · obtain rfl := List.mem_singleton.1 hw
        exact absurd (congrArg (fun o => some (op, o)) ht) (ha.fresh op t)

/-- What a patch that is not too long makes of the listing. -/
theorem Formed.patch_split (h : d.Formed) {w : Written} (hw : w ∈ d.listing)
    (hnear : d.size < w.offset + 1 + 2 + UInt16.size) :
    ∃ a b, d.listing = a ++ w :: b ∧
      d.patch (w.offset + 1) =
        { d with listing := a ++ { w with operand := .target (some d.size) } :: b } := by
  obtain ⟨a, b, hsplit⟩ := List.append_of_mem hw
  refine ⟨a, b, hsplit, ?_⟩
  have hmap := Listing.map_at_of_laid (f := fun w => { w with operand := .target (some d.size) })
    (hsplit ▸ h.laid)
  simp only [Draft.patch, if_pos hnear, Nat.add_right_cancel_iff, hsplit, hmap]

theorem Formed.patch (h : d.Formed) {label : Nat} (hlabel : d.Permits (.patch label)) :
    (d.patch label).Formed := by
  obtain ⟨w, hw, rfl, to?, hto⟩ := hlabel
  by_cases hnear : d.size < w.offset + 1 + 2 + UInt16.size
  · obtain ⟨a, b, hsplit, hpatch⟩ := h.patch_split hw hnear
    obtain ⟨laid, fits, named, consistent, lands⟩ := h
    have hend : w.behind ≤ d.size := by simpa [size] using (laid.mem hw).2
    have hlength := (fits w hw).operandLength_target hto
    have hbehind : w.behind = w.offset + 1 + 2 := by simp [Written.behind, Opcode.length, hlength]
    rw [hpatch]
    have hboundary {offset : Nat} (ho : d.Boundary offset) :
        Boundary { d with listing := a ++ { w with operand := .target (some d.size) } :: b }
          offset := by
      obtain rfl | ⟨v, hv, rfl⟩ := ho
      · exact .inl (by simp [size, hsplit])
      · refine .inr ?_
        rw [hsplit, List.mem_append, List.mem_cons] at hv
        obtain hv | rfl | hv := hv
        · exact ⟨v, by simp [hv], rfl⟩
        · exact ⟨_, List.mem_append_right _ List.mem_cons_self, rfl⟩
        · exact ⟨v, by simp [hv], rfl⟩
    rw [hsplit] at laid fits named lands
    simp only [List.forall_mem_append, List.forall_mem_cons] at fits named lands
    refine ⟨?_, ?_, ?_, consistent, ?_⟩
    · rw [Listing.laid_append] at laid ⊢
      exact laid
    · simp only [List.forall_mem_append, List.forall_mem_cons]
      have hreach : d.size < w.behind + UInt16.size := hbehind ▸ hnear
      exact ⟨fits.1, ⟨hlength, hend, hreach⟩, fits.2.2⟩
    · simp only [List.forall_mem_append, List.forall_mem_cons]
      exact ⟨named.1, trivial, named.2.2⟩
    · simp only [List.forall_mem_append, List.forall_mem_cons]
      refine ⟨fun v hv t ht => hboundary (lands.1 v hv t ht), fun t ht => ?_,
        fun v hv t ht => hboundary (lands.2.2 v hv t ht)⟩
      obtain rfl : d.size = t := by simpa using ht
      exact hboundary (.inl rfl)
  · rwa [Draft.patch, if_neg hnear]

/-- At a boundary the listing comes apart. -/
theorem Formed.split (h : d.Formed) {offset : Nat} (hboundary : d.Boundary offset) :
    ∃ a b, d.listing = a ++ b ∧ Listing.size a = offset := by
  obtain rfl | ⟨w, hw, rfl⟩ := hboundary
  · exact ⟨d.listing, [], by simp, rfl⟩
  · obtain ⟨a, b, hsplit⟩ := List.append_of_mem hw
    have hlaid := h.laid
    rw [hsplit, Listing.laid_append] at hlaid
    exact ⟨a, w :: b, hsplit, by simpa using hlaid.2.1.symm⟩

/-- What is left when the code is cut off at a boundary. -/
theorem Formed.truncate_split (h : d.Formed) {offset : Nat} (hboundary : d.Boundary offset) :
    ∃ a b, d.listing = a ++ b ∧ Listing.size a = offset ∧
      d.truncate offset = { d with listing := a } := by
  obtain ⟨a, b, hsplit, rfl⟩ := h.split hboundary
  have hkept := Listing.filter_lt_of_laid (hsplit ▸ h.laid)
  exact ⟨a, b, hsplit, rfl, by simp only [truncate, hsplit, hkept]⟩

theorem Formed.truncate (h : d.Formed) {offset : Nat} (hoffset : d.Permits (.truncate offset)) :
    (d.truncate offset).Formed := by
  obtain ⟨hboundary, hlow⟩ := hoffset
  obtain ⟨a, b, hsplit, rfl, htruncate⟩ := h.truncate_split hboundary
  obtain ⟨laid, fits, named, consistent, lands⟩ := h
  rw [htruncate]
  rw [hsplit] at laid fits named
  have hlaid := Listing.laid_append.1 laid
  have hkept : ∀ w ∈ a, w ∈ d.listing := fun w hw => by simp [hsplit, hw]
  refine ⟨hlaid.1, fun w hw => fits w (by simp [hw]), fun w hw => named w (by simp [hw]),
    consistent, fun w hw t ht => ?_⟩
  have hbelow := (hlaid.1.mem hw).2
  have hle := hlow w (hkept w hw) (by have := w.offset_lt_behind; omega) t ht
  obtain rfl | hlt := Nat.eq_or_lt_of_le hle
  · exact .inl rfl
  · obtain rfl | ⟨v, hv, rfl⟩ := lands w (hkept w hw) t ht
    · simp only [size, hsplit, Listing.size_append] at hlt
      omega
    · -- an instruction below the cut is one of those kept
      rw [hsplit, List.mem_append] at hv
      obtain hv | hv := hv
      · exact .inr ⟨v, hv, rfl⟩
      · have := (hlaid.2.mem hv).1
        omega

/-! ## Additions -/

theorem addable_of_fits (op : Opcode) (operand : Operand)
    (hfits : Written.Fits ⟨d.size, op, operand, d.span.line⟩)
    (hnamed : Written.Named ⟨d.size, op, operand, d.span.line⟩ d.pool)
    (hfresh : ∀ t, operand ≠ .target (some t)) : d.Addable (some (op, operand), d.pool) := by
  refine ⟨Pool.GrowsTo.refl _, fun _ _ h => ?_, fun _ t h => ?_⟩
  · cases h
    exact ⟨hfits, hnamed⟩
  · cases h
    exact hfresh t rfl

theorem addable_none {pool : Pool} (h : d.pool.GrowsTo pool) : d.Addable (none, pool) :=
  ⟨h, nofun, nofun⟩

theorem addable_constant (c : Constant) : d.Addable (.constant d.pool c) := by
  have hgrows := Pool.growsTo_add d.pool c
  have hindex := Pool.index_add d.pool c
  unfold Addition.constant
  split
  rename_i i pool hadd
  rw [hadd] at hgrows hindex
  split
  · rename_i hi
    refine ⟨hgrows, fun _ _ h => ?_, fun _ _ h => by cases h⟩
    cases h
    exact ⟨⟨rfl, hi⟩, hindex⟩
  · exact addable_none hgrows

theorem addable_int (i : Int64) : d.Addable (.int d.pool i) := by
  unfold Addition.int
  split
  · exact addable_of_fits _ _ rfl trivial nofun
  · split
    · exact addable_of_fits _ _ rfl trivial nofun
    · exact addable_constant _

theorem addable_bool (b : Bool) : d.Addable (.bool d.pool b) := by
  cases b <;> exact addable_of_fits _ _ rfl trivial nofun

theorem addable_getField (index : Nat) (name : String) :
    d.Addable (.getField d.pool index name) := by
  have hgrows := Pool.growsTo_add d.pool (.str name)
  have hindex := Pool.index_add d.pool (.str name)
  unfold Addition.getField
  split
  · rename_i hi
    split
    rename_i i pool hadd
    rw [hadd] at hgrows hindex
    split
    · rename_i hn
      refine ⟨hgrows, fun _ _ h => ?_, fun _ _ h => by cases h⟩
      cases h
      exact ⟨⟨rfl, hi, hn⟩, hindex⟩
    · exact addable_none hgrows
  · exact addable_none (Pool.GrowsTo.refl _)

theorem addable_value (v : Value) : d.Addable (.value d.pool v) := by
  cases v with
  | null => exact addable_of_fits _ _ rfl trivial nofun
  | bool b => exact addable_bool b
  | int i => exact addable_int i
  | uint u => exact addable_constant _
  | float x => exact addable_constant _
  | str s => exact addable_constant _
  | object o => exact addable_none (Pool.GrowsTo.refl _)

theorem Formed.after (h : d.Formed) {call : Emitter.Call} (hcall : d.Permits call) :
    (d.after call).Formed := by
  cases call with
  | setSpan span => exact ⟨h.laid, h.fits, h.named, h.consistent, h.lands⟩
  | op op => exact h.add (addable_of_fits op .none hcall trivial nofun)
  | opByte op b => exact h.add (addable_of_fits op (.byte b) hcall trivial nofun)
  | opWord op w =>
    exact h.add (addable_of_fits op (.word w.toNat) ⟨hcall, w.toNat_lt⟩ trivial nofun)
  | opCount op n what =>
    by_cases hn : n < UInt16.size
    · rw [Draft.after, if_pos hn]
      exact h.add (addable_of_fits op (.word n) ⟨hcall, hn⟩ trivial nofun)
    · rw [Draft.after, if_neg hn]
      exact h.add (addable_none (Pool.GrowsTo.refl _))
  | getField index name => exact h.add (addable_getField index name)
  | constant c => exact h.add (addable_constant c)
  | int i => exact h.add (addable_int i)
  | float x => exact h.add (addable_constant _)
  | str s => exact h.add (addable_constant _)
  | bool b => exact h.add (addable_bool b)
  | value v => exact h.add (addable_value v)
  | getLocal slot => exact h.add (addable_of_fits .getLocal (.byte slot) rfl trivial nofun)
  | setLocal slot => exact h.add (addable_of_fits .setLocal (.byte slot) rfl trivial nofun)
  | jump op => exact h.add (addable_of_fits op (.target none) hcall trivial nofun)
  | patch label => exact h.patch hcall
  | truncate offset => exact h.truncate hcall

end Draft

end TypedTemplate
