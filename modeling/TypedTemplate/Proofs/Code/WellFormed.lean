-- SUMMARY: Well-formed code: instructions up to its end, jumps to instructions, operands that name something.
import Mathlib.Data.List.Induction
import TypedTemplate.Proofs.Code.Layout

/-!
# Well-formed code

A chunk is well formed when reading it from its start meets only whole instructions, every
jump leads to one of them, every operand names what it should, and control comes to a
return before it comes to the end. A chunk is written from a list of instructions, and
that list shows all of this: a jump is good when what it skips is a part of what follows
it, and more follows after that.
-/

namespace TypedTemplate

/-! ## Instructions -/

namespace Instr

/-- The number of bytes that a jump skips. -/
def distance? : Instr → Option Nat
  | .jump d | .jumpIfFalse d | .jumpIfNotNull d => some d.toNat
  | _                                           => none

/-- Control may go on behind the instruction. -/
def FallsThrough : Instr → Prop
  | .jump _ | .ret => False
  | _              => True

/-- The operands name a constant of the pool, a string where a field is read, and one of the first
`slots` locals. -/
def Refers (pool : Pool) (slots : Nat) : Instr → Prop
  | .constant i                    => (pool.get? i.toNat).isSome
  | .getField _ n                  => (pool.str? n.toNat).isSome
  | .getLocal slot | .setLocal slot => slot.toNat < slots
  | _                              => True

theorem Refers.mono {pool : Pool} {slots slots' : Nat} {i : Instr} (h : i.Refers pool slots)
    (hslots : slots ≤ slots') : i.Refers pool slots' := by
  cases i with
  | getLocal slot => exact Nat.lt_of_lt_of_le h hslots
  | setLocal slot => exact Nat.lt_of_lt_of_le h hslots
  | _ => exact h

theorem size_eq (i : Instr) : i.size = i.opcode.length := by
  simp [size, bytes, Opcode.length, length_operands, Nat.add_comm]

theorem size_pos (i : Instr) : 0 < i.size := Nat.succ_pos _

end Instr

/-! ## Chunks -/

namespace Chunk

variable (c : Chunk)

/-- The offsets met when the code is read from its start, each behind the operands of the opcode
before. -/
inductive Boundary : Nat → Prop
  | start : Boundary 0
  | next {offset : Nat} {op : Opcode} :
    Boundary offset → c.opcodeAt? offset = some op → Boundary (offset + op.length)

/-- The offsets that control may come to. -/
inductive Reaches : Nat → Prop
  | start : Reaches 0
  | next {offset next : Nat} {i : Instr} :
    Reaches offset → c.fetch offset = .ok (i, next) → i.FallsThrough → Reaches next
  | jump {offset next distance : Nat} {i : Instr} :
    Reaches offset → c.fetch offset = .ok (i, next) → i.distance? = some distance →
    Reaches (next + distance)

/-- The code is good to run over a pool with a number of locals. -/
structure WellFormed (pool : Pool) (slots : Nat) : Prop where
  /-- The last operand ends with the code. -/
  ends : c.Boundary c.size
  /-- Everywhere before the end stands a known opcode with its operands. -/
  decodes : ∀ offset, c.Boundary offset → offset < c.size → ∃ op i,
    c.opcodeAt? offset = some op ∧ c.fetch offset = .ok (i, offset + op.length) ∧
      offset + op.length ≤ c.size
  jumps : ∀ offset i next distance, c.Boundary offset → c.fetch offset = .ok (i, next) →
    i.distance? = some distance → c.Boundary (next + distance) ∧ next + distance < c.size
  operands : ∀ offset i next, c.Boundary offset → c.fetch offset = .ok (i, next) →
    i.Refers pool slots
  /-- There are as many lines as bytes. -/
  lines : ∀ offset, (c.lineAt? offset).isSome = (c.byteAt? offset).isSome
  returns : ¬ c.Reaches c.size

end Chunk

/-! ## Code -/

namespace Code

variable {code a b rest : Code} {p : PlacedInstr} {pool : Pool} {slots slots' : Nat}

/-- Every jump leads to an instruction of the code. -/
def JumpsInside : Code → Prop
  | []        => True
  | p :: post =>
    (∀ distance, p.instr.distance? = some distance →
      ∃ skipped rest, post = skipped ++ rest ∧ Code.size skipped = distance ∧ rest ≠ []) ∧
    JumpsInside post

/-- Whatever code follows, every jump leads to an instruction. -/
def Lands (code : Code) : Prop := ∀ rest : Code, rest ≠ [] → rest.JumpsInside → (code ++ rest).JumpsInside

/-- All operands name what they should. -/
def Refers (pool : Pool) (slots : Nat) (code : Code) : Prop := ∀ p ∈ code, p.instr.Refers pool slots

/-- The code begins with a block whose jumps stay inside and whose last instruction returns. -/
def Returns (code : Code) : Prop :=
  ∃ (before tail : Code) (p : PlacedInstr),
    p.instr = .ret ∧ code = before ++ p :: tail ∧ Code.JumpsInside (before ++ [p])

theorem jumpsInside_cons (hp : p.instr.distance? = none) (h : code.JumpsInside) :
    JumpsInside (p :: code) := by
  refine ⟨fun distance hdistance => ?_, h⟩
  simp [hp] at hdistance

theorem JumpsInside.append (ha : a.JumpsInside) (hb : b.JumpsInside) : (a ++ b).JumpsInside := by
  induction a with
  | nil => exact hb
  | cons p a ih =>
    obtain ⟨hp, ha⟩ := ha
    refine ⟨fun distance hdistance => ?_, ih ha⟩
    obtain ⟨skipped, rest, rfl, hsize, hrest⟩ := hp distance hdistance
    exact ⟨skipped, rest ++ b, List.append_assoc _ _ _, hsize, by simp [hrest]⟩

theorem JumpsInside.of_append (h : (a ++ b).JumpsInside) : b.JumpsInside := by
  induction a with
  | nil => exact h
  | cons p a ih => exact ih h.2

theorem lands_nil : Lands [] := fun _ _ h => h

theorem Lands.append (ha : a.Lands) (hb : b.Lands) : (a ++ b).Lands := by
  intro rest hne hrest
  rw [List.append_assoc]
  exact ha (b ++ rest) (by simp [hne]) (hb rest hne hrest)

theorem lands_single (hp : p.instr.distance? = none) : Lands [p] :=
  fun _ _ h => jumpsInside_cons hp h

/-- A jump over code lands behind it. -/
theorem Lands.over (h : a.Lands) (hp : p.instr.distance? = some (Code.size a)) :
    Lands (p :: a) := by
  intro rest hne hrest
  refine ⟨fun distance hdistance => ?_, h rest hne hrest⟩
  refine ⟨a, rest, rfl, ?_, hne⟩
  exact Option.some.inj (hp.symm.trans hdistance)

/-- Of two pieces of code one is skipped: the first by a jump before it, to behind the jump that
skips the second. -/
theorem Lands.either {q : PlacedInstr} (ha : a.Lands) (hb : b.Lands)
    (hp : p.instr.distance? = some (Code.size a + q.instr.size))
    (hq : q.instr.distance? = some (Code.size b)) : Lands (p :: a ++ q :: b) := by
  have hskip : Code.Lands (q :: b) := hb.over hq
  intro rest hne hrest
  have hall := ha.append hskip rest hne hrest
  rw [List.cons_append, List.cons_append]
  refine ⟨fun distance hdistance => ?_, hall⟩
  refine ⟨a ++ [q], b ++ rest, by simp, ?_, by simp [hne]⟩
  rw [size_append, size_cons, size_nil, Nat.add_zero]
  exact Option.some.inj (hp.symm.trans hdistance)

theorem Refers.append (ha : a.Refers pool slots) (hb : b.Refers pool slots) :
    (a ++ b).Refers pool slots := by
  intro p hp
  rcases List.mem_append.1 hp with hp | hp
  · exact ha p hp
  · exact hb p hp

theorem refers_cons :
    Code.Refers pool slots (p :: code) ↔ p.instr.Refers pool slots ∧ code.Refers pool slots :=
  List.forall_mem_cons

theorem Refers.mono (h : code.Refers pool slots) (hslots : slots ≤ slots') :
    code.Refers pool slots' :=
  fun p hp => (h p hp).mono hslots

end Code

/-! ## Written code -/

namespace Chunk

variable {code pre post : Code} {p : PlacedInstr} {pool : Pool} {slots offset : Nat}

theorem fetch_toChunk (pre post : Code) (p : PlacedInstr) :
    (Code.toChunk (pre ++ p :: post)).fetch (Code.size pre) =
      .ok (p.instr, Code.size pre + p.instr.size) :=
  (holdsAt_toChunk pre post p).fetch

theorem opcodeAt?_toChunk (pre post : Code) (p : PlacedInstr) :
    (Code.toChunk (pre ++ p :: post)).opcodeAt? (Code.size pre) = some p.instr.opcode :=
  (holdsAt_toChunk pre post p).opcodeAt?

theorem opcodeAt?_size (c : Chunk) : c.opcodeAt? c.size = none := by
  have hcell : c.cells[c.size]? = none := Array.getElem?_eq_none (Nat.le_refl _)
  simp [opcodeAt?, byteAt?, hcell]

/-- Reading written code meets the starts of its instructions, and its end. -/
theorem boundary_toChunk (code : Code) (offset : Nat) :
    (Code.toChunk code).Boundary offset ↔
      ∃ pre post, code = pre ++ post ∧ offset = Code.size pre := by
  constructor
  · intro h
    induction h with
    | start => exact ⟨[], code, rfl, rfl⟩
    | @next offset op _ hop ih =>
      obtain ⟨pre, post, rfl, rfl⟩ := ih
      cases post with
      | nil =>
        have hend := opcodeAt?_size (Code.toChunk (pre ++ []))
        rw [size_toChunk, List.append_nil] at hend
        simp [hend] at hop
      | cons p post =>
        rw [opcodeAt?_toChunk] at hop
        obtain rfl := Option.some.inj hop
        refine ⟨pre ++ [p], post, by simp, ?_⟩
        simp [Instr.size_eq]
  · rintro ⟨pre, post, rfl, rfl⟩
    induction pre using List.reverseRecOn generalizing post with
    | nil => exact .start
    | append_singleton pre p ih =>
      have hpre := ih (p :: post)
      have hop := opcodeAt?_toChunk pre post p
      rw [List.append_assoc, Code.size_append, Code.size_cons, Code.size_nil, Nat.add_zero,
        Instr.size_eq]
      exact hpre.next hop

/-- Inside written code a boundary is the start of an instruction. -/
theorem exists_of_boundary (h : (Code.toChunk code).Boundary offset) (hlt : offset < Code.size code) :
    ∃ pre p post, code = pre ++ p :: post ∧ offset = Code.size pre := by
  obtain ⟨pre, post, rfl, rfl⟩ := (boundary_toChunk code offset).1 h
  cases post with
  | nil => simp at hlt
  | cons p post => exact ⟨pre, p, post, rfl, rfl⟩

theorem eq_of_fetch_toChunk {pre post : Code} {i : Instr} {next : Nat}
    (h : (Code.toChunk (pre ++ p :: post)).fetch (Code.size pre) = .ok (i, next)) :
    i = p.instr ∧ next = Code.size (pre ++ [p]) := by
  rw [fetch_toChunk] at h
  obtain ⟨rfl, rfl⟩ := Prod.mk.inj (Except.ok.inj h)
  exact ⟨rfl, by simp⟩

/-- What is fetched at a boundary is the instruction that starts there. -/
theorem exists_of_fetch {i : Instr} {next : Nat} (h : (Code.toChunk code).Boundary offset)
    (hfetch : (Code.toChunk code).fetch offset = .ok (i, next)) :
    ∃ pre p post, code = pre ++ p :: post ∧ offset = Code.size pre ∧ i = p.instr ∧
      next = Code.size (pre ++ [p]) := by
  have hlt := (lt_of_fetch hfetch).1
  rw [size_toChunk] at hlt
  obtain ⟨pre, p, post, rfl, rfl⟩ := exists_of_boundary h hlt
  exact ⟨pre, p, post, rfl, rfl, eq_of_fetch_toChunk hfetch⟩

/-- Control stays in the block that ends with the first return. -/
theorem exists_of_reaches {before tail : Code} (hret : p.instr = .ret)
    (hjumps : Code.JumpsInside (before ++ [p]))
    (h : (Code.toChunk (before ++ p :: tail)).Reaches offset) :
    ∃ pre q post, before ++ [p] = pre ++ q :: post ∧ offset = Code.size pre := by
  -- a non-empty rest of the block begins with an instruction of the block
  have hrest : ∀ pre post, before ++ [p] = pre ++ post → post ≠ [] →
      ∃ pre' q post', before ++ [p] = pre' ++ q :: post' ∧ Code.size pre = Code.size pre' := by
    intro pre post hsplit hne
    obtain ⟨q, post, rfl⟩ := List.exists_cons_of_ne_nil hne
    exact ⟨pre, q, post, hsplit, rfl⟩
  have hfetched : ∀ {pre post : Code} {q : PlacedInstr} {i : Instr} {next : Nat},
      before ++ [p] = pre ++ q :: post →
      (Code.toChunk (before ++ p :: tail)).fetch (Code.size pre) = .ok (i, next) →
      i = q.instr ∧ next = Code.size (pre ++ [q]) := by
    intro pre post q i next hsplit hfetch
    have hcode : before ++ p :: tail = pre ++ q :: (post ++ tail) := by
      rw [← List.singleton_append, ← List.append_assoc, hsplit]
      simp
    exact eq_of_fetch_toChunk (hcode ▸ hfetch)
  induction h with
  | start => exact hrest [] (before ++ [p]) rfl (by simp)
  | @next offset next i _ hfetch hfalls ih =>
    obtain ⟨pre, q, post, hsplit, rfl⟩ := ih
    obtain ⟨rfl, rfl⟩ := hfetched hsplit hfetch
    refine hrest (pre ++ [q]) post (by simp [hsplit]) ?_
    rintro rfl
    obtain ⟨-, hlast⟩ := List.append_inj' hsplit rfl
    obtain rfl := List.singleton_inj.1 hlast
    rw [hret] at hfalls
    exact hfalls
  | @jump offset next distance i _ hfetch hdistance ih =>
    obtain ⟨pre, q, post, hsplit, rfl⟩ := ih
    obtain ⟨rfl, rfl⟩ := hfetched hsplit hfetch
    have hafter : Code.JumpsInside (q :: post) := Code.JumpsInside.of_append (hsplit ▸ hjumps)
    obtain ⟨skipped, rest, rfl, rfl, hne⟩ := hafter.1 distance hdistance
    rw [← Code.size_append]
    exact hrest (pre ++ [q] ++ skipped) rest (by simp [hsplit]) hne

/-- Code whose jumps stay inside, whose operands name something and that returns is well formed when
it is written. -/
theorem wellFormed_toChunk (hjumps : code.JumpsInside) (hrefers : code.Refers pool slots)
    (hreturns : code.Returns) : (Code.toChunk code).WellFormed pool slots where
  ends := by
    rw [size_toChunk]
    exact (boundary_toChunk code _).2 ⟨code, [], by simp, rfl⟩
  decodes offset hboundary hlt := by
    rw [size_toChunk] at hlt ⊢
    obtain ⟨pre, p, post, rfl, rfl⟩ := exists_of_boundary hboundary hlt
    refine ⟨p.instr.opcode, p.instr, opcodeAt?_toChunk pre post p, ?_, ?_⟩
    · rw [fetch_toChunk, Instr.size_eq]
    · rw [← Instr.size_eq, Code.size_append, Code.size_cons]
      omega
  jumps offset i next distance hboundary hfetch hdistance := by
    obtain ⟨pre, p, post, rfl, rfl, rfl, rfl⟩ := exists_of_fetch hboundary hfetch
    obtain ⟨skipped, rest, rfl, rfl, hne⟩ := hjumps.of_append.1 distance hdistance
    obtain ⟨q, rest, rfl⟩ := List.exists_cons_of_ne_nil hne
    rw [← Code.size_append, size_toChunk]
    refine ⟨(boundary_toChunk _ _).2 ⟨pre ++ [p] ++ skipped, q :: rest, by simp, rfl⟩, ?_⟩
    have hpos := q.instr.size_pos
    simp only [Code.size_append, Code.size_cons, Code.size_nil]
    omega
  operands offset i next hboundary hfetch := by
    obtain ⟨pre, p, post, rfl, rfl, rfl, rfl⟩ := exists_of_fetch hboundary hfetch
    exact hrefers p (by simp)
  lines offset := by
    unfold lineAt? byteAt?
    rw [Option.isSome_map, Option.isSome_map]
  returns hreaches := by
    obtain ⟨before, tail, p, hret, rfl, hblock⟩ := hreturns
    obtain ⟨pre, q, post, hsplit, hsize⟩ := exists_of_reaches hret hblock hreaches
    have hblocksize := congrArg Code.size hsplit
    have hpos := q.instr.size_pos
    simp only [size_toChunk, Code.size_append, Code.size_cons, Code.size_nil] at hblocksize hsize
    omega

end Chunk

end TypedTemplate
