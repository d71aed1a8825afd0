-- SUMMARY: Calling compiled functions.
import TypedTemplate.Compile.Unit
import TypedTemplate.Machine.Step

/-!
# Calls

A call checks the arguments and then runs the code from its start. Jumps only go
forward, so every call ends.
-/

namespace TypedTemplate

namespace Chunk

/-- The offset of the operand that the end of the code cuts off, for an instruction at `offset`.
Only `getField` has a second operand, two bytes behind the first. -/
def cutOperand (c : Chunk) (offset : Nat) (op : Opcode) : Nat :=
  if op = .getField ∧ offset + 3 ≤ c.size then offset + 3 else offset + 1

/-- The instruction at `offset` and the offset after it. -/
def fetch (c : Chunk) (offset : Nat) : Except RuntimeError (Instr × Nat) :=
  match c.opcodeAt? offset with
  | none    => .error (.malformedBytecode offset "invalid opcode or missing return")
  | some op =>
    match c.instr offset op with
    | some i => .ok (i, offset + op.length)
    | none   => .error (.malformedBytecode (c.cutOperand offset op) "truncated operand")

theorem lt_of_fetch {c : Chunk} {offset next : Nat} {i : Instr}
    (h : c.fetch offset = .ok (i, next)) : offset < c.size ∧ offset < next := by
  unfold fetch at h
  split at h
  · exact nomatch h
  · rename_i op hop
    have hlt : offset < c.size := by
      simp only [opcodeAt?, byteAt?] at hop
      by_cases hs : offset < c.size
      · exact hs
      · have : c.cells[offset]? = none := Array.getElem?_eq_none (by simpa [size] using hs)
        simp [this] at hop
    split at h
    · injection h with h
      injection h with _ h
      exact ⟨hlt, by simp only [Opcode.length] at h; omega⟩
    · exact nomatch h

/-- Where a move leads from the instruction before `next`, or the result of the call. -/
def follow (c : Chunk) (next : Nat) : Move → Except RuntimeError (Value ⊕ (Nat × Frame))
  | .ret v    => .ok (.inl v)
  | .next f   => .ok (.inr (next, f))
  | .skip f d =>
    if next + d ≤ c.size then .ok (.inr (next + d, f))
    else .error (.malformedBytecode next ("jump past end to " ++ Number.decimal (next + d)))

theorem le_of_follow {c : Chunk} {next target : Nat} {m : Move} {f : Frame}
    (h : c.follow next m = .ok (.inr (target, f))) : next ≤ target := by
  unfold follow at h
  split at h
  · exact nomatch h
  · injection h with h
    injection h with h
    injection h with h
    omega
  · split at h
    · injection h with h
      injection h with h
      injection h with h
      omega
    · exact nomatch h

/-- Run the instruction at `offset`. -/
def step (c : Chunk) (pool : Pool) (offset : Nat) (f : Frame) :
    Except RuntimeError (Value ⊕ (Nat × Frame)) :=
  match c.fetch offset with
  | .error e      => .error e
  | .ok (i, next) =>
    match i.step ⟨pool, offset, next, (c.lineAt? offset).getD 0⟩ f with
    | .error e => .error e
    | .ok m    => c.follow next m

theorem lt_of_step {c : Chunk} {pool : Pool} {offset target : Nat} {f f' : Frame}
    (h : c.step pool offset f = .ok (.inr (target, f'))) :
    offset < c.size ∧ offset < target := by
  unfold step at h
  split at h
  · exact nomatch h
  · rename_i hfetch
    split at h
    · exact nomatch h
    · have := lt_of_fetch hfetch
      have := le_of_follow h
      omega

/-- Run the code from `offset` on. -/
def run (c : Chunk) (pool : Pool) (offset : Nat) (f : Frame) : Except RuntimeError Value :=
  match h : c.step pool offset f with
  | .error e              => .error e
  | .ok (.inl v)          => .ok v
  | .ok (.inr (target, f')) =>
    have := lt_of_step h
    c.run pool target f'
termination_by c.size - offset
decreasing_by omega

end Chunk

namespace CompiledFunction

/-- The first argument that is not of its declared type. -/
def firstMismatch? (index : Nat) : List ValueType → List Value → Option RuntimeError
  | t :: ts, v :: vs =>
    if t.accepts v then firstMismatch? (index + 1) ts vs
    else some (.argumentMismatch index t.text v.typeName)
  | _, _ => none

/-- Check the arguments and run the function. -/
def call (f : CompiledFunction) (pool : Pool) (args : List Value) : Except RuntimeError Value :=
  if args.length ≠ f.params.length then .error (.argumentCount f.params.length args.length)
  else match firstMismatch? 0 f.params args with
    | some e => .error e
    | none   => f.chunk.run pool 0 (.start args f.localCount)

end CompiledFunction

end TypedTemplate
