-- SUMMARY: Actions that do not run out of constants, counted against what the pool still takes.
import TypedTemplate.Proofs.Compile.Infer

/-!
# Budgets

A pool takes as many constants as a word counts, and an interpolated string as many
pieces. An action affords what it does when it succeeds on every pool that takes the
constants of its budget, and it says how much of the budget is left. Text that a release
build keeps back is owed: its constant and its piece are paid for when it is pushed.
-/

namespace TypedTemplate

namespace Pool

theorem size_add_le (p : Pool) (k : Constant) : (p.add k).2.size ≤ p.size + 1 := by
  unfold add
  split <;> simp [size]

theorem add_le_size {p : Pool} (h : p.Consistent) (k : Constant) : (p.add k).1 ≤ p.size := by
  unfold add
  split
  · rename_i i hi
    obtain ⟨c, hc, -⟩ := h k.key i hi
    exact Nat.le_of_lt (Array.getElem?_eq_some_iff.1 hc).1
  · exact Nat.le_refl _

end Pool

namespace Emit

variable {α β : Type} {m : Emit α} {next : α → Emit β} {n : Nat} {P Q : α → Nat → Prop}
  {R : β → Nat → Prop} {span : Span}

/-- With a budget of `n` constants the action succeeds, and `P` holds of what it gives and of the
budget that is left. -/
def Affords (m : Emit α) (n : Nat) (P : α → Nat → Prop) : Prop :=
  ∀ pool : Pool, pool.Consistent → pool.size + n ≤ UInt16.size →
    ∃ a code pool' k, m pool = ⟨.ok a, code, pool'⟩ ∧ pool'.Consistent ∧
      pool'.size + k ≤ pool.size + n ∧ P a k

theorem Affords.imp (h : m.Affords n P) (hPQ : ∀ a k, P a k → Q a k) : m.Affords n Q := by
  intro pool hpool hsize
  obtain ⟨a, code, pool', k, hm, hpool', hsize', hP⟩ := h pool hpool hsize
  exact ⟨a, code, pool', k, hm, hpool', hsize', hPQ a k hP⟩

/-- More than is needed does no harm. -/
theorem Affords.of_le {k : Nat} (h : m.Affords n P) (hle : n ≤ k) : m.Affords k P := by
  intro pool hpool hsize
  obtain ⟨a, code, pool', left, hm, hpool', hsize', hP⟩ := h pool hpool (by omega)
  exact ⟨a, code, pool', left, hm, hpool', by omega, hP⟩

theorem affords_pure {a : α} (h : P a n) : (pure a : Emit α).Affords n P :=
  fun pool hpool _ => ⟨a, [], pool, n, rfl, hpool, Nat.le_refl _, h⟩

theorem Affords.bind (hm : m.Affords n P) (hnext : ∀ a k, P a k → (next a).Affords k R) :
    (m >>= next).Affords n R := by
  intro pool hpool hsize
  obtain ⟨a, code, pool₁, k, hm, hpool₁, hsize₁, hP⟩ := hm pool hpool hsize
  obtain ⟨b, code', pool₂, l, hnext, hpool₂, hsize₂, hR⟩ :=
    hnext a k hP pool₁ hpool₁ (Nat.le_trans hsize₁ hsize)
  exact ⟨b, code ++ code', pool₂, l, bind_ok.2 ⟨a, code, pool₁, code', hm, hnext, rfl⟩, hpool₂,
    Nat.le_trans hsize₂ hsize₁, hR⟩

theorem Affords.silently (h : m.Affords n P) : m.silently.Affords n P := by
  intro pool hpool hsize
  obtain ⟨a, code, pool', k, hm, hpool', hsize', hP⟩ := h pool hpool hsize
  exact ⟨a, [], pool', k, silently_ok.2 ⟨rfl, code, hm⟩, hpool', hsize', hP⟩

theorem affords_instrs {is : List Instr} : (instrs span is).Affords n fun _ k => k = n :=
  fun pool hpool _ => ⟨⟨⟩, _, pool, n, rfl, hpool, Nat.le_refl _, rfl⟩

theorem affords_instr {i : Instr} : (instr span i).Affords n fun _ k => k = n :=
  fun pool hpool _ => ⟨⟨⟩, _, pool, n, rfl, hpool, Nat.le_refl _, rfl⟩

theorem affords_lift {a : α} : (lift span (.ok a)).Affords n fun b k => b = a ∧ k = n :=
  affords_pure ⟨rfl, rfl⟩

theorem affords_word {i : Nat} {message : String} (hi : i < UInt16.size) :
    (word span i message).Affords n fun _ k => k = n := by
  unfold word
  rw [if_pos hi]
  exact affords_pure rfl

/-- A constant costs at most one. -/
theorem affords_constantIndex (k : Constant) :
    (constantIndex span k).Affords (n + 1) fun _ left => left = n := by
  intro pool hpool hsize
  have hlt : (pool.add k).1 < UInt16.size := by
    have hle := Pool.add_le_size hpool k
    omega
  refine ⟨_, [], (pool.add k).2, n, constantIndex_ok.2 ⟨hlt, rfl, rfl, rfl⟩,
    Pool.consistent_add hpool k, ?_, rfl⟩
  have hle := pool.size_add_le k
  omega

theorem affords_constant (k : Constant) :
    (constant span k).Affords (n + 1) fun _ left => left = n :=
  (affords_constantIndex k).bind fun _ _ hleft => hleft ▸ affords_instr

theorem affords_getField {i : Nat} {name : String} (hi : i < UInt16.size) :
    (getField span i name).Affords (n + 1) fun _ left => left = n := by
  refine (affords_word hi).bind fun w k hk => ?_
  subst hk
  refine (affords_constantIndex _).bind fun _ k hk => ?_
  subst hk
  exact affords_instr

/-- A jump over code that is never longer than a word counts. -/
theorem affords_jumpOver {jump : UInt16 → Instr} {more bytes : Nat} (h : m.Affords n P)
    (hshort : ∀ pool a code pool', m pool = ⟨.ok a, code, pool'⟩ → code.size ≤ bytes)
    (hbytes : bytes + more < UInt16.size) : (jumpOver span jump more m).Affords n P := by
  intro pool hpool hsize
  obtain ⟨a, code, pool', k, hm, hpool', hsize', hP⟩ := h pool hpool hsize
  have hcode : code.size + more < UInt16.size :=
    Nat.lt_of_le_of_lt (Nat.add_le_add_right (hshort _ _ _ _ hm) more) hbytes
  exact ⟨a, _, pool', k, jumpOver_ok.2 ⟨code, hm, hcode, rfl⟩, hpool', hsize', hP⟩

end Emit

/-! ## Pieces -/

namespace Pieces

variable {p : Pieces} {n count : Nat} {span : Span}

/-- What is owed for text that is pending. -/
def owed (p : Pieces) : Nat := if p.pending.isSome then 1 else 0

/-- With `left` constants left, `n` remain when what is owed is paid for, and then there are at most
`count` pieces. -/
def Within (n count : Nat) (p : Pieces) (left : Nat) : Prop :=
  n + p.owed ≤ left ∧ p.count + p.owed ≤ count

theorem affords_pushText {left : Nat} (s : String) (h : p.Within (n + 1) count left) :
    (p.pushText s).Affords left (Within n (count + 1)) := by
  obtain ⟨hleft, hcount⟩ := h
  refine ((Emit.affords_constant (.str s)).bind fun _ k hk => ?_).of_le
    (by omega : n + p.owed + 1 ≤ left)
  have howed : Pieces.owed { p with count := p.count + 1 } = p.owed := rfl
  refine Emit.affords_pure ⟨Nat.le_of_eq hk.symm, ?_⟩
  rw [howed]
  change p.count + 1 + p.owed ≤ count + 1
  omega

theorem affords_flush {left : Nat} (h : p.Within n count left) :
    p.flush.Affords left fun q k => q.pending = none ∧ n ≤ k ∧ q.count ≤ count := by
  obtain ⟨hleft, hcount⟩ := h
  unfold flush
  cases hpending : p.pending with
  | none =>
    simp only [owed, hpending, Option.isSome_none] at hleft hcount
    exact Emit.affords_pure ⟨hpending, hleft, hcount⟩
  | some s =>
    simp only [owed, hpending, Option.isSome_some, if_true] at hleft hcount
    refine ((Emit.affords_constant (.str s)).bind fun _ k hk => ?_).of_le hleft
    exact Emit.affords_pure ⟨rfl, Nat.le_of_eq hk.symm, hcount⟩

theorem affords_addText {left : Nat} (keep : Bool) (s : String) (h : p.Within (n + 1) count left) :
    (p.addText keep s).Affords left (Within n (count + 1)) := by
  cases keep with
  | false => exact affords_pushText s h
  | true =>
    obtain ⟨hleft, hcount⟩ := h
    have howed : Pieces.owed { p with pending := some (p.pending.getD "" ++ s) } = 1 := rfl
    refine Emit.affords_pure ⟨?_, ?_⟩
    · rw [howed]
      omega
    · rw [howed]
      exact Nat.add_le_add_right (Nat.le_trans (Nat.le_add_right _ _) hcount) 1

/-- Pieces within what a word counts are joined, for one constant more. -/
theorem affords_join {left : Nat} (h : p.Within (n + 1) count left) (hcount : count < UInt16.size) :
    (p.join span).Affords left fun t k => t = .str ∧ n ≤ k := by
  refine (affords_flush h).bind fun q k hq => ?_
  obtain ⟨-, hk, hq⟩ := hq
  have hend : ∀ m : Emit PUnit, m.Affords k (fun _ left => n ≤ left) →
      (m >>= fun _ => pure Ty.str).Affords k fun t left => t = .str ∧ n ≤ left :=
    fun m hm => hm.bind fun _ _ hleft => Emit.affords_pure ⟨rfl, hleft⟩
  split
  · refine hend _ (((Emit.affords_constant _).imp fun _ _ hleft => ?_).of_le hk)
    exact Nat.le_of_eq hleft.symm
  · split
    · exact hend (pure ⟨⟩) (Emit.affords_pure (Nat.le_of_succ_le hk))
    · refine hend _ ((Emit.affords_word (Nat.lt_of_le_of_lt hq hcount)).bind fun w left hleft => ?_)
      subst hleft
      exact Emit.affords_instr.imp fun _ _ hleft => hleft ▸ Nat.le_of_succ_le hk

end Pieces

/-! ## Results -/

/-- A string that is affordable is returned. -/
theorem Body.exists_ret_str {c : Context} {value : Expr} {n : Nat}
    (h : (c.infer value).Affords n fun t _ => t = .str) (hn : n ≤ UInt16.size) (span : Span) :
    ∃ code pool, Body.ret c .str value span .empty = ⟨.ok ⟨⟩, code, pool⟩ := by
  have hret : (Body.ret c .str value span).Affords n fun _ _ => True := by
    refine h.bind fun t k ht => ?_
    subst ht
    exact Emit.affords_lift.bind fun is k _ => Emit.affords_instrs.imp fun _ _ _ => trivial
  have hroom : Pool.empty.size + n ≤ UInt16.size := (Nat.zero_add n).symm ▸ hn
  obtain ⟨_, code, pool, _, hok, -⟩ := hret .empty Pool.consistent_empty hroom
  exact ⟨code, pool, hok⟩

end TypedTemplate
