-- SUMMARY: Constants added to a pool one after another, and what each index leads back to.
import TypedTemplate.Proofs.Code.Constants

/-!
# The history of a pool

All functions of a unit add their constants to one pool. Whatever they add before and after, the
index that was given for a constant leads back to the first one added with its key. That is the
constant itself, unless it is a float zero: the first zero may have had the other sign.
-/

namespace TypedTemplate

/-! ## One key -/

namespace Constant

/-- A float zero of either sign. -/
def isZero : Constant → Bool
  | .float x => x == 0
  | _        => false

theorem isNaN_eq_false_of_beq_zero {x : Float} (h : (x == 0) = true) : x.isNaN = false := by
  cases hnan : x.isNaN with
  | false => rfl
  | true =>
    obtain rfl : x = Float.ofBits 0x7FF8000000000000 := eq_of_toBits_eq (toBits_of_isNaN hnan)
    exact absurd h (by decide)

theorem key_of_isZero {c : Constant} (h : c.isZero = true) : c.key = .float 0 := by
  cases c with
  | float x =>
    have hzero : (x == 0) = true := h
    simp only [key, floatKey, isNaN_eq_false_of_beq_zero hzero, hzero, if_true,
      Bool.false_eq_true, if_false]
  | _ => cases h

theorem key_eq_iff {c d : Constant} :
    c.key = d.key ↔ c = d ∨ c.isZero = true ∧ d.isZero = true := by
  constructor
  · intro h
    cases c with
    | float x =>
      cases d with
      | float y =>
        have hkey : floatKey x = floatKey y := by simpa [key] using h
        exact (eq_or_zero_of_floatKey hkey).imp_left (congrArg _)
      | _ => simp [key] at h
    | _ => cases d <;> simp_all [key]
  · rintro (rfl | ⟨hc, hd⟩)
    · rfl
    · rw [key_of_isZero hc, key_of_isZero hd]

theorem find?_key_of_isZero {c : Constant} (hc : c.isZero = true) (cs : List Constant) :
    cs.find? (·.key = c.key) = cs.find? isZero := by
  congr 1
  funext d
  rw [Bool.eq_iff_iff, decide_eq_true_eq, key_eq_iff]
  exact ⟨fun h => h.elim (fun heq => heq ▸ hc) And.left, fun hd => .inr ⟨hd, hc⟩⟩

/-- The first constant with the key of `c` is `c`, unless a zero of the other sign came first. -/
theorem find?_key_append (before : List Constant) (c : Constant) :
    (before ++ [c]).find? (·.key = c.key) = some c ↔
      ∀ d, c.isZero = true → before.find? isZero = some d → d = c := by
  rw [List.find?_append]
  cases hbefore : before.find? (·.key = c.key) with
  | none =>
    refine iff_of_true (by simp) fun d hc hd => ?_
    rw [← find?_key_of_isZero hc, hbefore] at hd
    cases hd
  | some d =>
    rw [Option.some_or, Option.some_inj]
    constructor
    · rintro rfl d' hd hd'
      rw [← find?_key_of_isZero hd, hbefore] at hd'
      exact (Option.some.inj hd').symm
    · intro h
      have hkey : d.key = c.key := by simpa using List.find?_some hbefore
      obtain heq | ⟨-, hc⟩ := key_eq_iff.1 hkey
      · exact heq
      · exact h d hc (by rw [← find?_key_of_isZero hc, hbefore])

end Constant

/-! ## Adding one after another -/

namespace Pool

theorem add_of_index {p : Pool} {c : Constant} {i : Nat} (h : p.index[c.key]? = some i) :
    p.add c = (i, p) := by
  simp only [add, h]

theorem add_of_index_eq_none {p : Pool} {c : Constant} (h : p.index[c.key]? = none) :
    p.add c = (p.size, ⟨p.items.push c, p.index.insert c.key p.size⟩) := by
  simp only [add, h]

theorem Consistent.key_inj {p : Pool} (hp : p.Consistent) {k k' : ConstantKey} {i : Nat}
    (hk : p.index[k]? = some i) (hk' : p.index[k']? = some i) : k = k' := by
  obtain ⟨d, hd, rfl⟩ := hp k i hk
  obtain ⟨d', hd', rfl⟩ := hp k' i hk'
  obtain rfl : d = d' := Option.some.inj (hd.symm.trans hd')
  rfl

/-- The pool after the constants are added to it. -/
def addAll (p : Pool) : List Constant → Pool
  | []      => p
  | c :: cs => (p.add c).2.addAll cs

/-- The pool came of an empty one by adding the constants of `history`. -/
structure Records (p : Pool) (history : List Constant) : Prop where
  consistent : p.Consistent
  size : p.size ≤ history.length
  found : ∀ (k : ConstantKey) (i : Nat), p.index[k]? = some i →
    p.get? i = history.find? (·.key = k)
  absent : ∀ k : ConstantKey, p.index[k]? = none → history.find? (·.key = k) = none

theorem records_empty : empty.Records [] :=
  ⟨consistent_empty, Nat.le_refl 0, fun k i h => by simp [empty] at h, fun _ _ => rfl⟩

theorem Records.add {p : Pool} {history : List Constant} (h : p.Records history) (c : Constant) :
    (p.add c).2.Records (history ++ [c]) := by
  have hconsistent := consistent_add h.consistent c
  have hwithin := within_add (p := p) c
  -- a key that is there stays with the first constant that has it
  have hfound (k : ConstantKey) (i : Nat) (hi : p.index[k]? = some i) :
      (p.add c).2.get? i = (history ++ [c]).find? (·.key = k) := by
    obtain ⟨d, hd, -⟩ := h.consistent k i hi
    have hget : (p.add c).2.get? i = some d := hwithin.items i d hd
    rw [List.find?_append, ← h.found k i hi, show p.get? i = some d from hd, hget]
    rfl
  cases hindex : p.index[c.key]? with
  | some i =>
    rw [add_of_index hindex] at hconsistent hfound ⊢
    refine ⟨hconsistent, ?_, hfound, fun k hk => ?_⟩
    · exact Nat.le_trans h.size (by simp)
    · have hne : c.key ≠ k := by
        rintro rfl
        simp [hindex] at hk
      simp [List.find?_append, h.absent k hk, hne]
  | none =>
    rw [add_of_index_eq_none hindex] at hconsistent hfound ⊢
    refine ⟨hconsistent, ?_, fun k i hi => ?_, fun k hk => ?_⟩
    · simpa [Pool.size] using h.size
    · rw [Std.HashMap.getElem?_insert] at hi
      split at hi
      · rename_i hk
        obtain rfl : c.key = k := by simpa using hk
        obtain rfl : p.size = i := by simpa using hi
        simp [List.find?_append, h.absent _ hindex, get?, Pool.size]
      · exact hfound k i hi
    · rw [Std.HashMap.getElem?_insert] at hk
      split at hk
      · cases hk
      · rename_i hne
        simp only [beq_iff_eq] at hne
        simp [List.find?_append, h.absent k hk, hne]

theorem Records.addAll {p : Pool} {history : List Constant} (h : p.Records history)
    (cs : List Constant) : (p.addAll cs).Records (history ++ cs) := by
  induction cs generalizing p history with
  | nil => rwa [List.append_nil]
  | cons c cs ih =>
    rw [List.append_cons]
    exact ih (h.add c)

theorem within_addAll (p : Pool) (cs : List Constant) : p.Within (p.addAll cs) := by
  induction cs generalizing p with
  | nil => exact Within.refl p
  | cons c cs ih => exact (within_add c).trans (ih (p.add c).2)

section

variable (before later : List Constant) (c : Constant)

theorem records_addAll : (empty.addAll before).Records before := records_empty.addAll before

/-- The index given for a constant is the one its key has, however the pool grows. -/
theorem index_addAll :
    (((empty.addAll before).add c).2.addAll later).index[c.key]? =
      some ((empty.addAll before).add c).1 :=
  (within_addAll _ later).index _ _ (index_add _ c)

/-- That index leads to the first constant with the key. -/
theorem get?_addAll :
    (((empty.addAll before).add c).2.addAll later).get? ((empty.addAll before).add c).1 =
      (before ++ [c]).find? (·.key = c.key) := by
  have hrecords := (records_addAll before).add c
  have hindex := index_add (empty.addAll before) c
  obtain ⟨d, hd, -⟩ := hrecords.consistent _ _ hindex
  rw [← hrecords.found _ _ hindex, show Pool.get? _ _ = some d from hd]
  exact (within_addAll _ later).items _ _ hd

theorem add_fst_lt :
    ((empty.addAll before).add c).1 < (((empty.addAll before).add c).2.addAll later).size := by
  have hrecords := ((records_addAll before).add c).addAll later
  obtain ⟨d, hd, -⟩ := hrecords.consistent _ _ (index_addAll before later c)
  exact (Array.getElem?_eq_some_iff.1 hd).1

theorem add_fst_le : ((empty.addAll before).add c).1 ≤ before.length := by
  have hsize := ((records_addAll before).add c).size
  have hlt : _ < ((empty.addAll before).add c).2.size := add_fst_lt before [] c
  simp only [List.length_append, List.length_singleton] at hsize
  omega

/-- Adding another constant later gives the same index if it has the same key, and only then. -/
theorem add_fst_eq_iff (d : Constant) :
    ((((empty.addAll before).add c).2.addAll later).add d).1 = ((empty.addAll before).add c).1 ↔
      d.key = c.key := by
  have hc := index_addAll before later c
  constructor
  · intro h
    have hd := index_add (((empty.addAll before).add c).2.addAll later) d
    rw [h] at hd
    have hrecords := (((records_addAll before).add c).addAll later).add d
    exact hrecords.consistent.key_inj hd ((within_add d).index _ _ hc)
  · intro h
    rw [← h] at hc
    rw [add_of_index hc]

end

/-- Every index leads back to the constant it was given for, however the pool grows, unless that
is a zero and a zero of the other sign came first. Strings count as any other constant. -/
theorem get?_added (before later : List Constant) (c : Constant) :
    let added := (empty.addAll before).add c
    let grown := added.2.addAll later
    (added.1 < grown.size ∧ added.1 ≤ before.length) ∧
      (grown.get? added.1 = some c ↔
        ∀ d, c.isZero = true → before.find? Constant.isZero = some d → d = c) ∧
      (c.isZero = true → grown.get? added.1 = (before ++ [c]).find? Constant.isZero) ∧
      ∀ d, (grown.add d).1 = added.1 ↔ d = c ∨ d.isZero = true ∧ c.isZero = true := by
  refine ⟨⟨add_fst_lt before later c, add_fst_le before c⟩, ?_, fun hc => ?_, fun d => ?_⟩
  · rw [get?_addAll, Constant.find?_key_append]
  · rw [get?_addAll, Constant.find?_key_of_isZero hc]
  · rw [add_fst_eq_iff, Constant.key_eq_iff]

/-- A negative zero that comes after a zero is lost. -/
theorem get?_added_negZero :
    ((empty.addAll [.float 0.0]).add (.float (-0.0))).2.get?
      ((empty.addAll [.float 0.0]).add (.float (-0.0))).1 = some (.float 0.0) ∧
      Constant.float 0.0 ≠ .float (-0.0) := by
  refine ⟨?_, fun h => ?_⟩
  · have hget := get?_addAll [.float 0.0] [] (.float (-0.0))
    rw [Constant.find?_key_of_isZero (by decide)] at hget
    exact hget
  · injection h with h
    exact absurd h (by decide)

end Pool

end TypedTemplate
