-- SUMMARY: What a constant pool gives back for a constant, and what growing keeps.
import TypedTemplate.Code.Pool

/-!
# Constants

A pool gives every constant back as it was added, except that a float zero comes
back with the sign of the zero added first: both zeros have one key. What a pool
holds it holds for good, so code may read its constants from any later pool.
-/

namespace TypedTemplate

/-! ## Floats with one key -/

open Float.Model UnpackedFloat in
theorem unpack_isNaN {spec : Format} {b : BitVec spec.numBits} (h : (unpack spec b).isNaN = true) :
    unpackExponent b = -1#_ ∧ unpackMantissa b ≠ 0#_ := by
  by_cases hexponent : unpackExponent b = -1#_
  · refine ⟨hexponent, fun hmantissa => ?_⟩
    have hunpack : unpack spec b = .infinity _ := (if_pos hexponent).trans (if_pos hmantissa)
    rw [hunpack] at h
    cases h
  · by_cases hsubnormal : unpackExponent b = 0#_
    · by_cases hmantissa : unpackMantissa b = 0#_
      · have hunpack : unpack spec b = .zero _ :=
          (if_neg hexponent).trans ((if_pos hsubnormal).trans (dif_pos hmantissa))
        rw [hunpack] at h
        cases h
      · have hunpack : unpack spec b = .finite _ _ _ _ :=
          (if_neg hexponent).trans ((if_pos hsubnormal).trans (dif_neg hmantissa))
        rw [hunpack] at h
        cases h
    · have hunpack : unpack spec b = .finite _ _ _ _ :=
        (if_neg hexponent).trans (if_neg hsubnormal)
      rw [hunpack] at h
      cases h

open Float.Model in
theorem toBits_of_isNaN {x : Float} (hx : x.isNaN = true) :
    x.toBits = UInt64.ofBitVec (UnpackedFloat.packedNaN Format.binary64) := by
  obtain ⟨hexponent, hmantissa⟩ := unpack_isNaN hx
  exact UInt64.toBitVec_inj.1 (x.toModel.valid.eq_packedNaN hexponent hmantissa)

theorem eq_of_toBits_eq {x y : Float} (h : x.toBits = y.toBits) : x = y := by
  obtain ⟨⟨xbits, hx⟩⟩ := x
  obtain ⟨⟨ybits, hy⟩⟩ := y
  obtain rfl : xbits = ybits := h
  rfl

theorem isNaN_of_toBits {x : Float} (h : x.toBits = 0x7FF8000000000000) : x.isNaN = true := by
  obtain rfl : x = Float.ofBits 0x7FF8000000000000 := eq_of_toBits_eq h
  rfl

theorem beq_zero_of_toBits {x : Float} (h : x.toBits = 0) : (x == 0) = true := by
  obtain rfl : x = 0 := eq_of_toBits_eq h
  rfl

/-- Floats with one key are the same float, or both are zeros. -/
theorem Constant.eq_or_zero_of_floatKey {x y : Float} (h : floatKey x = floatKey y) :
    x = y ∨ (x == 0) = true ∧ (y == 0) = true := by
  have hnan {z : Float} (hz : z.isNaN = true) : z.toBits = 0x7FF8000000000000 :=
    toBits_of_isNaN hz
  unfold floatKey at h
  split at h <;> rename_i hx
  · split at h <;> rename_i hy
    · exact .inl (eq_of_toBits_eq ((hnan hx).trans (hnan hy).symm))
    · split at h
      · exact absurd h (by decide)
      · exact absurd (isNaN_of_toBits h.symm) hy
  · split at h <;> rename_i hx0
    · split at h
      · exact absurd h (by decide)
      · split at h <;> rename_i hy0
        · exact .inr ⟨hx0, hy0⟩
        · exact absurd (beq_zero_of_toBits h.symm) hy0
    · split at h
      · exact absurd (isNaN_of_toBits h) hx
      · split at h
        · exact absurd (beq_zero_of_toBits h) hx0
        · exact .inl (eq_of_toBits_eq h)

/-! ## Pools -/

namespace Pool

/-- The index leads to the constants it names. -/
def Consistent (p : Pool) : Prop :=
  ∀ (k : ConstantKey) (i : Nat), p.index[k]? = some i →
    ∃ c : Constant, p.items[i]? = some c ∧ c.key = k

/-- The pool `q` holds all that `p` holds, where `p` holds it. -/
structure Within (p q : Pool) : Prop where
  items : ∀ (i : Nat) (c : Constant), p.items[i]? = some c → q.items[i]? = some c
  index : ∀ (k : ConstantKey) (i : Nat), p.index[k]? = some i → q.index[k]? = some i

theorem Within.refl (p : Pool) : p.Within p := ⟨fun _ _ h => h, fun _ _ h => h⟩

theorem Within.trans {p q s : Pool} (h : p.Within q) (h' : q.Within s) : p.Within s :=
  ⟨fun i c hi => h'.items i c (h.items i c hi), fun k i hi => h'.index k i (h.index k i hi)⟩

theorem consistent_empty : Consistent empty := by
  intro k i h
  simp [empty] at h

theorem consistent_add {p : Pool} (h : p.Consistent) (c : Constant) : (p.add c).2.Consistent := by
  unfold add
  split
  · exact h
  · intro k i hi
    simp only [Std.HashMap.getElem?_insert, beq_iff_eq] at hi
    split at hi
    · rename_i hk
      obtain rfl : p.size = i := by simpa using hi
      exact ⟨c, by simp [size], hk⟩
    · obtain ⟨d, hd, hkey⟩ := h k i hi
      have hlt : i < p.items.size := (Array.getElem?_eq_some_iff.1 hd).1
      exact ⟨d, by simp [Array.getElem?_push, Nat.ne_of_lt hlt, hd], hkey⟩

theorem within_add {p : Pool} (c : Constant) : p.Within (p.add c).2 := by
  unfold add
  split
  · exact Within.refl p
  · rename_i hnone
    refine ⟨fun i d hi => ?_, fun k i hi => ?_⟩
    · have hlt : i < p.items.size := (Array.getElem?_eq_some_iff.1 hi).1
      simp [Array.getElem?_push, Nat.ne_of_lt hlt, hi]
    · have hne : c.key ≠ k := by
        rintro rfl
        simp [hnone] at hi
      simp [Std.HashMap.getElem?_insert, hne, hi]

/-- The pool `q` may come of `p` by adding constants. -/
structure GrowsTo (p q : Pool) : Prop where
  within : p.Within q
  consistent : p.Consistent → q.Consistent

theorem GrowsTo.refl (p : Pool) : p.GrowsTo p := ⟨Within.refl p, id⟩

theorem GrowsTo.trans {p q s : Pool} (h : p.GrowsTo q) (h' : q.GrowsTo s) : p.GrowsTo s :=
  ⟨h.within.trans h'.within, fun hp => h'.consistent (h.consistent hp)⟩

theorem growsTo_add (p : Pool) (c : Constant) : p.GrowsTo (p.add c).2 :=
  ⟨within_add c, fun hp => consistent_add hp c⟩

/-- After it is added a constant has the index given. -/
theorem index_add (p : Pool) (c : Constant) :
    (p.add c).2.index[c.key]? = some (p.add c).1 := by
  unfold add
  split
  · assumption
  · simp

/-! ## Reading constants back -/

/-- The float that code gets when it reads `x`. -/
def readFloat (p : Pool) (x : Float) : Float :=
  match (p.index[(Constant.float x).key]?).bind p.get? with
  | some (.float y) => y
  | _               => x

end Pool

/-- A value whose float, if it is one, is read as `read` says. -/
def Value.readBy (read : Float → Float) : Value → Value
  | .float x => .float (read x)
  | v        => v

namespace Pool

/-- The constant at the index of `c` reads as `c`, its float as the pool has it. -/
theorem get?_of_index {p : Pool} (hp : p.Consistent) {c : Constant} {i : Nat}
    (hi : p.index[c.key]? = some i) :
    ∃ d, p.get? i = some d ∧ d.value = c.value.readBy p.readFloat := by
  obtain ⟨d, hd, hkey⟩ := hp c.key i hi
  refine ⟨d, hd, ?_⟩
  cases c with
  | float x =>
    cases d with
    | float y =>
      have hread : p.readFloat x = y := by simp [readFloat, hi, get?, hd]
      simp [Constant.value, Value.readBy, hread]
    | _ => simp [Constant.key] at hkey
  | _ => cases d <;> simp_all [Constant.key, Constant.value, Value.readBy]

theorem str?_of_index {p : Pool} (hp : p.Consistent) {s : String} {i : Nat}
    (hi : p.index[(Constant.str s).key]? = some i) : p.str? i = some s := by
  obtain ⟨d, hd, hkey⟩ := hp _ i hi
  cases d <;> simp_all [Constant.key, str?, get?, Constant.str?]

/-- A float is read as itself, unless it is a zero, which is read as a zero. -/
theorem readFloat_eq_or_zero {p : Pool} (hp : p.Consistent) (x : Float) :
    p.readFloat x = x ∨ (x == 0) = true ∧ (p.readFloat x == 0) = true := by
  unfold readFloat
  split
  · rename_i y hy
    obtain ⟨i, hi, hget⟩ := Option.bind_eq_some_iff.1 hy
    obtain ⟨d, hd, hkey⟩ := hp _ i hi
    obtain rfl : d = .float y := by simpa [get?, hd] using hget
    have hfloat : Constant.floatKey y = Constant.floatKey x := by simpa [Constant.key] using hkey
    exact (Constant.eq_or_zero_of_floatKey hfloat).imp_right And.symm
  · exact .inl rfl

end Pool

end TypedTemplate
