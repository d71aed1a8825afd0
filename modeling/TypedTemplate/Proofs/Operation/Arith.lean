-- SUMMARY: Integer operations give the exact result where it fits, and fail or wrap where not.
import Mathlib.Algebra.Ring.Int.Defs
import TypedTemplate.Operation.Arith

/-!
# Integer arithmetic

What an integer operation gives is decided by the exact result alone: a word for it, if it is in
range, and else an overflow or the signed word that is left of it modulo `2 ^ 64`. A machine has
no exact results. It computes in double words, which hold all sums and differences of words but
not all products, and wraps what it has to in signed words. That comes to the same.
-/

namespace TypedTemplate

/-! ## Exact results -/

/-- The results that need not be wrapped: those of signed words or, if no operand is one, those of
words of either kind. -/
def FitsWord (signed : Bool) (n : Int) : Prop :=
  minInt ≤ n ∧ n ≤ if signed then maxInt else maxUInt

instance (signed : Bool) (n : Int) : Decidable (FitsWord signed n) :=
  inferInstanceAs (Decidable (_ ∧ _))

/-- The value is the integer `n`, and a signed word if one holds it. -/
structure Value.Stands (v : Value) (n : Int) : Prop where
  wide : v.wide? = some n
  signed : minInt ≤ n → n ≤ maxInt → v.isSigned = true

/-- The results of an integer operation, which may check for overflow, when the exact one is `n`. -/
structure Value.Rounds (signed : Bool) (n : Int) (result : Bool → Except IntFault Value) : Prop where
  fits : FitsWord signed n → ∃ v, v.Stands n ∧ ∀ checked, result checked = .ok v
  overflows : ¬FitsWord signed n → result true = .error .overflow
  wraps : ¬FitsWord signed n →
    ∃ i : Int64, i.toInt % 2 ^ 64 = n % 2 ^ 64 ∧ result false = .ok (.int i)

theorem Int64.toInt_emod_ofInt (n : Int) : (Int64.ofInt n).toInt % 2 ^ 64 = n % 2 ^ 64 := by
  rw [Int64.toInt_ofInt]
  exact Int.bmod_emod

namespace Value

variable {signed : Bool} {n : Int} {v : Value}

theorem stands_int (hmin : minInt ≤ n) (hmax : n ≤ maxInt) : (int (Int64.ofInt n)).Stands n := by
  refine ⟨?_, fun _ _ => rfl⟩
  rw [wide?, Int64.toInt_ofInt_of_le] <;> simp only [minInt, maxInt] at hmin hmax ⊢ <;> omega

theorem stands_uint (hmin : maxInt < n) (hmax : n ≤ maxUInt) :
    (uint (UInt64.ofNat n.toNat)).Stands n := by
  refine ⟨?_, fun _ hle => absurd hle (Int.not_le.2 hmin)⟩
  have hlt : n.toNat < 2 ^ 64 := by
    simp only [maxUInt] at hmax
    omega
  rw [wide?, UInt64.toNat_ofNat_of_lt' hlt]
  simp only [maxInt] at hmin
  congr 1
  omega

theorem fit?_eq_some (h : fit? signed n = some v) : FitsWord signed n ∧ v.Stands n := by
  have hle : maxInt ≤ maxUInt := by decide
  unfold fit? ofSigned? ofWide? at h
  cases signed with
  | true =>
    rw [if_pos rfl] at h
    split at h
    · rename_i hfits
      cases h
      exact ⟨hfits, stands_int hfits.1 hfits.2⟩
    · cases h
  | false =>
    rw [if_neg Bool.false_ne_true] at h
    split at h
    · rename_i hfits
      cases h
      exact ⟨⟨hfits.1, Int.le_trans hfits.2 hle⟩, stands_int hfits.1 hfits.2⟩
    split at h
    · rename_i hsigned hfits
      cases h
      have hmin : minInt ≤ n := Int.le_trans (by decide) hfits.1
      have hmax : maxInt < n := Int.not_le.1 fun hle => hsigned ⟨hmin, hle⟩
      exact ⟨⟨hmin, hfits.2⟩, stands_uint hmax hfits.2⟩
    · cases h

theorem fit?_eq_none (h : fit? signed n = none) : ¬FitsWord signed n := by
  unfold fit? ofSigned? ofWide? at h
  rintro ⟨hmin, hmax⟩
  cases signed with
  | true =>
    rw [if_pos rfl, if_pos ⟨hmin, hmax⟩] at h
    cases h
  | false =>
    rw [if_neg Bool.false_ne_true] at h hmax
    split at h
    · cases h
    split at h
    · cases h
    · rename_i hsigned hunsigned
      simp only [minInt, maxInt] at hmin hsigned
      exact hunsigned ⟨by omega, hmax⟩

/-- What fits is the same with and without checks. -/
theorem rounds_fitOr (signed : Bool) (n : Int) :
    Rounds signed n fun checked => fitOr checked signed n := by
  cases h : fit? signed n with
  | some v =>
    obtain ⟨hfits, hstands⟩ := fit?_eq_some h
    have hresult (checked : Bool) : fitOr checked signed n = .ok v := by simp [fitOr, h]
    exact ⟨fun _ => ⟨v, hstands, hresult⟩, (absurd hfits ·), (absurd hfits ·)⟩
  | none =>
    have hnot := fit?_eq_none h
    refine ⟨(absurd · hnot), fun _ => by simp [fitOr, h], fun _ => ?_⟩
    exact ⟨Int64.ofInt n, Int64.toInt_emod_ofInt n, by simp [fitOr, h]⟩

end Value

/-! ## Double words -/

namespace ArithOp

/-- The operation on words of any width, wrapped. -/
def onWords (op : ArithOp) {width : Nat} (x y : BitVec width) : BitVec width :=
  match op with
  | add => x + y
  | sub => x - y
  | mul => x * y

/-- Whether the exact result, of words taken as signed, is out of their range. -/
def overflows (op : ArithOp) {width : Nat} (x y : BitVec width) : Bool :=
  match op with
  | add => x.saddOverflow y
  | sub => x.ssubOverflow y
  | mul => x.smulOverflow y

end ArithOp

namespace Value

/-- An integer value in a double word. -/
def double? : Value → Option (BitVec 128)
  | .int i  => some (i.toBitVec.signExtend 128)
  | .uint u => some (u.toBitVec.setWidth 128)
  | _       => none

/-- The lower half of a double word. -/
def lower (x : BitVec 128) : BitVec 64 := x.setWidth 64

/-- A double word as a signed word or, unless `signed`, as one of either kind. -/
def fitDouble? (signed : Bool) (x : BitVec 128) : Option Value :=
  if (BitVec.ofInt 128 minInt).sle x && x.sle (.ofInt 128 maxInt) then
    some (.int (.ofBitVec (lower x)))
  else if !signed && (0#128).sle x && x.sle (.ofInt 128 maxUInt) then
    some (.uint (.ofBitVec (lower x)))
  else none

/-- An integer operation as a machine does it. -/
def arithInWords (op : ArithOp) (a b : Value) (checked : Bool) : Except IntFault Value :=
  match a.double?, b.double? with
  | some x, some y =>
    let result? := if op.overflows x y then none else some (op.onWords x y)
    match result?.bind (fitDouble? (a.isSigned || b.isSigned)) with
    | some v => .ok v
    | none   =>
      if checked then .error .overflow
      else .ok (.int (.ofBitVec (op.onWords (lower x) (lower y))))
  | _, _           => .error .notInteger

/-- The negative as a machine computes it. -/
def negInWords (a : Value) (checked : Bool) : Except IntFault Value :=
  match a.double? with
  | some x =>
    match fitDouble? true (-x) with
    | some v => .ok v
    | none   => if checked then .error .overflow else .ok (.int (.ofBitVec (-lower x)))
  | none   => .error .notInteger

end Value

/-! ### The integer in a double word -/

/-- The range of a double word. -/
def FitsDouble (n : Int) : Prop := -2 ^ 127 ≤ n ∧ n < 2 ^ 127

instance (n : Int) : Decidable (FitsDouble n) := inferInstanceAs (Decidable (_ ∧ _))

theorem FitsWord.fitsDouble {signed : Bool} {n : Int} (h : FitsWord signed n) : FitsDouble n := by
  unfold FitsWord minInt maxInt maxUInt at h
  unfold FitsDouble
  cases signed <;> simp at h <;> omega

theorem toInt_ofInt_double {n : Int} (h : FitsDouble n) : (BitVec.ofInt 128 n).toInt = n := by
  rw [BitVec.toInt_ofInt]
  unfold FitsDouble at h
  exact Int.bmod_eq_of_le (by omega) (by omega)

theorem ArithOp.onWords_ofInt (op : ArithOp) (width : Nat) (x y : Int) :
    op.onWords (.ofInt width x) (.ofInt width y) = .ofInt width (op.exact x y) := by
  cases op with
  | add => exact (BitVec.ofInt_add x y).symm
  | sub => simp only [onWords, exact, Int.sub_eq_add_neg, BitVec.ofInt_add, BitVec.ofInt_neg,
      BitVec.sub_eq_add_neg]
  | mul => exact (BitVec.ofInt_mul x y).symm

theorem ArithOp.overflows_ofInt (op : ArithOp) {x y : Int} (hx : FitsDouble x)
    (hy : FitsDouble y) :
    op.overflows (.ofInt 128 x) (.ofInt 128 y) = true ↔ ¬FitsDouble (op.exact x y) := by
  unfold FitsDouble
  cases op <;>
    simp only [overflows, exact, BitVec.saddOverflow, BitVec.ssubOverflow, BitVec.smulOverflow,
      toInt_ofInt_double hx, toInt_ofInt_double hy, Bool.or_eq_true, decide_eq_true_eq] <;>
    omega

namespace Value

variable {a b : Value} {x y n : Int}

theorem lower_ofInt (n : Int) : lower (.ofInt 128 n) = .ofInt 64 n := by
  apply BitVec.eq_of_toNat_eq
  rw [lower, BitVec.toNat_setWidth, BitVec.toNat_ofInt, BitVec.toNat_ofInt]
  omega

theorem fitsWord_of_wide? (h : a.wide? = some x) : FitsWord false x := by
  unfold FitsWord minInt maxUInt
  cases a with
  | int i =>
    cases h
    have := i.toInt_lt
    have := i.le_toInt
    simp
    omega
  | uint u =>
    cases h
    have := u.toNat_lt
    simp
    omega
  | _ => cases h

theorem double?_of_wide? (h : a.wide? = some x) : a.double? = some (.ofInt 128 x) := by
  have hfits := (fitsWord_of_wide? h).fitsDouble
  cases a with
  | int i =>
    cases h
    refine congrArg some (BitVec.eq_of_toInt_eq ?_)
    rw [BitVec.toInt_signExtend_of_le (by decide), toInt_ofInt_double hfits]
    rfl
  | uint u =>
    cases h
    rw [double?, BitVec.ofInt_natCast]
    refine congrArg some (BitVec.eq_of_toNat_eq ?_)
    rw [BitVec.toNat_setWidth, BitVec.toNat_ofNat]
    rfl
  | _ => cases h

theorem double?_eq_none (h : a.wide? = none) : a.double? = none := by
  cases a with
  | int _ | uint _ => cases h
  | _ => rfl

theorem sle_ofInt (hx : FitsDouble x) (hy : FitsDouble y) :
    (BitVec.ofInt 128 x).sle (.ofInt 128 y) = decide (x ≤ y) := by
  rw [BitVec.sle_eq_decide, toInt_ofInt_double hx, toInt_ofInt_double hy]

theorem fitDouble?_ofInt (signed : Bool) (h : FitsDouble n) :
    fitDouble? signed (.ofInt 128 n) = fit? signed n := by
  have hmin : FitsDouble minInt := by decide
  have hmax : FitsDouble maxInt := by decide
  have hzero : FitsDouble 0 := by decide
  have hmaxUInt : FitsDouble maxUInt := by decide
  have hword : (BitVec.ofInt 128 minInt).sle (.ofInt 128 n) &&
      (BitVec.ofInt 128 n).sle (.ofInt 128 maxInt) ↔ minInt ≤ n ∧ n ≤ maxInt := by
    simp only [sle_ofInt, hmin, hmax, h, Bool.and_eq_true, decide_eq_true_eq]
  have hunsigned : !signed && (BitVec.ofInt 128 0).sle (.ofInt 128 n) &&
      (BitVec.ofInt 128 n).sle (.ofInt 128 maxUInt) ↔ signed = false ∧ 0 ≤ n ∧ n ≤ maxUInt := by
    simp only [sle_ofInt, hzero, hmaxUInt, h, Bool.and_eq_true, decide_eq_true_eq,
      Bool.not_eq_true', and_assoc]
  have huint (hge : 0 ≤ n) : UInt64.ofBitVec (.ofInt 64 n) = .ofNat n.toNat := by
    obtain ⟨k, rfl⟩ := Int.eq_ofNat_of_zero_le hge
    rw [BitVec.ofInt_natCast]
    rfl
  unfold fitDouble? fit? ofWide? ofSigned?
  rw [lower_ofInt, Int64.ofBitVec_ofInt]
  cases signed <;> simp_all

/-- A result that overflows a double word does not fit a word either. -/
theorem bind_fitDouble? (op : ArithOp) (signed : Bool) (hx : FitsDouble x) (hy : FitsDouble y) :
    ((if op.overflows (.ofInt 128 x) (.ofInt 128 y) then none
      else some (BitVec.ofInt 128 (op.exact x y))).bind (fitDouble? signed)) =
      fit? signed (op.exact x y) := by
  have hoverflows := op.overflows_ofInt hx hy
  by_cases hexact : FitsDouble (op.exact x y)
  · rw [if_neg fun h => hoverflows.1 h hexact]
    exact fitDouble?_ofInt signed hexact
  · rw [if_pos (hoverflows.2 hexact)]
    cases hfit : fit? signed (op.exact x y) with
    | none => rfl
    | some v => exact absurd (fit?_eq_some hfit).1.fitsDouble hexact

/-! ### The same results -/

theorem arithInWords_eq (op : ArithOp) (a b : Value) (checked : Bool) :
    a.arithInWords op b checked = a.arith op b checked := by
  cases ha : a.wide? with
  | none => simp only [arithInWords, arith, ha, double?_eq_none ha]
  | some x =>
  cases hb : b.wide? with
  | none => simp only [arithInWords, arith, ha, hb, double?_of_wide? ha, double?_eq_none hb]
  | some y =>
    have hx := (fitsWord_of_wide? ha).fitsDouble
    have hy := (fitsWord_of_wide? hb).fitsDouble
    cases hfit : fit? (a.isSigned || b.isSigned) (op.exact x y) <;>
      simp only [arithInWords, arith, fitOr, ha, hb, double?_of_wide? ha, double?_of_wide? hb,
        lower_ofInt, ArithOp.onWords_ofInt, Int64.ofBitVec_ofInt, bind_fitDouble? op _ hx hy, hfit]

theorem negInWords_eq (a : Value) (checked : Bool) :
    a.negInWords checked = a.neg checked := by
  cases ha : a.wide? with
  | none => simp only [negInWords, neg, ha, double?_eq_none ha]
  | some x =>
    have hfits := fitsWord_of_wide? ha
    have hneg : FitsDouble (-x) := by
      unfold FitsWord minInt maxUInt at hfits
      unfold FitsDouble
      simp at hfits
      omega
    cases hfit : fit? true (-x) <;>
      simp only [negInWords, neg, fitOr, ha, double?_of_wide? ha, lower_ofInt, ← BitVec.ofInt_neg,
        fitDouble?_ofInt true hneg, Int64.ofBitVec_ofInt, hfit]

/-! ## The integer operations -/

/-- The exact result decides what an operation on integers of either kind gives, and computing it
in double words does not change that. -/
theorem arith_rounds (ha : a.wide? = some x) (hb : b.wide? = some y) (op : ArithOp) :
    Rounds (a.isSigned || b.isSigned) (op.exact x y) (a.arith op b) ∧
      Rounds true (-x) a.neg ∧
      ∀ checked, a.arithInWords op b checked = a.arith op b checked ∧
        a.negInWords checked = a.neg checked := by
  have harith : a.arith op b = fun checked =>
      fitOr checked (a.isSigned || b.isSigned) (op.exact x y) := by
    funext checked
    simp only [arith, ha, hb]
  have hneg : a.neg = fun checked => fitOr checked true (-x) := by
    funext checked
    simp only [neg, ha]
  refine ⟨?_, ?_, fun checked => ⟨arithInWords_eq op a b checked, negInWords_eq a checked⟩⟩
  · rw [harith]
    exact rounds_fitOr _ _
  · rw [hneg]
    exact rounds_fitOr _ _

/-- The greatest product is out of the range of a double word too. -/
theorem arith_rounds_greatest :
    (uint 0xFFFFFFFFFFFFFFFF).wide? = some maxUInt ∧ ¬FitsDouble (maxUInt * maxUInt) ∧
      arith .mul (uint 0xFFFFFFFFFFFFFFFF) (uint 0xFFFFFFFFFFFFFFFF) true = .error .overflow ∧
      ∃ i : Int64, i.toInt % 2 ^ 64 = 1 ∧
        arithInWords .mul (uint 0xFFFFFFFFFFFFFFFF) (uint 0xFFFFFFFFFFFFFFFF) false =
          .ok (.int i) := by
  have hwide : (uint 0xFFFFFFFFFFFFFFFF).wide? = some maxUInt := rfl
  obtain ⟨hrounds, -, hsame⟩ := arith_rounds hwide hwide .mul
  have hout : ¬FitsWord false (ArithOp.exact .mul maxUInt maxUInt) := by decide
  obtain ⟨i, hi, hwrapped⟩ := hrounds.wraps hout
  exact ⟨hwide, by decide, hrounds.overflows hout, i, hi, (hsame false).1.trans hwrapped⟩

end Value

end TypedTemplate
