-- SUMMARY: Numerals are read without a sign, so the only zero that is read is the positive one.
import Mathlib
import TypedTemplate.Number.Text
import TypedTemplate.Proofs.Code.Constants

/-!
# The zeros that numerals are read as

There are two zeros, which are equal as numbers. Their bit patterns differ in the sign alone, and
no numeral has one: a minus before it is an operator. So all zeros that are read are the same.
-/

namespace TypedTemplate

open Float.Model UnpackedFloat

/-! ## Signs -/

section

variable {spec : Format}

theorem unpackSign_packComponents (sign : Sign) (exponent : BitVec spec.exponentBits)
    (mantissa : BitVec spec.mantissaBitsWithoutImplicit) :
    unpackSign (packComponents spec sign exponent mantissa) = sign.toBitVec := by
  ext i hi
  obtain rfl : i = 0 := by omega
  simp [unpackSign, packComponents, BitVec.getLsbD_append, BitVec.getElem_append]

theorem unpackSign_pack_finite (m : Nat) (e : Int) (hm : 0 < m) :
    unpackSign (pack spec (.finite .positive m e hm)) = 0#1 := by
  unfold UnpackedFloat.pack
  dsimp only
  split
  · exact unpackSign_packComponents .positive _ _
  split <;> exact unpackSign_packComponents .positive _ _

/-- A double that is unpacked without a sign is packed without one. -/
theorem unpackSign_pack_unpack {b : BitVec spec.numBits} (h : unpackSign b = 0#1) :
    unpackSign (pack spec (unpack spec b)) = 0#1 := by
  have hsign : Sign.ofBitVec (unpackSign b) = .positive := if_pos h
  unfold UnpackedFloat.unpack
  simp only [hsign]
  split
  · split <;> exact unpackSign_packComponents .positive _ _
  split
  · split
    · exact unpackSign_packComponents .positive _ _
    · exact unpackSign_pack_finite _ _ _
  · exact unpackSign_pack_finite _ _ _

theorem unpack_eq_zero {b : BitVec spec.numBits} {sign : Sign}
    (h : unpack spec b = .zero sign) : unpackExponent b = 0#_ ∧ unpackMantissa b = 0#_ := by
  unfold UnpackedFloat.unpack at h
  dsimp only at h
  split at h
  · split at h <;> cases h
  split at h
  · rename_i hexponent
    split at h
    · rename_i hmantissa
      exact ⟨hexponent, hmantissa⟩
    · cases h
  · cases h

end

theorem unpack_of_beq_zero {x : Float} (h : (x == 0) = true) :
    ∃ sign, x.toModel.unpack = .zero sign := by
  have hcompare : (x.toModel.unpack.compare (.zero .positive) == some .eq) = true := h
  cases hunpack : x.toModel.unpack with
  | zero sign => exact ⟨sign, rfl⟩
  | notANumber => simp [hunpack, UnpackedFloat.compare] at hcompare
  | infinity sign => cases sign <;> simp [hunpack, UnpackedFloat.compare] at hcompare
  | finite sign => cases sign <;> simp [hunpack, UnpackedFloat.compare] at hcompare

/-- The three fields of a double make it up. -/
theorem eq_zero_of_fields {b : BitVec Format.binary64.numBits} (hsign : unpackSign b = 0#1)
    (hexponent : unpackExponent b = 0#_) (hmantissa : unpackMantissa b = 0#_) : b = 0#64 := by
  have hsign := congrArg BitVec.toNat hsign
  have hexponent := congrArg BitVec.toNat hexponent
  have hmantissa := congrArg BitVec.toNat hmantissa
  simp [unpackSign, unpackExponent, unpackMantissa, Format.binary64, BitVec.extractLsb]
    at hsign hexponent hmantissa
  apply BitVec.eq_of_toNat_eq
  have hlt := b.isLt
  change b.toNat < 2 ^ 64 at hlt
  change b.toNat = 0
  omega

theorem eq_zero_of_beq_zero {x : Float} (h : (x == 0) = true)
    (hsign : @unpackSign Format.binary64 x.toBits.toBitVec = 0#1) : x = 0 := by
  obtain ⟨sign, hunpack⟩ := unpack_of_beq_zero h
  obtain ⟨hexponent, hmantissa⟩ := unpack_eq_zero hunpack
  exact eq_of_toBits_eq (UInt64.toBitVec_inj.1 (eq_zero_of_fields hsign hexponent hmantissa))

/-- A bit pattern below the sign bit is a double without a sign. -/
theorem unpackSign_ofBits {bits : UInt64} (h : bits ≤ Number.infinityBits) :
    @unpackSign Format.binary64 (Float.ofBits bits).toBits.toBitVec = 0#1 := by
  refine unpackSign_pack_unpack (BitVec.eq_of_toNat_eq ?_)
  have hle : bits.toNat ≤ 0x7FF0000000000000 := UInt64.le_iff_toNat_le.1 h
  simp [unpackSign, Format.binary64, BitVec.extractLsb]
  omega

/-! ## Numerals -/

namespace Number

theorem nearestBits_le (num den : Nat) : nearestBits num den ≤ infinityBits := by
  have hzero : (0 : UInt64) ≤ infinityBits := by decide
  have hinfinity : infinityBits ≤ infinityBits := UInt64.le_refl _
  unfold nearestBits
  split
  · exact hzero
  dsimp only
  repeat' split
  all_goals first | exact hinfinity | skip
  all_goals
    rename_i hlt
    rw [UInt64.le_iff_toNat_le, UInt64.toNat_ofNat']
    exact Nat.le_trans (Nat.mod_le _ _) (Nat.le_of_lt (Nat.lt_of_not_le hlt))

theorem eq_zero_of_nearestFloat {d : Decimal} (h : (nearestFloat d == 0) = true) :
    nearestFloat d = 0 := by
  unfold nearestFloat at h ⊢
  split
  · rfl
  split
  · rename_i hzero hlarge
    rw [if_neg hzero, if_pos hlarge] at h
    exact absurd h (by decide)
  split
  · rfl
  · rename_i hzero hlarge hsmall
    rw [if_neg hzero, if_neg hlarge, if_neg hsmall] at h
    exact eq_zero_of_beq_zero h (unpackSign_ofBits (nearestBits_le _ _))

/-- A numeral that is read as a zero is read as the positive one. -/
theorem readFloat_eq_zero {cs : List Char} (h : (readFloat cs == 0) = true) : readFloat cs = 0 :=
  eq_zero_of_nearestFloat h

end Number

end TypedTemplate
