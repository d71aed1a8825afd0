-- SUMMARY: A formatted integer is a numeral of it, which is read back and has the digits asked for.
import TypedTemplate.Operation.Text
import TypedTemplate.Proofs.Number.Digits

/-!
# Formatted integers

An integer is written in decimal as a sign and the digits of its absolute value, and in hexadecimal
as the digits of its 64 bits, which stand for it modulo `2 ^ 64`. Either run of digits is read back
as the number that it was written for. It is as long as the specifier asks, or as the number needs.
-/

namespace TypedTemplate

namespace Number

/-- The character is a hexadecimal digit, the ones from ten on in this case. -/
def DigitCase.Spells (letters : DigitCase) (c : Char) : Prop :=
  '0' ≤ c ∧ c ≤ '9' ∨
    match letters with
    | .lower => 'a' ≤ c ∧ c ≤ 'f'
    | .upper => 'A' ≤ c ∧ c ≤ 'F'

instance (letters : DigitCase) : DecidablePred letters.Spells :=
  match letters with
  | .lower => fun c => inferInstanceAs (Decidable ('0' ≤ c ∧ c ≤ '9' ∨ 'a' ≤ c ∧ c ≤ 'f'))
  | .upper => fun c => inferInstanceAs (Decidable ('0' ≤ c ∧ c ≤ '9' ∨ 'A' ≤ c ∧ c ≤ 'F'))

/-- The text is a numeral of `n` in base `b`: `Digit` holds of its characters, `read` gives `n`, and
it has `width` digits unless the number needs more. Zero needs one digit. -/
structure Numeral (b : Nat) (Digit : Char → Prop) (read : List Char → Option Nat) (width n : Nat)
    (ds : List Char) : Prop where
  digits : ∀ c ∈ ds, Digit c
  read : read ds = some n
  length : ds.length = max width (max 1 (Nat.digits b n).length)

theorem length_padZeros_digits {b : Nat} (hb : 1 < b) (letters : DigitCase) (width n : Nat) :
    (padZeros width (digits letters b n)).length = max width (max 1 (Nat.digits b n).length) := by
  rw [length_padZeros, digits, length_digitsOnto hb, List.length_nil, Nat.add_zero]

theorem numeral_decimal (width n : Nat) :
    Numeral 10 (·.isDigit) (fun ds => some (ofDigits ds)) width n
      (padZeros width (digits .lower 10 n)) where
  digits := forall_mem_padZeros (by decide)
    (forall_mem_digitsOnto (by decide) .lower (by decide) n (by simp)) width
  read := congrArg some (ofDigits_padZeros .lower width n)
  length := length_padZeros_digits (by decide) .lower width n

theorem numeral_hex (letters : DigitCase) {bound n : Nat} (h : n ≤ bound) (width : Nat) :
    Numeral 16 letters.Spells (hex? bound) width n (padZeros width (digits letters 16 n)) where
  digits := by
    have hdigit : ∀ d < 16, letters.Spells (letters.digit d) := by cases letters <;> decide
    exact forall_mem_padZeros (.inl (by decide))
      (forall_mem_digitsOnto (by decide) letters hdigit n (by simp)) width
  read := hex?_padZeros letters h width
  length := length_padZeros_digits (by decide) letters width n

end Number

namespace Value

variable {v : Value} {x : Int}

theorem isNull_of_wide? (h : v.wide? = some x) : v.isNull = false := by
  cases v <;> simp_all [wide?, isNull]

/-- The 64 bits of an integer value stand for it modulo `2 ^ 64`. -/
theorem word?_of_wide? (h : v.wide? = some x) : v.word? = some (x % 2 ^ 64).toNat := by
  cases v with
  | int i =>
    obtain rfl : i.toInt = x := by simpa [wide?] using h
    have hmod : i.toInt % 2 ^ 64 = i.toUInt64.toNat := by
      have hlt : i.toUInt64.toNat < 2 ^ 64 := i.toUInt64.toNat_lt
      calc i.toInt % 2 ^ 64
        _ = (i.toUInt64.toNat : Int).bmod (2 ^ 64) % 2 ^ 64 :=
          congrArg (· % 2 ^ 64) (BitVec.toInt_eq_toNat_bmod i.toBitVec)
        _ = i.toUInt64.toNat % 2 ^ 64 := Int.bmod_emod
        _ = i.toUInt64.toNat := Int.emod_eq_of_lt (by omega) (by omega)
    rw [hmod]
    rfl
  | uint u =>
    obtain rfl : (u.toNat : Int) = x := by simpa [wide?] using h
    have hlt : u.toNat < 2 ^ 64 := u.toNat_lt
    have hmod : (u.toNat : Int) % 2 ^ 64 = u.toNat := Int.emod_eq_of_lt (by omega) (by omega)
    rw [hmod]
    rfl
  | _ => simp [wide?] at h

/-- An integer value, signed or unsigned, is formatted as a numeral of it. -/
theorem format_numeral (h : v.wide? = some x) (width : UInt8) (letters : Number.DigitCase) :
    (∃ ds, v.format (.decimal width) = .ok ((if x < 0 then "-" else "") ++ String.ofList ds) ∧
      Number.Numeral 10 (·.isDigit) (fun ds => some (Number.ofDigits ds)) width.toNat x.natAbs ds) ∧
    ∃ ds, v.format (.hex letters width) = .ok (String.ofList ds) ∧
      Number.Numeral 16 letters.Spells (Number.hex? (2 ^ 64 - 1)) width.toNat (x % 2 ^ 64).toNat
        ds := by
  have hnull := isNull_of_wide? h
  have hword : (x % 2 ^ 64).toNat ≤ 2 ^ 64 - 1 := by omega
  refine ⟨⟨_, ?_, Number.numeral_decimal width.toNat x.natAbs⟩,
    ⟨_, ?_, Number.numeral_hex letters hword width.toNat⟩⟩
  · simp only [format, hnull, h]
    rfl
  · simp only [format, hnull, word?_of_wide? h]
    rfl

/-- The least word is formatted like any other, though its absolute value is no signed word. -/
theorem format_numeral_minInt :
    (Value.int Int64.minValue).wide? = some (-2 ^ 63) ∧
      (∃ ds, (Value.int Int64.minValue).format (.decimal 4) =
          .ok ((if (-2 ^ 63 : Int) < 0 then "-" else "") ++ String.ofList ds) ∧
        Number.Numeral 10 (·.isDigit) (fun ds => some (Number.ofDigits ds)) 4 (2 ^ 63) ds) ∧
      ∃ ds, (Value.int Int64.minValue).format (.hex .upper 20) = .ok (String.ofList ds) ∧
        Number.Numeral 16 Number.DigitCase.upper.Spells (Number.hex? (2 ^ 64 - 1)) 20 (2 ^ 63) ds :=
  have h : (Value.int Int64.minValue).wide? = some (-2 ^ 63) := by decide
  ⟨h, (format_numeral h 4 .upper).1, (format_numeral h 20 .upper).2⟩

end Value

end TypedTemplate
