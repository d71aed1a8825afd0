-- SUMMARY: Numerals are read back as the numbers they were written for, and are as long as needed.
import Mathlib.Data.Nat.Digits.Lemmas
import TypedTemplate.Number.Hex

/-!
# Digits

The digits of a number are written from the last to the first, and read from the first to the
last. So reading them from nothing is reading what stands behind them from the number.
Zeros in front are read as nothing.
-/

namespace TypedTemplate.Number

/-! ## Digits of a base -/

section

variable {b : Nat} (hb : 1 < b) (letters : DigitCase)

include hb

/-- What holds of all digits holds of the digits of a number. -/
theorem forall_mem_digitsOnto {P : Char → Prop} (hP : ∀ d < b, P (letters.digit d)) (n : Nat)
    {tail : List Char} (htail : ∀ c ∈ tail, P c) : ∀ c ∈ digitsOnto letters b n tail, P c := by
  rw [digitsOnto]
  split
  · rename_i h
    exact List.forall_mem_cons.2 ⟨hP n (by omega), htail⟩
  · exact forall_mem_digitsOnto hP (n / b)
      (List.forall_mem_cons.2 ⟨hP _ (Nat.mod_lt n (by omega)), htail⟩)
termination_by n
decreasing_by exact Nat.div_lt_self (by omega) hb

/-- A number has as many digits as it needs, but zero has one. -/
theorem length_digitsOnto (n : Nat) (tail : List Char) :
    (digitsOnto letters b n tail).length = max 1 (Nat.digits b n).length + tail.length := by
  rw [digitsOnto]
  split
  · rename_i h
    have hlt : n < b := by omega
    rcases Nat.eq_zero_or_pos n with rfl | hpos
    · simp [Nat.add_comm]
    · rw [Nat.digits_of_lt b n (by omega) hlt]
      simp [Nat.add_comm]
  · rename_i h
    have hhigh : n / b ≠ 0 := (Nat.div_pos (by omega) (by omega)).ne'
    have hlength := List.length_pos_iff.2 (Nat.digits_ne_nil_iff_ne_zero (b := b).2 hhigh)
    have hdigits : Nat.digits b n = n % b :: Nat.digits b (n / b) := Nat.digits_def' hb (by omega)
    rw [length_digitsOnto (n / b), hdigits, List.length_cons, List.length_cons]
    omega
termination_by n
decreasing_by exact Nat.div_lt_self (by omega) hb

end

/-! ## Zeros in front -/

theorem length_padZeros (width : Nat) (cs : List Char) :
    (padZeros width cs).length = max width cs.length := by
  rw [padZeros, List.length_append, List.length_replicate]
  omega

theorem forall_mem_padZeros {P : Char → Prop} (hzero : P '0') {cs : List Char}
    (h : ∀ c ∈ cs, P c) (width : Nat) : ∀ c ∈ padZeros width cs, P c :=
  List.forall_mem_append.2 ⟨fun _ hc => List.eq_of_mem_replicate hc ▸ hzero, h⟩

/-! ## Decimal numerals -/

/-- The number that decimal digits spell behind the number `n`. -/
def readDigits (n : Nat) (cs : List Char) : Nat := cs.foldl (fun n c => n * 10 + digitValue c) n

theorem readDigits_eq (n : Nat) (cs : List Char) :
    readDigits n cs = n * 10 ^ cs.length + readDigits 0 cs := by
  unfold readDigits
  induction cs generalizing n with
  | nil => simp
  | cons c cs ih =>
    rw [List.foldl_cons, List.foldl_cons, ih, ih (0 * 10 + digitValue c), List.length_cons,
      pow_succ]
    ring

/-- A run that is read in pieces is read as a whole. -/
theorem ofDigitsIn_eq (depth : Nat) (cs : List Char) : ofDigitsIn depth cs = readDigits 0 cs := by
  induction depth generalizing cs with
  | zero => rfl
  | succ depth ih =>
    have hlength : (cs.drop (cs.length / 2)).length = cs.length - cs.length / 2 := List.length_drop
    rw [ofDigitsIn, ih, ih, Nat.pow_eq, ← hlength, ← readDigits_eq]
    unfold readDigits
    rw [← List.foldl_append, List.take_append_drop]

theorem digitValue_digit (letters : DigitCase) : ∀ d < 10, digitValue (letters.digit d) = d := by
  cases letters <;> decide

theorem readDigits_digitsOnto (letters : DigitCase) (n : Nat) (tail : List Char) :
    readDigits 0 (digitsOnto letters 10 n tail) = readDigits n tail := by
  rw [digitsOnto]
  split
  · rename_i h
    rw [readDigits, List.foldl_cons, digitValue_digit letters n (by omega), Nat.zero_mul,
      Nat.zero_add]
    rfl
  · rw [readDigits_digitsOnto letters (n / 10), readDigits, List.foldl_cons,
      digitValue_digit letters _ (Nat.mod_lt n (by decide)), Nat.div_add_mod']
    rfl
termination_by n
decreasing_by exact Nat.div_lt_self (by omega) (by omega)

theorem readDigits_padZeros (width : Nat) (cs : List Char) :
    readDigits 0 (padZeros width cs) = readDigits 0 cs := by
  unfold padZeros
  induction width - cs.length with
  | zero => rfl
  | succ k ih => exact ih

/-- A decimal numeral is read back, whatever it is padded to. -/
theorem ofDigits_padZeros (letters : DigitCase) (width n : Nat) :
    ofDigits (padZeros width (digits letters 10 n)) = n := by
  rw [ofDigits, ofDigitsIn_eq, readDigits_padZeros, digits, readDigits_digitsOnto]
  rfl

/-! ## Hexadecimal numerals -/

theorem hexDigitValue?_digit (letters : DigitCase) :
    ∀ d < 16, hexDigitValue? (letters.digit d) = some d := by
  cases letters <;> decide

theorem hexFrom?_cons (bound n : Nat) (c : Char) (cs : List Char) :
    hexFrom? bound n (c :: cs) =
      match hexDigitValue? c with
      | some d => if n * 16 + d ≤ bound then hexFrom? bound (n * 16 + d) cs else none
      | none   => none := rfl

/-- Read behind nothing, the digits of a number up to the bound are the number. -/
theorem hexFrom?_digitsOnto (letters : DigitCase) {bound n : Nat} (h : n ≤ bound)
    (tail : List Char) :
    hexFrom? bound 0 (digitsOnto letters 16 n tail) = hexFrom? bound n tail := by
  rw [digitsOnto]
  split
  · rename_i hlast
    rw [hexFrom?_cons, hexDigitValue?_digit letters n (by omega)]
    simp [h]
  · have hhigh : n / 16 ≤ bound := Nat.le_trans (Nat.div_le_self n 16) h
    have hsplit : n / 16 * 16 + n % 16 = n := Nat.div_add_mod' n 16
    rw [hexFrom?_digitsOnto letters hhigh, hexFrom?_cons,
      hexDigitValue?_digit letters _ (Nat.mod_lt n (by decide))]
    simp [hsplit, h]
termination_by n
decreasing_by exact Nat.div_lt_self (by omega) (by omega)

theorem hexFrom?_padZeros (bound width : Nat) (cs : List Char) :
    hexFrom? bound 0 (padZeros width cs) = hexFrom? bound 0 cs := by
  unfold padZeros
  induction width - cs.length with
  | zero => rfl
  | succ k ih =>
    rw [List.replicate_succ, List.cons_append, hexFrom?_cons]
    exact ih

/-- A hexadecimal numeral of a number up to the bound is read back, whatever it is padded to. -/
theorem hex?_padZeros (letters : DigitCase) {bound n : Nat} (h : n ≤ bound) (width : Nat) :
    hex? bound (padZeros width (digits letters 16 n)) = some n := by
  have hsign : ∀ c ∈ padZeros width (digits letters 16 n), c ≠ '+' :=
    forall_mem_padZeros (by decide) (forall_mem_digitsOnto (by decide) letters
      (by cases letters <;> decide) n (by simp)) width
  have hread : hexFrom? bound 0 (padZeros width (digits letters 16 n)) = some n := by
    rw [hexFrom?_padZeros, digits, hexFrom?_digitsOnto letters h]
    rfl
  have hlength : 0 < (padZeros width (digits letters 16 n)).length := by
    rw [length_padZeros, digits, length_digitsOnto (by decide)]
    simp
  obtain ⟨d, ds, hds⟩ := List.exists_cons_of_length_pos hlength
  rw [hds] at hsign hread ⊢
  unfold hex?
  split
  · rename_i heq
    exact absurd (List.cons.inj heq).1 (hsign d List.mem_cons_self)
  · simpa using hread

end TypedTemplate.Number
