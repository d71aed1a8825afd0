-- SUMMARY: Reading the bytes of a text from offsets, and where a hole ends among them.
import TypedTemplate.Proofs.Interpolation.Enclosed
import TypedTemplate.Proofs.Source.Region

/-!
# Bytes of a body

The body of an interpolated string may be split by its bytes in UTF-8, with offsets into
them. A slice at an offset inside of a character would be no text. Looking for marks byte
by byte is safe, since no byte of a longer character is a mark.
-/

namespace TypedTemplate

/-! ## Bytes -/

namespace Text

/-- The bytes of a text in UTF-8. -/
def utf8 (cs : List Char) : List UInt8 := cs.flatMap String.utf8EncodeChar

/-- The text behind the first `i` bytes, if a character ends there. -/
def sliceFrom : (cs : List Char) → (i : Nat) → Option (List Char)
  | cs, 0          => some cs
  | [], _ + 1      => none
  | c :: cs, i + 1 => if c.utf8Size ≤ i + 1 then sliceFrom cs (i + 1 - c.utf8Size) else none

/-- The text of the first `i` bytes, if a character ends there. -/
def sliceTo : (cs : List Char) → (i : Nat) → Option (List Char)
  | _, 0           => some []
  | [], _ + 1      => none
  | c :: cs, i + 1 =>
    if c.utf8Size ≤ i + 1 then (sliceTo cs (i + 1 - c.utf8Size)).map (c :: ·) else none

/-- The text of the bytes from `i` to `j`, if characters end at both. -/
def slice (cs : List Char) (i j : Nat) : Option (List Char) :=
  if i ≤ j then (sliceFrom cs i).bind (sliceTo · (j - i)) else none

variable (cs ds es : List Char) (c d : Char)

@[simp] theorem utf8_nil : utf8 [] = [] := rfl

@[simp] theorem utf8_cons : utf8 (c :: cs) = String.utf8EncodeChar c ++ utf8 cs := by
  simp [utf8]

@[simp] theorem utf8_append : utf8 (cs ++ ds) = utf8 cs ++ utf8 ds := by
  simp [utf8]

@[simp] theorem length_utf8 : (utf8 cs).length = byteSize cs := by
  induction cs with
  | nil => rfl
  | cons c cs ih => rw [utf8_cons, List.length_append, String.length_utf8EncodeChar, ih, byteSize_cons]

@[simp] theorem byteSize_singleton : byteSize [c] = c.utf8Size := by
  simp [byteSize]

theorem sliceFrom_append : sliceFrom (cs ++ ds) (byteSize cs) = some ds := by
  induction cs with
  | nil => cases ds <;> rfl
  | cons c cs ih =>
    have hpos := c.utf8Size_pos
    obtain ⟨i, hi⟩ : ∃ i, byteSize (c :: cs) = i + 1 := ⟨byteSize (c :: cs) - 1, by
      rw [byteSize_cons]; omega⟩
    have hrest : i + 1 - c.utf8Size = byteSize cs := by rw [← hi, byteSize_cons]; omega
    rw [hi, List.cons_append, sliceFrom, if_pos (by rw [← hi, byteSize_cons]; omega), hrest, ih]

theorem sliceTo_append : sliceTo (cs ++ ds) (byteSize cs) = some cs := by
  induction cs with
  | nil => cases ds <;> rfl
  | cons c cs ih =>
    have hpos := c.utf8Size_pos
    obtain ⟨i, hi⟩ : ∃ i, byteSize (c :: cs) = i + 1 := ⟨byteSize (c :: cs) - 1, by
      rw [byteSize_cons]; omega⟩
    have hrest : i + 1 - c.utf8Size = byteSize cs := by rw [← hi, byteSize_cons]; omega
    rw [hi, List.cons_append, sliceTo, if_pos (by rw [← hi, byteSize_cons]; omega), hrest, ih]
    rfl

theorem slice_append :
    slice (cs ++ (ds ++ es)) (byteSize cs) (byteSize cs + byteSize ds) = some ds := by
  rw [slice, if_pos (Nat.le_add_right _ _), sliceFrom_append, Nat.add_sub_cancel_left]
  exact sliceTo_append ds es

/-- Among the bytes of a character, that of another character of one byte does not occur. -/
theorem eq_of_toUInt8_mem {c d : Char} (hd : d.toNat < 128)
    (h : d.toUInt8 ∈ String.utf8EncodeChar c) : c = d := by
  have hmark : d.toUInt8.toNat = d.toNat := by
    rw [Char.toUInt8, UInt32.toNat_toUInt8]
    exact Nat.mod_eq_of_lt (Nat.lt_of_lt_of_le hd (by decide))
  have hlow (n : Nat) (hn : 128 ≤ n ∧ n < 256) : d.toUInt8 ≠ UInt8.ofNat n := fun heq => by
    have hnat := congrArg UInt8.toNat heq
    rw [hmark, UInt8.toNat_ofNat_of_lt' hn.2] at hnat
    omega
  unfold String.utf8EncodeChar at h
  dsimp only at h
  split at h
  · rename_i hone
    have hnat := congrArg UInt8.toNat (List.mem_singleton.1 h)
    rw [hmark, UInt8.toNat_ofNat_of_lt' (Nat.lt_of_le_of_lt hone (by decide))] at hnat
    exact Char.ext (UInt32.toNat_inj.1 hnat.symm)
  · -- no byte of a longer character is below 128
    exfalso
    split at h
    · simp only [List.mem_cons, List.not_mem_nil, or_false] at h
      rcases h with h | h <;> exact hlow _ (by omega) h
    split at h
    · simp only [List.mem_cons, List.not_mem_nil, or_false] at h
      rcases h with h | h | h <;> exact hlow _ (by omega) h
    · simp only [List.mem_cons, List.not_mem_nil, or_false] at h
      rcases h with h | h | h | h <;> exact hlow _ (by omega) h

theorem utf8Size_of_lt {c : Char} (hc : c.toNat < 128) : c.utf8Size = 1 :=
  Char.utf8Size_eq_one_iff.2 (UInt32.le_iff_toNat_le.2 (Nat.le_of_lt_succ hc))

theorem utf8EncodeChar_of_lt {c : Char} (hc : c.toNat < 128) :
    String.utf8EncodeChar c = [c.toUInt8] :=
  String.utf8EncodeChar_eq_singleton (utf8Size_of_lt hc)

end Text

theorem toNat_lt_of_isEscape {c : Char} (h : isEscape c = true) : c.toNat < 128 := by
  unfold isEscape at h
  simp only [Bool.or_eq_true, beq_iff_eq] at h
  rcases h with ((((((rfl | rfl) | rfl) | rfl) | rfl) | rfl) | rfl) | rfl <;> decide

/-! ## The end of a hole -/

/-- The offset of the byte that closes a hole, searched from `i` on, or the length if none does. -/
def holeEnd (bytes : List UInt8) (quoted : Bool) (i : Nat) : Nat :=
  match _h : bytes[i]? with
  | none   => bytes.length
  | some b =>
    if quoted && b == '\\'.toUInt8 then holeEnd bytes quoted (i + 2)
    else if b == '"'.toUInt8 then holeEnd bytes (!quoted) (i + 1)
    else if b == '\x7d'.toUInt8 && !quoted then i
    else holeEnd bytes quoted (i + 1)
termination_by bytes.length - i
decreasing_by
  all_goals
    have := (List.getElem?_eq_some_iff.1 _h).1
    omega

section

variable {bytes bs post : List UInt8} {quoted : Bool} {i : Nat} {b : UInt8} {c : Char}

theorem holeEnd_of_byte (h : bytes[i]? = some b) :
    holeEnd bytes quoted i =
      if quoted && b == '\\'.toUInt8 then holeEnd bytes quoted (i + 2)
      else if b == '"'.toUInt8 then holeEnd bytes (!quoted) (i + 1)
      else if b == '\x7d'.toUInt8 && !quoted then i
      else holeEnd bytes quoted (i + 1) := by
  rw [holeEnd]
  split
  · simp_all
  · rename_i b' hb'
    obtain rfl : b' = b := by simpa [h] using hb'.symm
    rfl

/-- The search goes forward. -/
theorem min_le_holeEnd (bytes : List UInt8) (quoted : Bool) (i : Nat) :
    min i bytes.length ≤ holeEnd bytes quoted i := by
  fun_induction holeEnd bytes quoted i <;> omega

theorem getElem?_of_drop (h : bytes.drop i = b :: post) : bytes[i]? = some b := by
  have hhead : (bytes.drop i)[0]? = some b := by rw [h]; rfl
  rwa [List.getElem?_drop, Nat.add_zero] at hhead

theorem drop_of_append (h : bytes.drop i = bs ++ post) : bytes.drop (i + bs.length) = post := by
  rw [← List.drop_drop, h, List.drop_left]

theorem drop_of_cons (h : bytes.drop i = b :: post) : bytes.drop (i + 1) = post := by
  rw [← List.drop_drop, h, List.drop_one, List.tail_cons]

/-- Bytes that are no marks are passed over. -/
theorem holeEnd_pass (h : bytes.drop i = bs ++ post) (hbs : ∀ b ∈ bs, b ≠ '"'.toUInt8 ∧
    (quoted = true → b ≠ '\\'.toUInt8) ∧ (quoted = false → b ≠ '\x7d'.toUInt8)) :
    holeEnd bytes quoted i = holeEnd bytes quoted (i + bs.length) := by
  induction bs generalizing i with
  | nil => rfl
  | cons b bs ih =>
    obtain ⟨⟨hquote, hescape, hclose⟩, hbs⟩ := List.forall_mem_cons.1 hbs
    have hnext : bytes.drop (i + 1) = bs ++ post := drop_of_cons h
    rw [holeEnd_of_byte (getElem?_of_drop h), List.length_cons, Nat.add_comm bs.length,
      ← Nat.add_assoc, ← ih hnext hbs]
    cases quoted <;> simp_all

theorem holeEnd_char (h : bytes.drop i = String.utf8EncodeChar c ++ post) (hquote : c ≠ '"')
    (hescape : quoted = true → c ≠ '\\') (hclose : quoted = false → c ≠ '\x7d') :
    holeEnd bytes quoted i = holeEnd bytes quoted (i + c.utf8Size) := by
  rw [← String.length_utf8EncodeChar]
  refine holeEnd_pass h fun b hb => ⟨?_, fun hquoted => ?_, fun hquoted => ?_⟩
  · rintro rfl
    exact hquote (Text.eq_of_toUInt8_mem (by decide) hb)
  · rintro rfl
    exact hescape hquoted (Text.eq_of_toUInt8_mem (by decide) hb)
  · rintro rfl
    exact hclose hquoted (Text.eq_of_toUInt8_mem (by decide) hb)

theorem holeEnd_quote (h : bytes.drop i = '"'.toUInt8 :: post) :
    holeEnd bytes quoted i = holeEnd bytes (!quoted) (i + 1) := by
  rw [holeEnd_of_byte (getElem?_of_drop h)]
  cases quoted <;> rfl

theorem holeEnd_close (h : bytes.drop i = '\x7d'.toUInt8 :: post) : holeEnd bytes false i = i := by
  rw [holeEnd_of_byte (getElem?_of_drop h)]
  rfl

/-- Quotes hide what is between them. -/
theorem Quotable.holeEnd_eq {s : List Char} (hs : Quotable s)
    (h : bytes.drop i = Text.utf8 s ++ post) :
    holeEnd bytes true i = holeEnd bytes true (i + Text.byteSize s) := by
  induction hs generalizing i with
  | nil => rfl
  | @char c s hline hescape hquote hs ih =>
    rw [Text.utf8_cons, List.append_assoc] at h
    have hnext := drop_of_append h
    rw [String.length_utf8EncodeChar] at hnext
    rw [holeEnd_char h hquote (fun _ => hescape) (by simp), ih hnext, Text.byteSize_cons,
      Nat.add_assoc]
  | @escape c s hc hs ih =>
    have hlow : c.toNat < 128 := toNat_lt_of_isEscape hc
    have hbytes : bytes.drop i = ['\\'.toUInt8, c.toUInt8] ++ (Text.utf8 s ++ post) := by
      rw [h, Text.utf8_cons, Text.utf8_cons, Text.utf8EncodeChar_of_lt (by decide),
        Text.utf8EncodeChar_of_lt hlow]
      rfl
    have hskip : holeEnd bytes true i = holeEnd bytes true (i + 2) := by
      rw [holeEnd_of_byte (getElem?_of_drop hbytes)]
      rfl
    refine hskip.trans ((ih (drop_of_append hbytes)).trans (congrArg _ ?_))
    rw [Text.byteSize_cons, Text.byteSize_cons, Text.utf8Size_of_lt (by decide),
      Text.utf8Size_of_lt hlow, ← Nat.add_assoc, ← Nat.add_assoc]
    rfl

/-- A hole ends behind the text that stands in it. -/
theorem HoleText.holeEnd_eq {cs : List Char} (hcs : HoleText cs)
    (h : bytes.drop i = Text.utf8 cs ++ '\x7d'.toUInt8 :: post) :
    holeEnd bytes false i = i + Text.byteSize cs := by
  induction hcs generalizing i with
  | nil => exact holeEnd_close h
  | @char c cs hline hquote hclose hcs ih =>
    rw [Text.utf8_cons, List.append_assoc] at h
    have hnext := drop_of_append h
    rw [String.length_utf8EncodeChar] at hnext
    rw [holeEnd_char h hquote (by simp) (fun _ => hclose), ih hnext, Text.byteSize_cons,
      Nat.add_assoc]
  | @string s cs hs hcs ih =>
    have hquote : String.utf8EncodeChar '"' = ['"'.toUInt8] := Text.utf8EncodeChar_of_lt (by decide)
    have hopen : bytes.drop i = '"'.toUInt8 ::
        (Text.utf8 s ++ '"'.toUInt8 :: (Text.utf8 cs ++ '\x7d'.toUInt8 :: post)) := by
      simpa [hquote] using h
    have hstring := drop_of_cons hopen
    have hend := drop_of_append hstring
    rw [Text.length_utf8] at hend
    rw [holeEnd_quote hopen, Bool.not_false, hs.holeEnd_eq hstring, holeEnd_quote hend,
      Bool.not_true, ih (drop_of_cons hend), Text.byteSize_cons, Text.byteSize_append,
      Text.byteSize_cons, Text.utf8Size_of_lt (by decide)]
    omega

end

end TypedTemplate
