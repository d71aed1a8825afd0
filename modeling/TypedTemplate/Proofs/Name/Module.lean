-- SUMMARY: The name of a module is one identifier, and gives the template's id back.
import TypedTemplate.Proofs.Number.Digits
import TypedTemplate.Proofs.Token.Literal
import TypedTemplate.Template.ModuleName

/-!
# Names of modules

The escapes in a module's name start with an underscore, and the character behind it tells
them apart. The hexadecimal digits of a code point end at the next underscore, which is the
end of the escape and never the start of another. So a name is read one escape after the
other, whichever characters of the id are neighbours.
-/

namespace TypedTemplate

/-! ## Code points -/

namespace Number

/-- The hexadecimal code point of a character gives it back. -/
theorem hexChar?_digits (c : Char) : hexChar? (digits .upper 16 c.toNat) = some c := by
  have hbound : c.toNat ≤ maxCodePoint := by
    have hvalid : c.toNat.isValidChar := c.valid
    unfold Nat.isValidChar at hvalid
    unfold maxCodePoint
    omega
  have hread : hex? maxCodePoint (digits .upper 16 c.toNat) = some c.toNat := by
    simpa [padZeros] using hex?_padZeros .upper hbound 0
  rw [hexChar?, hread]
  simp only [if_pos (show c.toNat.isValidChar from c.valid), Char.ofNat_toNat]

end Number

namespace ModuleName

/-! ## Escapes -/

theorem isWordChar_digit : ∀ d < 16, isWordChar (Number.DigitCase.upper.digit d) = true := by
  decide

theorem isWordChar_encodeChar (c : Char) : ∀ x ∈ encodeChar c, isWordChar x = true := by
  unfold encodeChar
  split
  · rename_i hc
    simpa [isWordChar] using .inl hc
  · split
    · rename_i letter hletter
      unfold letterOf? at hletter
      split at hletter <;> cases hletter <;> decide
    · intro x hx
      simp only [List.cons_append, List.mem_cons, List.mem_append, List.not_mem_nil, or_false] at hx
      rcases hx with rfl | rfl | hx | rfl
      · decide
      · decide
      · exact Number.forall_mem_digitsOnto (P := fun x => isWordChar x = true) (by decide) .upper
          isWordChar_digit c.toNat (by simp) x hx
      · decide

/-- The name of a module is one word. -/
theorem isWordChar_encode (cs : List Char) : ∀ c ∈ encode cs, isWordChar c = true := by
  intro c hc
  rcases List.mem_append.1 hc with hc | hc
  · exact (by decide : ∀ c ∈ start, isWordChar c = true) c hc
  · obtain ⟨x, -, hx⟩ := List.mem_flatMap.1 hc
    exact isWordChar_encodeChar x c hx

/-- A character other than an underscore is a digit of a code point that is being read, and stands
for itself if none is. -/
theorem decodeOnto_cons {c : Char} (hc : c ≠ '_') (out : List Char) (code : Option (List Char))
    (rest : List Char) :
    decodeOnto out code (c :: rest) =
      match code with
      | some ds => decodeOnto out (some (c :: ds)) rest
      | none    => decodeOnto (c :: out) none rest := by
  rw [decodeOnto.eq_def]
  split <;> simp_all

/-- The digits of a code point are read up to the next underscore. -/
theorem decodeOnto_digits {out code ds rest : List Char} (h : ∀ d ∈ ds, d ≠ '_') :
    decodeOnto out (some code) (ds ++ '_' :: rest) =
      decodeOnto out (some (ds.reverse ++ code)) ('_' :: rest) := by
  induction ds generalizing code with
  | nil => rfl
  | cons d ds ih =>
    obtain ⟨hd, hds⟩ := List.forall_mem_cons.1 h
    rw [List.cons_append, decodeOnto_cons hd]
    simpa using ih hds

/-- An underscore ends a code point. -/
theorem decodeOnto_underscore {out ds rest : List Char} {c : Char}
    (h : Number.hexChar? ds.reverse = some c) :
    decodeOnto out (some ds) ('_' :: rest) = decodeOnto (c :: out) none rest := by
  rw [decodeOnto.eq_def]
  simp [h]

theorem decodeOnto_letter {out rest : List Char} {c letter : Char} (h : letterOf? c = some letter) :
    decodeOnto out none ('_' :: letter :: rest) = decodeOnto (c :: out) none rest := by
  unfold letterOf? at h
  split at h <;> cases h <;> rfl

/-- A character is read back, whatever its neighbours are. -/
theorem decodeOnto_encodeChar (out : List Char) (c : Char) (rest : List Char) :
    decodeOnto out none (encodeChar c ++ rest) = decodeOnto (c :: out) none rest := by
  unfold encodeChar
  split
  case isTrue hc =>
    have hne : c ≠ '_' := by
      rintro rfl
      revert hc
      decide
    rw [List.singleton_append, decodeOnto_cons hne]
  case isFalse =>
    split
    · rename_i letter hletter
      exact decodeOnto_letter hletter
    · have hdigits : ∀ d ∈ Number.digits .upper 16 c.toNat, d ≠ '_' :=
        Number.forall_mem_digitsOnto (by decide) .upper (by decide) c.toNat (by simp)
      have hstart (cs : List Char) :
          decodeOnto out none ('_' :: 'x' :: cs) = decodeOnto out (some []) cs := rfl
      simp only [List.cons_append, List.append_assoc, List.nil_append]
      rw [hstart, decodeOnto_digits hdigits, List.append_nil]
      exact decodeOnto_underscore (by rw [List.reverse_reverse, Number.hexChar?_digits])

theorem decodeOnto_flatMap (out cs : List Char) :
    decodeOnto out none (cs.flatMap encodeChar) = some (out.reverse ++ cs) := by
  induction cs generalizing out with
  | nil =>
    rw [List.flatMap_nil, List.append_nil]
    rfl
  | cons c cs ih => simp [decodeOnto_encodeChar, ih]

/-- A text with a character is read back. -/
theorem decode_encode {cs : List Char} (h : cs ≠ []) : decode (encode cs) = some cs := by
  have hprefix : start.isPrefixOf (encode cs) = true :=
    List.isPrefixOf_iff_prefix.2 (List.prefix_append _ _)
  have hread : decodeOnto [] none ((encode cs).drop start.length) = some cs := by
    rw [encode, List.drop_left, decodeOnto_flatMap]
    rfl
  obtain ⟨c, cs, rfl⟩ := List.exists_cons_of_ne_nil h
  simp [decode, hprefix, hread]

/-! ## Names -/

theorem ofId_eq_ok {id name : String} :
    ofId id = .ok name ↔ id ≠ "" ∧ name = String.ofList (encode id.toList) := by
  unfold ofId
  cases hempty : id.isEmpty with
  | true => simp [String.isEmpty_iff.1 hempty]
  | false =>
    have hid : id ≠ "" := fun h => by simp [h] at hempty
    simp only [Bool.false_eq_true, if_false, Except.ok.injEq]
    exact ⟨fun h => ⟨hid, h.symm⟩, fun h => h.2.symm⟩

theorem id?_of_ofId {id name : String} (h : ofId id = .ok name) : id? name = some id := by
  obtain ⟨hid, rfl⟩ := ofId_eq_ok.1 h
  have hchars : id.toList ≠ [] := by simpa using hid
  rw [id?, String.toList_ofList, decode_encode hchars, Option.map_some, String.ofList_toList]

/-- The path of a type gives its module. -/
theorem typePath_injective : Function.Injective typePath := by
  intro m m' h
  have hchars := congrArg String.toList h
  simp only [typePath, typeName, String.toList_append, List.append_assoc] at hchars
  have hlength : m.toList.length = m'.toList.length := by
    have hall := congrArg List.length hchars
    simp only [List.length_append] at hall
    omega
  exact String.toList_inj.1 (List.append_inj_left hchars hlength)

theorem isIdentifier_encode (cs : List Char) : IsIdentifier (String.ofList (encode cs)) := by
  refine isIdentifier_of_head (c := 'S') ?_ (by decide) (by decide) ?_
  · rw [String.toList_ofList]
    rfl
  · rw [String.toList_ofList]
    exact isWordChar_encode cs

/-- Every id but the empty one has a module name. The name gives the id back, so no other id has
this name or this path of a type; and it is one identifier of the unit language, not a keyword. -/
theorem exists_ofId {id : String} (h : id ≠ "") :
    ∃ name, ofId id = .ok name ∧ id? name = some id ∧
      (∀ id', ofId id' = ofId id → id' = id) ∧
      (∀ id', typePathOfId id' = typePathOfId id → id' = id) ∧
      (∀ place, Lexemes.ofChars place name.toList = .single .identifier place name.toList) ∧
      ∀ kind, (name.toList, kind) ∉ TokenKind.keywords := by
  have hname : ofId id = .ok (String.ofList (encode id.toList)) := ofId_eq_ok.2 ⟨h, rfl⟩
  have hidentifier := isIdentifier_encode id.toList
  have hinjective : ∀ id', ofId id' = ofId id → id' = id := by
    intro id' h'
    rw [hname] at h'
    exact Option.some.inj ((id?_of_ofId h').symm.trans (id?_of_ofId hname))
  refine ⟨_, hname, id?_of_ofId hname, hinjective, fun id' h' => hinjective id' ?_,
    hidentifier.ofChars_eq_single, fun kind hkeyword => ?_⟩
  · simp only [typePathOfId, hname, Except.map] at h'
    cases hid' : ofId id' with
    | error e => simp [hid'] at h'
    | ok name' =>
      rw [hid'] at h'
      rw [hname, typePath_injective (Except.ok.inj h')]
  · have hstart : ∀ w ∈ TokenKind.keywords, w.1.head? ≠ some 'S' := by decide
    exact hstart _ hkeyword (by rw [String.toList_ofList]; rfl)

/-- Escapes of all forms next to each other. -/
theorem exists_ofId_escapes :
    ∃ name, ofId "a/_x.é\\🙂-" = .ok name ∧ id? name = some "a/_x.é\\🙂-" ∧
      (∀ id', ofId id' = ofId "a/_x.é\\🙂-" → id' = "a/_x.é\\🙂-") ∧
      (∀ id', typePathOfId id' = typePathOfId "a/_x.é\\🙂-" → id' = "a/_x.é\\🙂-") ∧
      (∀ place, Lexemes.ofChars place name.toList = .single .identifier place name.toList) ∧
      ∀ kind, (name.toList, kind) ∉ TokenKind.keywords :=
  exists_ofId (by decide)

end ModuleName

end TypedTemplate
