-- SUMMARY: The split of a body by offsets into its bytes, and the parts it has.
import TypedTemplate.Proofs.Interpolation.Bytes
import TypedTemplate.Proofs.Interpolation.Nested

/-!
# Splitting a body

The split looks at one byte at a time and takes characters, escapes, doubled braces and
holes off the body by slices. On a body that is made of such parts every slice is a text
and the parts come out as they stand. The pieces of the body are put together from them.
-/

namespace TypedTemplate

/-! ## The split -/

/-- What one step of the split takes off a body. -/
inductive BodyPart where
  | char (c : Char)
  /-- A backslash and `c`. -/
  | escape (c : Char)
  /-- The brace `c` twice. -/
  | doubled (c : Char)
  /-- A hole with the text `cs` between its braces. -/
  | hole (cs : List Char)
deriving DecidableEq

/-- A part with the offsets at which it starts and ends. -/
structure LocatedPart where
  start : Nat
  stop : Nat
  part : BodyPart
deriving DecidableEq

/-- Take a part off the body where the byte `b` stands at `i`. Gives the offset behind it too, or
nothing if a slice is no text. -/
def splitStep (body : List Char) (i : Nat) (b : UInt8) : Option (BodyPart × Nat) :=
  let next := (Text.utf8 body)[i + 1]?
  if b == '\\'.toUInt8 then
    (Text.sliceFrom body (i + 1)).map fun rest =>
      let c := rest.head?.getD '\\'
      (.escape c, i + 1 + c.utf8Size)
  else if b == '\x7b'.toUInt8 && next == some '\x7b'.toUInt8 then some (.doubled '\x7b', i + 2)
  else if b == '\x7d'.toUInt8 && next == some '\x7d'.toUInt8 then some (.doubled '\x7d', i + 2)
  else if b == '\x7b'.toUInt8 then
    let stop := holeEnd (Text.utf8 body) false (i + 1)
    (Text.slice body (i + 1) stop).map fun cs => (.hole cs, stop + 1)
  else
    (Text.sliceFrom body i).map fun rest =>
      let c := rest.head?.getD '\x00'
      (.char c, i + max c.utf8Size 1)

theorem lt_of_splitStep {body : List Char} {i : Nat} {b : UInt8} {p : BodyPart} {stop : Nat}
    (hb : (Text.utf8 body)[i]? = some b) (h : splitStep body i b = some (p, stop)) : i < stop := by
  have hlt := (List.getElem?_eq_some_iff.1 hb).1
  have hclose := min_le_holeEnd (Text.utf8 body) false (i + 1)
  unfold splitStep at h
  grind [Option.map_eq_some_iff]

/-- Split a body from the byte at `i` on. -/
def splitBytes (body : List Char) (i : Nat) : Option (List LocatedPart) :=
  match _hb : (Text.utf8 body)[i]? with
  | none   => some []
  | some b =>
    match _hstep : splitStep body i b with
    | none           => none
    | some (p, stop) => (splitBytes body stop).map (⟨i, stop, p⟩ :: ·)
termination_by (Text.utf8 body).length - i
decreasing_by
  have hlt := (List.getElem?_eq_some_iff.1 _hb).1
  have hstop := lt_of_splitStep _hb _hstep
  omega

/-! ## Parts -/

namespace BodyPart

/-- The characters of a part. -/
def chars : BodyPart → List Char
  | .char c    => [c]
  | .escape c  => ['\\', c]
  | .doubled c => [c, c]
  | .hole cs   => '\x7b' :: (cs ++ ['\x7d'])

/-- A part as it stands in a string without faults. -/
def Valid : BodyPart → Prop
  | .char c    => isLineEnd c = false ∧ c ≠ '\\' ∧ c ≠ '"' ∧ c ≠ '\x7b' ∧ c ≠ '\x7d'
  | .escape c  => isEscape c = true
  | .doubled c => c = '\x7b' ∨ c = '\x7d'
  | .hole cs   => HoleText cs ∧ cs.head? ≠ some '\x7b'

/-- The parts with their offsets when the first starts at `i`. -/
def locate (i : Nat) : List BodyPart → List LocatedPart
  | []      => []
  | p :: ps =>
    ⟨i, i + Text.byteSize p.chars, p⟩ :: locate (i + Text.byteSize p.chars) ps

/-- The text of the parts. -/
def text (ps : List BodyPart) : List Char := ps.flatMap chars

@[simp] theorem text_nil : text [] = [] := rfl

@[simp] theorem text_cons (p : BodyPart) (ps : List BodyPart) :
    text (p :: ps) = p.chars ++ text ps := by
  simp [text]

end BodyPart

theorem splitBytes_of_step {body : List Char} {i : Nat} {b : UInt8} {p : BodyPart} {stop : Nat}
    (hb : (Text.utf8 body)[i]? = some b) (hstep : splitStep body i b = some (p, stop)) :
    splitBytes body i = (splitBytes body stop).map (⟨i, stop, p⟩ :: ·) := by
  rw [splitBytes]
  split
  · simp_all
  · split <;> simp_all

theorem splitBytes_end (body : List Char) : splitBytes body (Text.byteSize body) = some [] := by
  rw [splitBytes]
  split
  · rfl
  · rename_i hb
    have hlt := (List.getElem?_eq_some_iff.1 hb).1
    rw [Text.length_utf8] at hlt
    exact absurd hlt (Nat.lt_irrefl _)

/-! ## Splitting parts -/

section

variable {pre rest cs : List Char} {c d : Char}

theorem getElem?_utf8_append (pre cs : List Char) :
    (Text.utf8 (pre ++ cs))[Text.byteSize pre]? = (Text.utf8 cs)[0]? := by
  rw [Text.utf8_append, List.getElem?_append_right (by rw [Text.length_utf8]), Text.length_utf8,
    Nat.sub_self]

/-- A character of one byte is found at its offset. -/
theorem getElem?_utf8_mark (hc : c.toNat < 128) :
    (Text.utf8 (pre ++ c :: rest))[Text.byteSize pre]? = some c.toUInt8 := by
  rw [getElem?_utf8_append, Text.utf8_cons, Text.utf8EncodeChar_of_lt hc]
  rfl

/-- No byte of another character is there. -/
theorem getElem?_utf8_ne (hd : d.toNat < 128) (h : cs.head? ≠ some d) :
    (Text.utf8 (pre ++ cs))[Text.byteSize pre]? ≠ some d.toUInt8 := by
  rw [getElem?_utf8_append]
  cases cs with
  | nil => simp
  | cons c cs =>
    intro hbyte
    have hne : c ≠ d := by simpa using h
    refine hne (Text.eq_of_toUInt8_mem hd ?_)
    rw [Text.utf8_cons, List.getElem?_append_left (by simp [c.utf8Size_pos])] at hbyte
    exact List.mem_of_getElem? hbyte

theorem byteSize_snoc (hc : c.toNat < 128) :
    Text.byteSize (pre ++ [c]) = Text.byteSize pre + 1 := by
  rw [Text.byteSize_append, Text.byteSize_cons, Text.utf8Size_of_lt hc]
  rfl

theorem splitStep_char (hescape : c ≠ '\\') (hopen : c ≠ '\x7b') (hclose : c ≠ '\x7d') :
    ∃ b, (Text.utf8 (pre ++ c :: rest))[Text.byteSize pre]? = some b ∧
      splitStep (pre ++ c :: rest) (Text.byteSize pre) b =
        some (.char c, Text.byteSize pre + c.utf8Size) := by
  have hlt : Text.byteSize pre < (Text.utf8 (pre ++ c :: rest)).length := by
    rw [Text.length_utf8, Text.byteSize_append, Text.byteSize_cons]
    have := c.utf8Size_pos
    omega
  have hbyte := List.getElem?_eq_getElem hlt
  have hne {d : Char} (hd : d.toNat < 128) (hcd : c ≠ d) :
      (Text.utf8 (pre ++ c :: rest))[Text.byteSize pre] ≠ d.toUInt8 := fun heq =>
    getElem?_utf8_ne hd (by simpa using hcd) (hbyte.trans (congrArg some heq))
  refine ⟨_, hbyte, ?_⟩
  simp only [splitStep, beq_iff_eq, hne (d := '\\') (by decide) hescape,
    hne (d := '\x7b') (by decide) hopen, hne (d := '\x7d') (by decide) hclose, if_false,
    Bool.and_eq_true, false_and, Text.sliceFrom_append, Option.map_some, List.head?_cons,
    Option.getD_some, Nat.max_eq_left c.utf8Size_pos]

theorem splitStep_escape :
    splitStep (pre ++ '\\' :: c :: rest) (Text.byteSize pre) '\\'.toUInt8 =
      some (.escape c, Text.byteSize pre + 1 + c.utf8Size) := by
  have hslice := Text.sliceFrom_append (pre ++ ['\\']) (c :: rest)
  rw [byteSize_snoc (by decide), List.append_assoc] at hslice
  rw [splitStep, show '\\' :: c :: rest = ['\\'] ++ c :: rest from rfl, hslice]
  rfl

theorem splitStep_doubled (hc : c = '\x7b' ∨ c = '\x7d') :
    splitStep (pre ++ c :: c :: rest) (Text.byteSize pre) c.toUInt8 =
      some (.doubled c, Text.byteSize pre + 2) := by
  have hlow : c.toNat < 128 := by rcases hc with rfl | rfl <;> decide
  have hnext : (Text.utf8 (pre ++ [c] ++ c :: rest))[Text.byteSize (pre ++ [c])]? =
      some c.toUInt8 := getElem?_utf8_mark hlow
  rw [byteSize_snoc hlow, List.append_assoc] at hnext
  rw [splitStep, show c :: c :: rest = [c] ++ c :: rest from rfl, hnext]
  rcases hc with rfl | rfl <;> rfl

/-- The hole that opens at an offset ends behind its text. -/
theorem holeEnd_utf8 (hcs : HoleText cs) :
    holeEnd (Text.utf8 (pre ++ '\x7b' :: (cs ++ '\x7d' :: rest))) false (Text.byteSize pre + 1) =
      Text.byteSize pre + 1 + Text.byteSize cs := by
  refine hcs.holeEnd_eq (?_ : _ = _ ++ _ :: Text.utf8 rest)
  rw [List.append_cons, Text.utf8_append, ← byteSize_snoc (by decide : '\x7b'.toNat < 128),
    ← Text.length_utf8, List.drop_left, Text.utf8_append, Text.utf8_cons,
    Text.utf8EncodeChar_of_lt (by decide)]
  rfl

theorem splitStep_hole (hcs : HoleText cs) (hhead : cs.head? ≠ some '\x7b') :
    splitStep (pre ++ '\x7b' :: (cs ++ '\x7d' :: rest)) (Text.byteSize pre) '\x7b'.toUInt8 =
      some (.hole cs, Text.byteSize pre + 1 + Text.byteSize cs + 1) := by
  have hsize : Text.byteSize (pre ++ ['\x7b']) = Text.byteSize pre + 1 := byteSize_snoc (by decide)
  have hnext : (Text.utf8 (pre ++ '\x7b' :: (cs ++ '\x7d' :: rest)))[Text.byteSize pre + 1]? ≠
      some '\x7b'.toUInt8 := by
    rw [List.append_cons, ← hsize]
    exact getElem?_utf8_ne (by decide) (head?_append_ne hhead (by decide))
  have hslice := Text.slice_append (pre ++ ['\x7b']) cs ('\x7d' :: rest)
  rw [← List.append_cons, hsize] at hslice
  simp only [splitStep, holeEnd_utf8 hcs, hslice, Option.map_some, beq_eq_false_iff_ne.2 hnext]
  rfl

/-- One step takes a valid part off, whatever stands before and behind it. -/
theorem splitStep_part {p : BodyPart} (hp : p.Valid) (pre rest : List Char) :
    ∃ b, (Text.utf8 (pre ++ (p.chars ++ rest)))[Text.byteSize pre]? = some b ∧
      splitStep (pre ++ (p.chars ++ rest)) (Text.byteSize pre) b =
        some (p, Text.byteSize (pre ++ p.chars)) := by
  rw [Text.byteSize_append]
  cases p with
  | char c =>
    obtain ⟨-, hescape, -, hopen, hclose⟩ := hp
    rw [BodyPart.chars, Text.byteSize_singleton]
    exact splitStep_char hescape hopen hclose
  | escape c =>
    refine ⟨_, getElem?_utf8_mark (by decide), ?_⟩
    rw [BodyPart.chars, Text.byteSize_cons, Text.byteSize_singleton, Text.utf8Size_of_lt (by decide),
      ← Nat.add_assoc]
    exact splitStep_escape
  | doubled c =>
    have hlow : c.toNat < 128 := by rcases hp with rfl | rfl <;> decide
    refine ⟨_, getElem?_utf8_mark hlow, ?_⟩
    rw [BodyPart.chars, Text.byteSize_cons, Text.byteSize_singleton, Text.utf8Size_of_lt hlow]
    exact splitStep_doubled hp
  | hole cs =>
    obtain ⟨hcs, hhead⟩ := hp
    refine ⟨_, getElem?_utf8_mark (by decide), ?_⟩
    rw [BodyPart.chars, Text.byteSize_cons, Text.byteSize_append, Text.byteSize_singleton,
      Text.utf8Size_of_lt (by decide), Text.utf8Size_of_lt (by decide), List.cons_append,
      List.append_assoc, List.singleton_append, splitStep_hole hcs hhead]
    exact congrArg (fun n => some (_, n)) (by omega)

/-- A body of valid parts is split into them. -/
theorem splitBytes_text {ps : List BodyPart} (hps : ∀ p ∈ ps, p.Valid) (pre : List Char) :
    splitBytes (pre ++ BodyPart.text ps) (Text.byteSize pre) =
      some (BodyPart.locate (Text.byteSize pre) ps) := by
  induction ps generalizing pre with
  | nil => rw [BodyPart.text_nil, List.append_nil, splitBytes_end, BodyPart.locate]
  | cons p ps ih =>
    obtain ⟨hp, hps⟩ := List.forall_mem_cons.1 hps
    obtain ⟨b, hb, hstep⟩ := splitStep_part hp pre (BodyPart.text ps)
    have hrest := ih hps (pre ++ p.chars)
    rw [List.append_assoc] at hrest
    rw [BodyPart.text_cons, splitBytes_of_step hb hstep, hrest, BodyPart.locate,
      Text.byteSize_append]
    rfl

end

/-! ## Located parts -/

/-- The parts stand one behind the other from `i` up to `j`. -/
def Tiles : (i : Nat) → List LocatedPart → (j : Nat) → Prop
  | i, [], j      => i = j
  | i, p :: ps, j => p.start = i ∧ i < p.stop ∧ Tiles p.stop ps j

namespace BodyPart

variable {p : BodyPart} {ps : List BodyPart} {l : LocatedPart}

theorem byteSize_chars_pos (p : BodyPart) : 0 < Text.byteSize p.chars := by
  have hcons (c : Char) (cs : List Char) : 0 < Text.byteSize (c :: cs) := by
    rw [Text.byteSize_cons]
    exact Nat.add_pos_left c.utf8Size_pos _
  cases p <;> exact hcons _ _

theorem tiles_locate (i : Nat) (ps : List BodyPart) :
    Tiles i (locate i ps) (i + Text.byteSize (text ps)) := by
  induction ps generalizing i with
  | nil => rfl
  | cons p ps ih =>
    refine ⟨rfl, Nat.lt_add_of_pos_right p.byteSize_chars_pos, ?_⟩
    rw [text_cons, Text.byteSize_append, ← Nat.add_assoc]
    exact ih _

/-- A located part stands in the text where it is said to stand. -/
theorem exists_of_mem_locate (pre : List Char) (h : l ∈ locate (Text.byteSize pre) ps) :
    l.part ∈ ps ∧ ∃ before rest, pre ++ text ps = before ++ (l.part.chars ++ rest) ∧
      l.start = Text.byteSize before ∧ l.stop = Text.byteSize before + Text.byteSize l.part.chars := by
  induction ps generalizing pre with
  | nil => simp [locate] at h
  | cons p ps ih =>
    rw [locate, List.mem_cons] at h
    obtain rfl | h := h
    · exact ⟨List.mem_cons_self, pre, text ps, by rw [text_cons], rfl, rfl⟩
    · rw [← Text.byteSize_append] at h
      obtain ⟨hmem, before, rest, hsplit, hstart, hstop⟩ := ih (pre ++ p.chars) h
      refine ⟨List.mem_cons_of_mem p hmem, before, rest, ?_, hstart, hstop⟩
      rw [text_cons, ← List.append_assoc, hsplit]

/-- A closing brace is part of a hole, of a doubled brace or of an escape. -/
theorem eq_of_brace_mem (hp : p.Valid) (h : '\x7d'.toUInt8 ∈ Text.utf8 p.chars) :
    (∃ cs, p = .hole cs) ∨ p = .doubled '\x7d' ∨ p = .escape '\x7d' := by
  have hbrace {c : Char} (hc : '\x7d'.toUInt8 ∈ String.utf8EncodeChar c) : c = '\x7d' :=
    Text.eq_of_toUInt8_mem (by decide) hc
  cases p with
  | char c => exact absurd (hbrace (by simpa [chars] using h)) hp.2.2.2.2
  | escape c =>
    have hmem : '\x7d'.toUInt8 ∈ String.utf8EncodeChar '\\' ∨
        '\x7d'.toUInt8 ∈ String.utf8EncodeChar c := by simpa [chars] using h
    obtain hmem | hmem := hmem
    · exact absurd (hbrace hmem) (by decide)
    · exact .inr (.inr (congrArg _ (hbrace hmem)))
  | doubled c => exact .inr (.inl (congrArg _ (hbrace (by simpa [chars] using h))))
  | hole cs => exact .inl ⟨cs, rfl⟩

theorem exists_of_brace (hps : ∀ p ∈ ps, p.Valid) (i : Nat) {k : Nat}
    (h : (Text.utf8 (text ps))[k]? = some '\x7d'.toUInt8) :
    ∃ l ∈ locate i ps, l.start ≤ i + k ∧ i + k < l.stop ∧
      ((∃ cs, l.part = .hole cs) ∨ l.part = .doubled '\x7d' ∨ l.part = .escape '\x7d') := by
  induction ps generalizing i k with
  | nil => simp at h
  | cons p ps ih =>
    obtain ⟨hp, hps⟩ := List.forall_mem_cons.1 hps
    rw [text_cons, Text.utf8_append] at h
    by_cases hk : k < (Text.utf8 p.chars).length
    · rw [List.getElem?_append_left hk] at h
      rw [Text.length_utf8] at hk
      exact ⟨_, List.mem_cons_self, Nat.le_add_right _ _, Nat.add_lt_add_left hk i,
        eq_of_brace_mem hp (List.mem_of_getElem? h)⟩
    · rw [List.getElem?_append_right (Nat.le_of_not_lt hk), Text.length_utf8] at h
      rw [Text.length_utf8] at hk
      obtain ⟨l, hl, hle, hlt, hpart⟩ := ih hps (i + Text.byteSize p.chars) h
      exact ⟨l, List.mem_cons_of_mem _ hl, by omega, by omega, hpart⟩

end BodyPart

/-! ## Pieces -/

/-- Put the pieces of a body at `start` together from its parts. What is in `taken`, in reverse, is
text before the parts. -/
def assemble (start : Place) (taken : List Char) : List LocatedPart → List Piece
  | []      => (PieceMode.text taken).finish []
  | p :: ps =>
    match p.part with
    | .char c    => assemble start (c :: taken) ps
    | .escape c  => assemble start (resolveEscape c :: taken) ps
    | .doubled c => assemble start (c :: taken) ps
    | .hole cs   =>
      (PieceMode.text taken).finish [] ++
        .hole ⟨start.line, start.col + p.start⟩ cs :: assemble start [] ps

theorem finish_text_append (taken : List Char) (out : List Piece) :
    ((PieceMode.text taken).finish out).reverse =
      out.reverse ++ (PieceMode.text taken).finish [] := by
  cases taken <;> simp [PieceMode.finish]

/-- Cutting a text at a place is cutting it into the parts it has. -/
theorem cutPieces_text {ps : List BodyPart} (hps : ∀ p ∈ ps, p.Valid)
    (hline : ∀ c ∈ BodyPart.text ps, c ≠ '\n') (start : Place) (i : Nat) (taken : List Char)
    (out : List Piece) :
    cutPieces out (.text taken) ⟨start.line, start.col + i⟩ (BodyPart.text ps) =
      out.reverse ++ assemble start taken (BodyPart.locate i ps) := by
  induction ps generalizing i taken out with
  | nil => rw [BodyPart.text_nil, cutPieces, BodyPart.locate, assemble, finish_text_append]
  | cons p ps ih =>
    obtain ⟨hp, hps⟩ := List.forall_mem_cons.1 hps
    rw [BodyPart.text_cons, List.forall_mem_append] at hline
    have hbehind : (⟨start.line, start.col + i⟩ : Place).after p.chars =
        ⟨start.line, start.col + (i + Text.byteSize p.chars)⟩ := by
      rw [Place.after_of_not_mem fun hmem => hline.1 _ hmem rfl, Nat.add_assoc]
    have hrest := ih hps hline.2 (i + Text.byteSize p.chars)
    rw [← hbehind] at hrest
    rw [BodyPart.text_cons, BodyPart.locate]
    cases p with
    | char c =>
      obtain ⟨-, hescape, -, hopen, hclose⟩ := hp
      exact (CutsTo.textChar taken hopen hclose hescape out _ _).trans (hrest (c :: taken) out)
    | escape c => exact (CutsTo.escape taken c out _ _).trans (hrest _ out)
    | doubled c =>
      have hcut : CutsTo (.text taken) [c, c] (.text (c :: taken)) := by
        rcases hp with rfl | rfl
        · exact CutsTo.brace taken true
        · exact CutsTo.brace taken false
      exact (hcut out _ _).trans (hrest _ out)
    | hole cs =>
      obtain ⟨hcs, hhead⟩ := hp
      rw [BodyPart.chars, List.cons_append, List.append_assoc, List.singleton_append,
        cutPieces_open (head?_append_ne hhead (by decide)), hcs.cutsTo, cutPieces_close,
        List.append_nil, List.reverse_reverse]
      rw [BodyPart.chars, Place.after_cons, Place.after_append] at hrest
      refine (hrest [] _).trans ?_
      rw [List.reverse_cons, finish_text_append, List.append_assoc, List.append_assoc]
      rfl

end TypedTemplate
