-- SUMMARY: The literal of a template is one token, which is cut into the texts and holes of its parts.
import Mathlib.Data.List.Forall2
import TypedTemplate.Grammar.Hole
import TypedTemplate.Proofs.Template.Part

/-!
# Bodies of template literals

The parts of a template stand in the literal of its unit one behind the other. The scan
of the literal returns to text behind each of them, so it ends at the closing quote.
The cut of the literal takes texts and braces that are neighbours together, and takes
each hole out as it was written.
-/

namespace TypedTemplate

variable {shape : Shape}

/-! ## Scanning -/

/-- From one mode the characters are scanned without faults up to another mode. -/
def Scans (mode : StringMode) (cs : List Char) (mode' : StringMode) : Prop :=
  ∀ place taken rest, ∃ place', scanString mode place taken [] (cs ++ rest) =
    scanString mode' place' (cs.reverse ++ taken) [] rest

namespace Scans

variable {mode mode' mode'' : StringMode} {cs cs' : List Char} {c d : Char}

theorem nil (mode : StringMode) : Scans mode [] mode := fun place _ _ => ⟨place, rfl⟩

theorem append (h : Scans mode cs mode') (h' : Scans mode' cs' mode'') :
    Scans mode (cs ++ cs') mode'' := by
  intro place taken rest
  obtain ⟨place₁, h₁⟩ := h place taken (cs' ++ rest)
  obtain ⟨place₂, h₂⟩ := h' place₁ (cs.reverse ++ taken) rest
  refine ⟨place₂, ?_⟩
  rw [List.append_assoc, h₁, h₂, List.reverse_append, List.append_assoc]

/-- A character that is read alone. -/
theorem one (h : ∀ place next, stringMove mode place c next = .one mode' none) :
    Scans mode [c] mode' := by
  intro place taken rest
  refine ⟨place.next c, ?_⟩
  rw [List.singleton_append, scanString, h]
  rfl

/-- Two characters that are read together. -/
theorem two (h : ∀ place, stringMove mode place c (some d) = .two mode' none) :
    Scans mode [c, d] mode' := by
  intro place taken rest
  refine ⟨place.after [c, d], ?_⟩
  rw [List.cons_append, List.singleton_append, scanString, List.head?_cons, h]
  rfl

/-- Characters that each stay in the mode. -/
theorem run (h : ∀ c ∈ cs, Scans mode [c] mode) : Scans mode cs mode := by
  induction cs with
  | nil => exact nil mode
  | cons c cs ih =>
    exact (h c List.mem_cons_self).append (ih fun c hc => h c (List.mem_cons_of_mem _ hc))

/-- A character of text. -/
theorem textChar (hline : isLineEnd c = false) (hopen : c ≠ '\x7b') (hclose : c ≠ '\x7d')
    (hescape : c ≠ '\\') (hquote : c ≠ '"') : Scans .text [c] .text :=
  one fun place next => by simp [stringMove, hline, hopen, hclose, hescape, hquote]

/-- A character of a hole outside quotes. -/
theorem holeChar (opening : Place) (hline : isLineEnd c = false) (hclose : c ≠ '\x7d')
    (hquote : c ≠ '"') : Scans (.hole opening) [c] (.hole opening) :=
  one fun place next => by simp [stringMove, hline, hclose, hquote]

/-- A character between the quotes of a hole. -/
theorem nestedChar (opening : Place) (hline : isLineEnd c = false) (hescape : c ≠ '\\')
    (hquote : c ≠ '"') : Scans (.nested opening) [c] (.nested opening) :=
  one fun place next => by simp [stringMove, hline, hescape, hquote]

theorem escapeQuotes
    (h : ∀ c ∈ cs, isLineEnd c = false ∧ c ≠ '\x7b' ∧ c ≠ '\x7d' ∧ c ≠ '\\') :
    Scans .text (Embed.escapeQuotes cs) .text := by
  induction cs with
  | nil => exact nil _
  | cons c cs ih =>
    have hrest := ih fun c hc => h c (List.mem_cons_of_mem _ hc)
    by_cases hc : c = '"'
    · subst hc
      exact (two (c := '\\') (d := '"') fun _ => rfl).append hrest
    · obtain ⟨hline, hopen, hclose, hescape⟩ := h c List.mem_cons_self
      have hcons : Embed.escapeQuotes (c :: cs) = [c] ++ Embed.escapeQuotes cs := by
        simp [Embed.escapeQuotes, hc]
      rw [hcons]
      exact (textChar hline hopen hclose hescape hc).append hrest

theorem code {h : TemplateHole} (hh : h.Valid shape) (opening : Place) :
    Scans (.hole opening) (h.code ['"']) (.hole opening) := by
  have hmodel : Scans (.hole opening) "model.".toList (.hole opening) :=
    run fun c hc => by
      obtain ⟨hline, hclose, hquote⟩ := (by decide : ∀ c ∈ "model.".toList,
        isLineEnd c = false ∧ c ≠ '\x7d' ∧ c ≠ '"') c hc
      exact holeChar opening hline hclose hquote
  have hfield : Scans (.hole opening) h.field.toList (.hole opening) :=
    run fun c hc => by
      refine holeChar opening ?_ (hh.identifier.ne_of_not_wordChar (by decide) c hc)
        (hh.identifier.ne_of_not_wordChar (by decide) c hc)
      have hnewline := hh.identifier.ne_of_not_wordChar (d := '\n') (by decide) c hc
      have hreturn := hh.identifier.ne_of_not_wordChar (d := '\r') (by decide) c hc
      simp [isLineEnd, hnewline, hreturn]
  refine hmodel.append (hfield.append ?_)
  cases hdefault : h.default with
  | none => exact nil _
  | some s =>
    have hblank : Scans (.hole opening) " ?? ".toList (.hole opening) :=
      run fun c hc => by
        obtain ⟨hline, hclose, hquote⟩ := (by decide : ∀ c ∈ " ?? ".toList,
          isLineEnd c = false ∧ c ≠ '\x7d' ∧ c ≠ '"') c hc
        exact holeChar opening hline hclose hquote
    have hopen : Scans (.hole opening) ['"'] (.nested opening) := one fun _ _ => rfl
    have hclose : Scans (.nested opening) ['"'] (.hole opening) := one fun _ _ => rfl
    have htext : Scans (.nested opening) s (.nested opening) :=
      run fun c hc => by
        obtain ⟨hquote, hescape, hline⟩ := hh.default s hdefault c hc
        exact nestedChar opening hline hescape hquote
    exact hblank.append (hopen.append (htext.append hclose))

/-- A hole opens, unless its brace is doubled, and closes. -/
theorem hole {h : TemplateHole} (hh : h.Valid shape) :
    Scans .text ('\x7b' :: (h.code ['"'] ++ ['\x7d'])) .text := by
  intro place taken rest
  have hclose : Scans (.hole place) ['\x7d'] .text := one fun _ _ => rfl
  obtain ⟨place', hscan⟩ :=
    ((code hh place).append hclose) (place.next '\x7b') ('\x7b' :: taken) rest
  refine ⟨place', ?_⟩
  have hmove : stringMove .text place '\x7b' (h.code ['"'] ++ ['\x7d'] ++ rest).head? =
      .one (.hole place) none := rfl
  rw [List.cons_append, scanString, hmove]
  simp only [Option.toList_none, List.nil_append]
  rw [hscan]
  simp

/-- Every part is scanned from text to text. -/
theorem part {p : TemplatePart} (hp : p.Valid shape) : Scans .text p.embedded .text := by
  cases p with
  | text cs =>
    refine escapeQuotes fun c hc => ?_
    obtain ⟨hmem, hline⟩ := List.mem_filter.1 hc
    obtain ⟨hopen, hclose, hescape⟩ := hp.1 c hmem
    exact ⟨by simpa [isLineEnd, Embed.isLineBreak] using hline, hopen, hclose, hescape⟩
  | brace b => cases b <;> exact two fun _ => rfl
  | hole h => exact hole hp

theorem parts {ps : List TemplatePart} (hps : ∀ p ∈ ps, p.Valid shape) :
    Scans .text (ps.flatMap TemplatePart.embedded) .text := by
  induction ps with
  | nil => exact nil _
  | cons p ps ih =>
    exact (part (hps p List.mem_cons_self)).append (ih fun q hq => hps q (List.mem_cons_of_mem p hq))

end Scans

/-- Between its quotes the text is an interpolated string, wherever it stands and whatever comes
behind it. -/
def FillsLiteral (body : List Char) : Prop :=
  ∀ rest place, scanToken place '$' ('"' :: (body ++ '"' :: rest)) =
    .valid place .interpolatedString ('$' :: '"' :: (body ++ ['"'])) rest

/-- A text that is scanned without faults is a token between its quotes. -/
theorem Scans.fillsLiteral {body : List Char} (h : Scans .text body .text) : FillsLiteral body := by
  intro rest place
  obtain ⟨place', hscan⟩ := h (place.after ['$', '"']) ['"', '$'] ('"' :: rest)
  have hclose : scanString .text place' (body.reverse ++ ['"', '$']) [] ('"' :: rest) =
      ⟨'"' :: (body.reverse ++ ['"', '$']), rest, place'.next '"', [], .closed⟩ := by
    rw [scanString]
    rfl
  have htoken : scanToken place '$' ('"' :: (body ++ '"' :: rest)) =
      (scanString .text (place.after ['$', '"']) ['"', '$'] [] (body ++ '"' :: rest)).toScan place
        .interpolatedString := rfl
  rw [htoken, hscan, hclose]
  simp [StringScan.toScan]

/-- A text without holes that is scanned without faults is a token between its quotes. -/
theorem scanToken_quoted {body : List Char} (h : Scans .plain body .plain) (rest : List Char)
    (place : Place) : scanToken place '"' (body ++ '"' :: rest) =
      .valid place .stringLiteral ('"' :: (body ++ ['"'])) rest := by
  obtain ⟨place', hscan⟩ := h (place.next '"') ['"'] ('"' :: rest)
  have hclose : scanString .plain place' (body.reverse ++ ['"']) [] ('"' :: rest) =
      ⟨'"' :: (body.reverse ++ ['"']), rest, place'.next '"', [], .closed⟩ := by
    rw [scanString]
    rfl
  have htoken : scanToken place '"' (body ++ '"' :: rest) =
      (scanString .plain (place.next '"') ['"'] [] (body ++ '"' :: rest)).toScan place
        .stringLiteral := rfl
  rw [htoken, hscan, hclose]
  simp [StringScan.toScan]

/-- The token of the literal with the text `body` that stands at `place`. -/
def literalToken (place : Place) (body : List Char) : Token :=
  ⟨.interpolatedString, String.ofList ('$' :: '"' :: (body ++ ['"'])),
    place.spanOf ('$' :: '"' :: (body ++ ['"']))⟩

namespace FillsLiteral

variable {body rest : List Char}

theorem cuts (h : FillsLiteral body) : Cuts ('$' :: '"' :: (body ++ '"' :: rest))
    [⟨.interpolatedString, String.ofList ('$' :: '"' :: (body ++ ['"']))⟩] rest := by
  refine Cuts.scan (by decide) ?_
  intro place
  rw [h]
  exact ⟨rfl, rfl⟩

/-- The token stands where the text does. -/
theorem tokensOf (h : FillsLiteral body) (place : Place) (rest : List Char) :
    tokensOf place ('$' :: '"' :: (body ++ '"' :: rest)) = literalToken place body ::
      TypedTemplate.tokensOf (place.after ('$' :: '"' :: (body ++ ['"']))) rest := by
  rw [TypedTemplate.tokensOf, Lexemes.lexemes_of_cons (skipTrivia_token _ (by decide))]
  simp [TypedTemplate.tokensOf, h rest place, Scan.valid, literalToken]

end FillsLiteral

/-! ## Contents -/

/-- What the parts of a template come to: texts and holes in turn. -/
inductive TemplateContent where
  | text (cs : List Char)
  | hole (h : TemplateHole)
deriving DecidableEq, Repr

namespace TemplatePart

/-- The characters that a part shows, if it is no hole. -/
def chars? : TemplatePart → Option (List Char)
  | .text cs => some (cs.filter (!Embed.isLineBreak ·))
  | .brace b => some [braceChar b]
  | .hole _  => none

/-- Empty text is no content. -/
def textContent (cs : List Char) : List TemplateContent := if cs.isEmpty then [] else [.text cs]

/-- The contents of parts behind the text `pending`. -/
def contents (pending : List Char) : List TemplatePart → List TemplateContent
  | []            => textContent pending
  | .hole h :: ps => textContent pending ++ .hole h :: contents [] ps
  | p :: ps       => contents (pending ++ p.chars?.getD []) ps

theorem length_contents_le (ps : List TemplatePart) :
    ∀ pending, (contents pending ps).length ≤ (textContent pending).length + ps.length := by
  have hpending : ∀ cs, (textContent cs).length ≤ 1 := by
    intro cs
    cases cs <;> simp [textContent]
  induction ps with
  | nil => exact fun pending => Nat.le_refl _
  | cons p ps ih =>
    intro pending
    cases p with
    | hole h =>
      have hrest := ih []
      simp [contents, textContent] at hrest ⊢
      omega
    | text cs =>
      have hrest := ih (pending ++ (TemplatePart.text cs).chars?.getD [])
      have hone := hpending (pending ++ (TemplatePart.text cs).chars?.getD [])
      simp only [contents, List.length_cons]
      omega
    | brace b =>
      have hrest := ih (pending ++ (TemplatePart.brace b).chars?.getD [])
      have hone := hpending (pending ++ (TemplatePart.brace b).chars?.getD [])
      simp only [contents, List.length_cons]
      omega

/-- There are no more contents than parts. -/
theorem length_contents (ps : List TemplatePart) : (contents [] ps).length ≤ ps.length := by
  simpa [textContent] using length_contents_le ps []

theorem mem_contents {ps : List TemplatePart} {h : TemplateHole} :
    ∀ {pending}, TemplateContent.hole h ∈ contents pending ps → .hole h ∈ ps := by
  have htext : ∀ cs, TemplateContent.hole h ∉ textContent cs := by
    intro cs
    cases cs <;> simp [textContent]
  induction ps with
  | nil => exact fun hmem => absurd hmem (htext _)
  | cons p ps ih =>
    intro pending hmem
    cases p with
    | hole h' =>
      rcases List.mem_append.1 hmem with hmem | hmem
      · exact absurd hmem (htext _)
      · rcases List.mem_cons.1 hmem with heq | hmem
        · cases heq
          exact List.mem_cons_self
        · exact List.mem_cons_of_mem _ (ih hmem)
    | text cs => exact List.mem_cons_of_mem _ (ih hmem)
    | brace b => exact List.mem_cons_of_mem _ (ih hmem)

end TemplatePart

/-! ## Cutting -/

/-- The piece is cut from where the content stands. -/
inductive TemplateContent.Pieces : TemplateContent → Piece → Prop where
  | text (cs : List Char) : Pieces (.text cs) (.text cs)
  | hole (h : TemplateHole) (place : Place) : Pieces (.hole h) (.hole place (h.code ['"']))

section

variable {out : List Piece} {pending : List Char} {opening place : Place} {quoted : Bool} {c : Char}
  {rest : List Char}

/-- One step of the cut outside of holes. -/
theorem cutPieces_text_cons :
    cutPieces out (.text pending) place (c :: rest) =
      if c == '\\' || (c == '\x7b' && rest.head? == some '\x7b') ||
          (c == '\x7d' && rest.head? == some '\x7d') then
        match rest with
        | d :: rest' =>
          cutPieces out (.text ((if c == '\\' then resolveEscape d else d) :: pending))
            (place.after [c, d]) rest'
        | []         => ((PieceMode.text (c :: pending)).finish out).reverse
      else if c == '\x7b' then
        cutPieces ((PieceMode.text pending).finish out) (.hole place [] false) (place.next c) rest
      else cutPieces out (.text (c :: pending)) (place.next c) rest := by
  cases rest <;> rfl

/-- One step of the cut in a hole. -/
theorem cutPieces_hole_cons :
    cutPieces out (.hole opening pending quoted) place (c :: rest) =
      if quoted && c == '\\' then
        match rest with
        | d :: rest' =>
          cutPieces out (.hole opening (d :: c :: pending) quoted) (place.after [c, d]) rest'
        | []         => ((PieceMode.hole opening (c :: pending) quoted).finish out).reverse
      else if c == '"' then
        cutPieces out (.hole opening (c :: pending) !quoted) (place.next c) rest
      else if c == '\x7d' && !quoted then
        cutPieces (.hole opening pending.reverse :: out) (.text []) (place.next c) rest
      else cutPieces out (.hole opening (c :: pending) quoted) (place.next c) rest := by
  cases rest <;> rfl

end

/-- From one mode the characters are cut without a new piece up to another mode. -/
def CutsTo (mode : PieceMode) (cs : List Char) (mode' : PieceMode) : Prop :=
  ∀ out place rest,
    cutPieces out mode place (cs ++ rest) = cutPieces out mode' (place.after cs) rest

namespace CutsTo

variable {mode mode' mode'' : PieceMode} {cs cs' : List Char} {c : Char}

theorem nil (mode : PieceMode) : CutsTo mode [] mode := fun _ _ _ => rfl

theorem append (h : CutsTo mode cs mode') (h' : CutsTo mode' cs' mode'') :
    CutsTo mode (cs ++ cs') mode'' := by
  intro out place rest
  rw [List.append_assoc, h, h', Place.after_append]

theorem textChar (pending : List Char) (hopen : c ≠ '\x7b') (hclose : c ≠ '\x7d') (hescape : c ≠ '\\') :
    CutsTo (.text pending) [c] (.text (c :: pending)) := by
  intro out place rest
  rw [List.singleton_append, cutPieces_text_cons]
  simp [hopen, hclose, hescape]

/-- A backslash and what it escapes. -/
theorem escape (pending : List Char) (d : Char) :
    CutsTo (.text pending) ['\\', d] (.text (resolveEscape d :: pending)) := by
  intro out place rest
  rw [List.cons_append, List.singleton_append, cutPieces_text_cons]
  rfl

/-- Quotes lose their escapes again. -/
theorem escapeQuotes (h : ∀ c ∈ cs, c ≠ '\x7b' ∧ c ≠ '\x7d' ∧ c ≠ '\\') (pending : List Char) :
    CutsTo (.text pending) (Embed.escapeQuotes cs) (.text (cs.reverse ++ pending)) := by
  induction cs generalizing pending with
  | nil => exact nil _
  | cons c cs ih =>
    have hrest := ih (fun c hc => h c (List.mem_cons_of_mem _ hc)) (c :: pending)
    rw [List.reverse_cons, List.append_assoc, List.singleton_append]
    by_cases hc : c = '"'
    · subst hc
      exact (escape pending '"').append hrest
    · obtain ⟨hopen, hclose, hescape⟩ := h c List.mem_cons_self
      have hcons : Embed.escapeQuotes (c :: cs) = [c] ++ Embed.escapeQuotes cs := by
        simp [Embed.escapeQuotes, hc]
      rw [hcons]
      exact (textChar pending hopen hclose hescape).append hrest

theorem brace (pending : List Char) (b : Bool) :
    CutsTo (.text pending) [TemplatePart.braceChar b, TemplatePart.braceChar b]
      (.text (TemplatePart.braceChar b :: pending)) := by
  intro out place rest
  rw [List.cons_append, List.singleton_append, cutPieces_text_cons]
  cases b <;> rfl

/-- Characters of a hole, inside or outside quotes. -/
theorem holeChars (opening : Place) (quoted : Bool)
    (h : ∀ c ∈ cs, c ≠ '"' ∧ if quoted then c ≠ '\\' else c ≠ '\x7d') (taken : List Char) :
    CutsTo (.hole opening taken quoted) cs (.hole opening (cs.reverse ++ taken) quoted) := by
  induction cs generalizing taken with
  | nil => exact nil _
  | cons c cs ih =>
    have hrest := ih (fun c hc => h c (List.mem_cons_of_mem _ hc)) (c :: taken)
    rw [List.reverse_cons, List.append_assoc, List.singleton_append]
    have hchar : CutsTo (.hole opening taken quoted) [c] (.hole opening (c :: taken) quoted) := by
      intro out place rest
      obtain ⟨hquote, hother⟩ := h c List.mem_cons_self
      rw [List.singleton_append, cutPieces_hole_cons]
      cases quoted <;> simp_all
    exact hchar.append hrest

theorem quote (opening : Place) (taken : List Char) (quoted : Bool) :
    CutsTo (.hole opening taken quoted) ['"'] (.hole opening ('"' :: taken) !quoted) := by
  intro out place rest
  rw [List.singleton_append, cutPieces_hole_cons]
  cases quoted <;> rfl

theorem code {h : TemplateHole} (hh : h.Valid shape) (opening : Place) :
    CutsTo (.hole opening [] false) (h.code ['"']) (.hole opening (h.code ['"']).reverse false) := by
  let start := "model.".toList ++ h.field.toList
  have hstart : CutsTo (.hole opening [] false) start (.hole opening (start.reverse ++ []) false) := by
    refine holeChars opening false (fun c hc => ?_) []
    rcases List.mem_append.1 hc with hc | hc
    · exact (by decide : ∀ c ∈ "model.".toList, c ≠ '"' ∧ c ≠ '\x7d') c hc
    · exact ⟨hh.identifier.ne_of_not_wordChar (by decide) c hc,
        hh.identifier.ne_of_not_wordChar (by decide) c hc⟩
  cases hdefault : h.default with
  | none =>
    have hcode : h.code ['"'] = start := TemplateHole.code_of_none hdefault _
    rw [hcode]
    simpa using hstart
  | some s =>
    have hcode : h.code ['"'] = start ++ (" ?? ".toList ++ (['"'] ++ (s ++ ['"']))) := by
      simp [TemplateHole.code_of_some hdefault, start]
    have hmarks := holeChars opening false
      (by decide : ∀ c ∈ " ?? ".toList, c ≠ '"' ∧ c ≠ '\x7d') (start.reverse ++ [])
    have htext := holeChars opening true (fun c hc => by
      obtain ⟨hquote, hescape, -⟩ := hh.default s hdefault c hc
      exact ⟨hquote, hescape⟩) ('"' :: (" ?? ".toList.reverse ++ (start.reverse ++ [])))
    have hall := hstart.append (hmarks.append ((quote opening _ false).append
      (htext.append (quote opening _ true))))
    rw [hcode]
    simpa using hall

end CutsTo

/-- A brace that is not doubled opens a hole. -/
theorem cutPieces_open {out : List Piece} {pending rest : List Char} {place : Place}
    (h : rest.head? ≠ some '\x7b') :
    cutPieces out (.text pending) place ('\x7b' :: rest) =
      cutPieces ((PieceMode.text pending).finish out) (.hole place [] false) (place.next '\x7b') rest := by
  rw [cutPieces_text_cons]
  simp [h]

theorem cutPieces_close {out : List Piece} {taken rest : List Char} {opening place : Place} :
    cutPieces out (.hole opening taken false) place ('\x7d' :: rest) =
      cutPieces (.hole opening taken.reverse :: out) (.text []) (place.next '\x7d') rest := by
  rw [cutPieces_hole_cons]
  rfl

open TemplatePart in
/-- What is left of the body of a template is cut into what is left of its contents. -/
theorem cutPieces_parts {ps : List TemplatePart} (hps : ∀ p ∈ ps, p.Valid shape)
    (out : List Piece) (pending : List Char) (place : Place) :
    ∃ cut, cutPieces out (.text pending.reverse) place (ps.flatMap embedded) = out.reverse ++ cut ∧
      List.Forall₂ TemplateContent.Pieces (contents pending ps) cut := by
  have htext : ∀ out pending, ∃ cut, (PieceMode.text (List.reverse pending)).finish out =
      cut.reverse ++ out ∧ List.Forall₂ TemplateContent.Pieces (textContent pending) cut := by
    intro out pending
    cases pending with
    | nil => exact ⟨[], rfl, .nil⟩
    | cons c cs =>
      refine ⟨[.text (c :: cs)], ?_, .cons (.text _) .nil⟩
      cases hrev : (c :: cs).reverse with
      | nil => simp at hrev
      | cons d ds => simp [PieceMode.finish, ← hrev]
  induction ps generalizing out pending place with
  | nil =>
    obtain ⟨cut, hcut, hpieces⟩ := htext out pending
    refine ⟨cut, ?_, hpieces⟩
    rw [List.flatMap_nil, cutPieces, hcut]
    simp
  | cons p ps ih =>
    have hrest := ih fun q hq => hps q (List.mem_cons_of_mem p hq)
    have hp := hps p List.mem_cons_self
    cases p with
    | text cs =>
      have hchars : ∀ c ∈ cs.filter (!Embed.isLineBreak ·), c ≠ '\x7b' ∧ c ≠ '\x7d' ∧ c ≠ '\\' :=
        fun c hc => hp.1 c (List.mem_filter.1 hc).1
      have h := CutsTo.escapeQuotes hchars pending.reverse out place (ps.flatMap embedded)
      rw [← List.reverse_append] at h
      rw [List.flatMap_cons]
      obtain ⟨cut, hcut⟩ := hrest out (pending ++ cs.filter (!Embed.isLineBreak ·)) _
      exact ⟨cut, h.trans hcut.1, hcut.2⟩
    | brace b =>
      have h := CutsTo.brace pending.reverse b out place (ps.flatMap embedded)
      rw [← List.singleton_append (l := pending.reverse), ← List.reverse_singleton,
        ← List.reverse_append] at h
      obtain ⟨cut, hcut⟩ := hrest out (pending ++ [braceChar b]) _
      exact ⟨cut, h.trans hcut.1, hcut.2⟩
    | hole h =>
      obtain ⟨cut₁, hcut₁, hpieces₁⟩ := htext out pending
      have hcode := CutsTo.code hp place ((PieceMode.text pending.reverse).finish out)
        (place.next '\x7b') ('\x7d' :: ps.flatMap embedded)
      obtain ⟨cut, hcut, hpieces⟩ := hrest (.hole place (h.code ['"']) :: (cut₁.reverse ++ out)) []
        (((place.next '\x7b').after (h.code ['"'])).next '\x7d')
      refine ⟨cut₁ ++ .hole place (h.code ['"']) :: cut, ?_,
        List.rel_append hpieces₁ (.cons (.hole h place) hpieces)⟩
      have hembedded : (TemplatePart.hole h :: ps).flatMap embedded =
          '\x7b' :: (h.code ['"'] ++ '\x7d' :: ps.flatMap embedded) := by
        rw [List.flatMap_cons, embedded, List.cons_append, List.append_assoc, List.singleton_append]
      have hhead : (h.code ['"'] ++ '\x7d' :: ps.flatMap embedded).head? ≠ some '\x7b' := by
        unfold TemplateHole.code
        rw [List.append_assoc, List.head?_append]
        exact (by decide : "model.".toList.head? = some 'm') ▸ (by simp)
      rw [List.reverse_nil] at hcut
      rw [hembedded, cutPieces_open hhead, hcode, hcut₁, cutPieces_close, List.reverse_reverse, hcut,
        List.reverse_cons, List.reverse_append, List.reverse_reverse, List.append_assoc,
        List.append_assoc, List.singleton_append]

/-- The body of a template is cut into its contents. -/
theorem exists_pieces {ps : List TemplatePart} (hps : ∀ p ∈ ps, p.Valid shape) (place : Place) :
    ∃ cut, pieces place (ps.flatMap TemplatePart.embedded) = cut ∧
      List.Forall₂ TemplateContent.Pieces (TemplatePart.contents [] ps) cut := by
  obtain ⟨cut, hcut, hpieces⟩ := cutPieces_parts hps [] [] place
  exact ⟨cut, hcut, hpieces⟩

end TypedTemplate
