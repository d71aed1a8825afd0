-- SUMMARY: The scan of an interpolated string and the split of its body end every hole alike.
import TypedTemplate.Proofs.Interpolation.Nesting
import TypedTemplate.Proofs.Interpolation.Split
import TypedTemplate.Proofs.Interpolation.Faultless

/-!
# Agreement of scan and split

The scan of an interpolated string goes by characters and checks them. The split of its
body goes by bytes and checks nothing. What the scan has accepted is made of valid parts,
so the split finds those parts, and both close each hole at the same brace.
-/

namespace TypedTemplate

/-! ## Holes of a scan -/

/-- The holes that a scan passes, each by the places of its braces. -/
def passedHoles (mode : StringMode) (place : Place) : List Char → List (Place × Place)
  | [] => []
  | c :: rest =>
    match stringMove mode place c rest.head? with
    | .stop | .close => []
    | .one mode' _   =>
      match mode, mode' with
      | .hole opening, .text => (opening, place) :: passedHoles mode' (place.next c) rest
      | _, _                 => passedHoles mode' (place.next c) rest
    | .two mode' _   =>
      match rest with
      | d :: rest' => passedHoles mode' (place.after [c, d]) rest'
      | []         => []

theorem passedHoles_cons (mode : StringMode) (place : Place) (c : Char) (rest : List Char) :
    passedHoles mode place (c :: rest) =
      match stringMove mode place c rest.head? with
      | .stop | .close => []
      | .one mode' _   =>
        match mode, mode' with
        | .hole opening, .text => (opening, place) :: passedHoles mode' (place.next c) rest
        | _, _                 => passedHoles mode' (place.next c) rest
      | .two mode' _   =>
        match rest with
        | d :: rest' => passedHoles mode' (place.after [c, d]) rest'
        | []         => [] :=
  passedHoles.eq_def mode place (c :: rest)

/-- The scan stands in each of these holes when it comes to the closing brace. -/
theorem scanString_of_passedHoles {mode : StringMode} {place opening closing : Place}
    {cs : List Char} (h : (opening, closing) ∈ passedHoles mode place cs) (taken : List Char)
    (errors : List LexError) :
    ∃ taken' errors' rest, scanString mode place taken errors cs =
      scanString (.hole opening) closing taken' errors' ('\x7d' :: rest) := by
  fun_induction passedHoles mode place cs generalizing taken errors with
  | case1 => cases h
  | case2 => cases h
  | case3 => cases h
  | case4 place c rest error own hmove ih =>
    obtain heq | h := List.mem_cons.1 h
    · cases heq
      obtain ⟨-, ⟨rfl, -⟩ | ⟨-, hmode⟩ | ⟨-, -, hmode⟩⟩ := stringMove_hole hmove
      · exact ⟨taken, errors, rest, rfl⟩
      · cases hmode
      · cases hmode
    · rw [scanString, hmove]
      exact ih h _ _
  | case5 mode place c rest mode' error hmove hopen ih =>
    rw [scanString, hmove]
    exact ih h _ _
  | case6 mode place c mode' error d rest hmove ih =>
    rw [scanString, hmove]
    exact ih h _ _
  | case7 => cases h

/-- From one mode the characters are passed up to another mode, with the holes `holes`. -/
def Passes (mode : StringMode) (place : Place) (cs : List Char) (mode' : StringMode)
    (holes : List (Place × Place)) : Prop :=
  ∀ rest, passedHoles mode place (cs ++ rest) =
    holes ++ passedHoles mode' (place.after cs) rest

namespace Passes

variable {mode mode' mode'' : StringMode} {place opening : Place} {cs cs' : List Char} {c d : Char}
  {holes holes' : List (Place × Place)}

theorem nil : Passes mode place [] mode [] := fun _ => rfl

theorem append (h : Passes mode place cs mode' holes)
    (h' : Passes mode' (place.after cs) cs' mode'' holes') :
    Passes mode place (cs ++ cs') mode'' (holes ++ holes') := by
  intro rest
  rw [List.append_assoc, h, h', Place.after_append, List.append_assoc]

/-- A character that is read alone and closes no hole. -/
theorem one (h : ∀ next, stringMove mode place c next = .one mode' none)
    (hmode : mode' = .text → mode = .text) : Passes mode place [c] mode' [] := by
  intro rest
  rw [List.singleton_append, passedHoles_cons, h]
  cases mode' <;> cases mode <;> simp_all

theorem two (h : stringMove mode place c (some d) = .two mode' none) :
    Passes mode place [c, d] mode' [] := by
  intro rest
  rw [List.cons_append, List.singleton_append, passedHoles_cons, List.head?_cons, h]
  rfl

theorem quotable {s : List Char} (h : Quotable s) :
    Passes (.nested opening) place s (.nested opening) [] := by
  induction h generalizing place with
  | nil => exact nil
  | @char c s hline hescape hquote _ ih =>
    have hchar : Passes (.nested opening) place [c] (.nested opening) [] :=
      one (fun next => by simp [stringMove, hline, hescape, hquote]) (by simp)
    exact hchar.append ih
  | @escape c s hc _ ih =>
    have hpair : Passes (.nested opening) place ['\\', c] (.nested opening) [] :=
      two (by simp [stringMove, escapeMove, isLineEnd_of_isEscape hc, hc,
        (by decide : isLineEnd '\\' = false)])
    exact hpair.append ih

theorem holeText (h : HoleText cs) : Passes (.hole opening) place cs (.hole opening) [] := by
  induction h generalizing place with
  | nil => exact nil
  | @char c cs hline hquote hclose _ ih =>
    have hchar : Passes (.hole opening) place [c] (.hole opening) [] :=
      one (fun next => by simp [stringMove, hline, hclose, hquote]) (by simp)
    exact hchar.append ih
  | @string s cs hs _ ih =>
    have hopen : Passes (.hole opening) place ['"'] (.nested opening) [] :=
      one (fun _ => rfl) (by simp)
    have hclose {p : Place} : Passes (.nested opening) p ['"'] (.hole opening) [] :=
      one (fun _ => rfl) (by simp)
    simpa using hopen.append ((quotable hs).append (hclose.append ih))

/-- A hole is passed from its opening brace to its closing one. -/
theorem hole (hcs : HoleText cs) (hhead : cs.head? ≠ some '\x7b') :
    Passes .text place ('\x7b' :: (cs ++ ['\x7d'])) .text
      [(place, (place.next '\x7b').after cs)] := by
  intro rest
  have hnext : (cs ++ ['\x7d'] ++ rest).head? ≠ some '\x7b' := by
    rw [List.append_assoc]
    exact head?_append_ne hhead (by decide)
  have hmove (next : Option Char) (h : next ≠ some '\x7b') :
      stringMove .text place '\x7b' next = .one (.hole place) none := by
    simp [stringMove, h, (by decide : isLineEnd '\x7b' = false)]
  rw [List.cons_append, passedHoles_cons, hmove _ hnext]
  simp only
  rw [List.append_assoc, holeText hcs, List.nil_append, List.singleton_append, passedHoles_cons,
    Place.after_cons, Place.after_append]
  rfl

end Passes

/-- The hole as it stands in a line, when the body starts at `start`. -/
def LocatedPart.holeIn (start : Place) (l : LocatedPart) : Option (Place × Place) :=
  match l.part with
  | .hole _ =>
    some (⟨start.line, start.col + l.start⟩, ⟨start.line, start.col + (l.stop - 1)⟩)
  | _ => none

/-- The holes that the scan passes in a body are those among its parts. -/
theorem passedHoles_text {ps : List BodyPart} (hps : ∀ p ∈ ps, p.Valid)
    (hline : ∀ c ∈ BodyPart.text ps, c ≠ '\n') (start : Place) (i : Nat) (rest : List Char) :
    passedHoles .text ⟨start.line, start.col + i⟩ (BodyPart.text ps ++ '"' :: rest) =
      (BodyPart.locate i ps).filterMap (·.holeIn start) := by
  induction ps generalizing i with
  | nil => rfl
  | cons p ps ih =>
    obtain ⟨hp, hps⟩ := List.forall_mem_cons.1 hps
    rw [BodyPart.text_cons, List.forall_mem_append] at hline
    have hbehind : (⟨start.line, start.col + i⟩ : Place).after p.chars =
        ⟨start.line, start.col + (i + Text.byteSize p.chars)⟩ := by
      rw [Place.after_of_not_mem fun hmem => hline.1 _ hmem rfl, Nat.add_assoc]
    have hrest := ih hps hline.2 (i + Text.byteSize p.chars)
    rw [← hbehind] at hrest
    rw [BodyPart.text_cons, List.append_assoc, BodyPart.locate]
    cases p with
    | char c =>
      obtain ⟨hend, hescape, hquote, hopen, hclose⟩ := hp
      have hchar : Passes .text ⟨start.line, start.col + i⟩ [c] .text [] :=
        .one (fun next => by simp [stringMove, hend, hopen, hclose, hescape, hquote]) (fun h => h)
      exact (hchar _).trans hrest
    | escape c =>
      have hc : isEscape c = true := hp
      have hpair : Passes .text ⟨start.line, start.col + i⟩ ['\\', c] .text [] :=
        .two (by simp [stringMove, escapeMove, isLineEnd_of_isEscape hc, hc,
          (by decide : isLineEnd '\\' = false)])
      exact (hpair _).trans hrest
    | doubled c =>
      have hpair : Passes .text ⟨start.line, start.col + i⟩ [c, c] .text [] :=
        .two (by rcases hp with rfl | rfl <;> rfl)
      exact (hpair _).trans hrest
    | hole cs =>
      obtain ⟨hcs, hhead⟩ := hp
      have hclose : ((⟨start.line, start.col + i⟩ : Place).next '\x7b').after cs =
          ⟨start.line, start.col + (i + Text.byteSize (BodyPart.hole cs).chars - 1)⟩ := by
        have hopen : '\n' ∉ '\x7b' :: cs := fun hmem => by
          refine hline.1 _ ?_ rfl
          rw [BodyPart.chars, ← List.cons_append]
          exact List.mem_append_left _ hmem
        rw [← Place.after_cons, Place.after_of_not_mem hopen, BodyPart.chars, ← List.cons_append,
          Text.byteSize_append, Text.byteSize_singleton, Text.utf8Size_of_lt (by decide),
          ← Nat.add_assoc i, Nat.add_sub_cancel, Nat.add_assoc]
      refine (Passes.hole hcs hhead _).trans ?_
      rw [hclose]
      exact congrArg (_ :: ·) hrest

/-! ## Parts of a scan -/

section

variable {mode : StringMode} {place : Place} {c d : Char} {next : Option Char}
  {error : Option LexError}

theorem stringMove_text_one (h : stringMove .text place c next = .one mode error) :
    (c = '\\' ∧ ∀ d ∈ next, isLineEnd d = true) ∨ (c = '\x7b' ∧ next ≠ some '\x7b') ∨
      error ≠ none ∨ (mode = .text ∧ error = none ∧ (BodyPart.char c).Valid) := by
  unfold stringMove escapeMove at h
  unfold BodyPart.Valid
  split at h
  · cases h
  · by_cases hbrace : c = '\x7d' <;> grind

theorem stringMove_text_two (h : stringMove .text place c (some d) = .two mode error) :
    mode = .text ∧ (error ≠ none ∨ (error = none ∧ (c = '\\' ∧ isEscape d = true ∨
      c = d ∧ (c = '\x7b' ∨ c = '\x7d')))) := by
  unfold stringMove escapeMove at h
  grind

end

/-- The scan of a text ends without faults at the quote before `rest`. -/
structure ClosesBefore (place : Place) (taken cs rest : List Char) : Prop where
  closed : (scanString .text place taken [] cs).ending = .closed
  errors : (scanString .text place taken [] cs).errors = []
  rest : (scanString .text place taken [] cs).rest = rest

namespace ClosesBefore

variable {place : Place} {taken cs body rest : List Char} {c d : Char}

theorem length_lt (h : ClosesBefore place taken cs rest) : rest.length < cs.length := by
  obtain ⟨s, hs⟩ := exists_closed h.closed
  rw [h.rest] at hs
  simp only [hs, List.length_append, List.length_cons]
  omega

/-- What the first character is to the scan. -/
theorem step (h : ClosesBefore place taken (c :: cs) rest) :
    c = '"' ∧ cs = rest ∨ c = '\x7b' ∧ cs.head? ≠ some '\x7b' ∨
      (BodyPart.char c).Valid ∧ ClosesBefore (place.next c) (c :: taken) cs rest ∨
      ∃ p d cs', BodyPart.Valid p ∧ p.chars = [c, d] ∧ cs = d :: cs' ∧
        ClosesBefore (place.after [c, d]) (d :: c :: taken) cs' rest := by
  obtain ⟨hclosed, herrors, hrest⟩ := h
  rw [scanString] at hclosed herrors hrest
  cases hmove : stringMove .text place c cs.head? with
  | stop =>
    rw [hmove] at hclosed
    cases hclosed
  | close =>
    rw [hmove] at hrest
    exact .inl ⟨stringMove_close hmove, hrest⟩
  | one mode error =>
    rw [hmove] at hclosed herrors hrest
    dsimp only at hclosed herrors hrest
    obtain ⟨-, hend⟩ | hhole | herror | ⟨rfl, rfl, hvalid⟩ := stringMove_text_one hmove
    · exact absurd hclosed (scanString_lineEnd hend)
    · exact .inr (.inl hhole)
    · have hnil := nil_of_errors_scanString herrors
      cases error <;> simp_all
    · exact .inr (.inr (.inl ⟨hvalid, hclosed, herrors, hrest⟩))
  | two mode error =>
    rw [hmove] at hclosed herrors hrest
    cases cs with
    | nil => cases mode <;> cases hclosed
    | cons d cs' =>
      dsimp only at hclosed herrors hrest
      obtain ⟨rfl, herror | ⟨rfl, hpart⟩⟩ := stringMove_text_two hmove
      · have hnil := nil_of_errors_scanString herrors
        cases error <;> simp_all
      · refine .inr (.inr (.inr ?_))
        obtain ⟨rfl, hd⟩ | ⟨rfl, hc⟩ := hpart
        · exact ⟨.escape d, d, cs', hd, rfl, rfl, hclosed, herrors, hrest⟩
        · exact ⟨.doubled c, c, cs', hc, rfl, rfl, hclosed, herrors, hrest⟩

/-- A hole is passed up to its closing brace. -/
theorem step_hole (h : ClosesBefore place taken ('\x7b' :: cs) rest)
    (hhead : cs.head? ≠ some '\x7b') :
    ∃ hole more place' taken', HoleText hole ∧ hole.head? ≠ some '\x7b' ∧
      cs = hole ++ '\x7d' :: (more ++ '"' :: rest) ∧
        ClosesBefore place' taken' (more ++ '"' :: rest) rest := by
  obtain ⟨hole, more, hhole, hcs⟩ := exists_holeText hhead h.closed h.errors
  rw [h.rest] at hcs
  have hbrace : hole.head? ≠ some '\x7b' := by
    cases hole with
    | nil => simp
    | cons c hole => simpa [hcs] using hhead
  obtain ⟨place', hscan⟩ := hhole.scans_braces hbrace place taken (more ++ '"' :: rest)
  rw [List.cons_append, List.append_assoc, List.singleton_append, ← hcs] at hscan
  obtain ⟨hclosed, herrors, hrest⟩ := h
  rw [hscan] at hclosed herrors hrest
  exact ⟨hole, more, place', _, hhole, hbrace, hcs, hclosed, herrors, hrest⟩

/-- What is scanned up to the quote is made of valid parts. -/
theorem exists_parts {place : Place} {taken body : List Char}
    (h : ClosesBefore place taken (body ++ '"' :: rest) rest) :
    ∃ ps, (∀ p ∈ ps, p.Valid) ∧ body = BodyPart.text ps := by
  match body, h with
  | [], _ => exact ⟨[], by simp, rfl⟩
  | c :: cs, h =>
    rw [List.cons_append] at h
    obtain ⟨rfl, hrest⟩ | ⟨rfl, hhead⟩ | ⟨hvalid, hnext⟩ | ⟨p, d, cs', hvalid, hchars, hcs, hnext⟩ :=
      h.step
    · -- the scan would end before the quote
      have hlength := congrArg List.length hrest
      simp only [List.length_append, List.length_cons] at hlength
      omega
    · obtain ⟨hole, more, place', taken', hhole, hbrace, hcs, hnext⟩ := h.step_hole hhead
      have hbody : cs = hole ++ '\x7d' :: more := by
        refine List.append_cancel_right (hcs.trans (?_ : _ = _ ++ '"' :: rest))
        simp
      obtain ⟨ps, hps, rfl⟩ := exists_parts hnext
      exact ⟨.hole hole :: ps, List.forall_mem_cons.2 ⟨⟨hhole, hbrace⟩, hps⟩,
        by simp [hbody, BodyPart.chars]⟩
    · obtain ⟨ps, hps, rfl⟩ := exists_parts hnext
      exact ⟨.char c :: ps, List.forall_mem_cons.2 ⟨hvalid, hps⟩, by simp [BodyPart.chars]⟩
    · cases cs with
      | nil =>
        -- the quote would be read with the character before it
        obtain ⟨-, rfl⟩ := List.cons.inj hcs
        exact absurd hnext.length_lt (Nat.lt_irrefl _)
      | cons d' cs =>
        obtain ⟨rfl, rfl⟩ := List.cons.inj hcs
        obtain ⟨ps, hps, rfl⟩ := exists_parts hnext
        exact ⟨p :: ps, List.forall_mem_cons.2 ⟨hvalid, hps⟩, by simp [hchars]⟩
termination_by body.length
decreasing_by all_goals simp_all <;> omega

end ClosesBefore

/-! ## Agreement -/

/-- What the scan makes of a token that is an interpolated string. -/
theorem closesBefore_of_scanToken {start : Place} {c : Char} {rest : List Char}
    (h : (scanToken start c rest).lexeme.token.kind = .interpolatedString) :
    ∃ body after, c = '$' ∧ rest = '"' :: (body ++ '"' :: after) ∧
      ClosesBefore (start.after ['$', '"']) ['"', '$'] (body ++ '"' :: after) after ∧
      (scanToken start c rest).lexeme.token = ⟨.interpolatedString,
        String.ofList ('$' :: '"' :: (body ++ ['"'])),
        start.spanOf ('$' :: '"' :: (body ++ ['"']))⟩ := by
  have hvalid : (scanToken start c rest).lexeme.token.kind ≠ .invalid := by
    rw [h]
    decide
  have herrors : (scanToken start c rest).lexeme.errors = [] :=
    Decidable.byContradiction fun herrors => hvalid ((sound_scanToken start c rest).2 herrors)
  obtain rfl : c = '$' := eq_dollar_of_interpolated h
  obtain ⟨s, hs⟩ := exists_opening h
  rw [verbatim_scanToken start '$' rest hvalid, String.toList_ofList] at hs
  have happend := append_scanToken start '$' rest
  rw [hs, List.cons_append, List.cons_append] at happend
  obtain ⟨more, rfl⟩ : ∃ more, rest = '"' :: more := ⟨_, (List.cons.inj happend).2.symm⟩
  have htoken : scanToken start '$' ('"' :: more) =
      (scanString .text (start.after ['$', '"']) ['"', '$'] [] more).toScan start
        .interpolatedString := rfl
  rw [htoken] at herrors
  obtain ⟨hclosed, hnone, -⟩ := StringScan.closed_of_errors herrors
  obtain ⟨body, after, rfl, hafter⟩ : ∃ body after, more = body ++ '"' :: after ∧
      after = (scanString .text (start.after ['$', '"']) ['"', '$'] [] more).rest :=
    (exists_closed hclosed).imp fun body hbody => ⟨_, hbody, rfl⟩
  refine ⟨body, after, rfl, rfl, ⟨hclosed, hnone, hafter.symm⟩, ?_⟩
  have hstretch : ((scanString .text (start.after ['$', '"']) ['"', '$'] []
      (body ++ '"' :: after)).toScan start .interpolatedString).lexeme.stretch = _ :=
    stretch_of_closed (congrArg (fun rest => body ++ '"' :: rest) hafter)
  rw [htoken, StringScan.toScan_eq_valid herrors, hstretch]
  rfl

/-- The split of a body at `start` goes as its scan did, which read on to `after`. That there are
parts says that every slice is a text: it is in the body and starts and ends between characters. -/
structure SplitAsScanned (start : Place) (body after : List Char) (parts : List LocatedPart) :
    Prop where
  split : splitBytes body 0 = some parts
  /-- The parts are all of the body. -/
  tiles : Tiles 0 parts (Text.byteSize body)
  /-- The scan stood in this hole at this closing brace. -/
  scanned : ∀ l ∈ parts, ∀ opening closing, l.holeIn start = some (opening, closing) →
    ∃ taken rest, scanString .text start ['"', '$'] [] (body ++ '"' :: after) =
      scanString (.hole opening) closing taken [] ('\x7d' :: rest)
  holes : passedHoles .text start (body ++ '"' :: after) = parts.filterMap (·.holeIn start)
  /-- A hole is searched up to its closing brace, which is there. -/
  closed : ∀ l ∈ parts, ∀ cs, l.part = .hole cs →
    holeEnd (Text.utf8 body) false (l.start + 1) = l.stop - 1 ∧
      (Text.utf8 body)[l.stop - 1]? = some '\x7d'.toUInt8
  braces : ∀ k, (Text.utf8 body)[k]? = some '\x7d'.toUInt8 → ∃ l ∈ parts, l.start ≤ k ∧ k < l.stop ∧
    ((∃ cs, l.part = .hole cs) ∨ l.part = .doubled '\x7d' ∨ l.part = .escape '\x7d')
  /-- The pieces that are read are those of the parts. -/
  pieces : pieces start body = assemble start [] parts

theorem ClosesBefore.exists_splitAsScanned {start : Place} {body after : List Char}
    (h : ClosesBefore start ['"', '$'] (body ++ '"' :: after) after)
    (hline : ∀ c ∈ body, c ≠ '\n') : ∃ parts, SplitAsScanned start body after parts := by
  obtain ⟨ps, hps, rfl⟩ := h.exists_parts
  refine ⟨BodyPart.locate 0 ps, ?_⟩
  have hholes := passedHoles_text hps hline start 0 after
  constructor
  case split => exact splitBytes_text hps []
  case tiles => simpa using BodyPart.tiles_locate 0 ps
  case scanned =>
    intro l hl opening closing hhole
    have hmem : (opening, closing) ∈ passedHoles .text start (BodyPart.text ps ++ '"' :: after) :=
      hholes ▸ List.mem_filterMap.2 ⟨l, hl, hhole⟩
    obtain ⟨taken, errors, rest, hscan⟩ := scanString_of_passedHoles hmem ['"', '$'] []
    obtain rfl : errors = [] := nil_of_errors_scanString (hscan ▸ h.errors)
    exact ⟨taken, rest, hscan⟩
  case holes => exact hholes
  case closed =>
    rintro l hl cs hcs
    obtain ⟨hpart, before, rest, hsplit, hstart, hstop⟩ := BodyPart.exists_of_mem_locate [] hl
    rw [hcs] at hpart hsplit hstop
    obtain ⟨hhole, -⟩ : HoleText cs ∧ _ := hps _ hpart
    have hbody : BodyPart.text ps = before ++ '\x7b' :: (cs ++ '\x7d' :: rest) := by
      simpa [BodyPart.chars] using hsplit
    have hlast : l.stop - 1 = Text.byteSize (before ++ '\x7b' :: cs) := by
      rw [hstop, BodyPart.chars, ← List.cons_append, ← Text.byteSize_append, ← List.append_assoc,
        byteSize_snoc (by decide), Nat.add_sub_cancel]
    refine ⟨?_, ?_⟩
    · rw [hbody, hstart, holeEnd_utf8 hhole, hlast, Text.byteSize_append, Text.byteSize_cons,
        Text.utf8Size_of_lt (by decide), Nat.add_assoc]
    · rw [hbody, hlast, ← List.cons_append, ← List.append_assoc]
      exact getElem?_utf8_mark (by decide)
  case braces =>
    intro k hk
    simpa using BodyPart.exists_of_brace hps 0 hk
  case pieces => exact cutPieces_text hps hline start 0 [] []

namespace Lexemes

/-- Every lexeme was scanned where it stands in the text. -/
theorem exists_scan {place : Place} {text : List Char} {lexeme : Lexeme}
    (h : lexeme ∈ (ofChars place text).lexemes) :
    ∃ before c rest, text = before ++ c :: rest ∧
      lexeme.token = (scanToken (place.after before) c rest).lexeme.token := by
  induction place, text using cut_induction with
  | blank place skipped htrivia => simp [lexemes_of_nil htrivia] at h
  | token place skipped c rest htrivia ih =>
    rw [lexemes_of_cons htrivia] at h
    obtain rfl | h := List.mem_cons.1 h
    · exact ⟨skipped, c, rest, rfl, rfl⟩
    · obtain ⟨before, d, rest', hrest, htoken⟩ := ih h
      have happend := append_scanToken (place.after skipped) c rest
      refine ⟨skipped ++ (scanToken (place.after skipped) c rest).lexeme.stretch ++ before, d, rest',
        ?_, ?_⟩
      · rw [← happend, hrest]
        simp
      · rw [htoken, Place.after_append, Place.after_append]

/-- Every interpolated string of a text is split as it was scanned: its body is the slice between
its quotes, and the split of the body is all of it and ends each hole where the scan ended it. -/
theorem splitAsScanned {place : Place} {text : List Char} :
    ∀ lexeme ∈ (ofChars place text).lexemes, lexeme.token.kind = .interpolatedString →
      ∃ before body after parts, text = before ++ '$' :: '"' :: (body ++ '"' :: after) ∧
        lexeme.token =
          (scanToken (place.after before) '$' ('"' :: (body ++ '"' :: after))).lexeme.token ∧
        Text.slice lexeme.token.lexeme.toList 2
          (Text.byteSize lexeme.token.lexeme.toList - 1) = some body ∧
        Grammar.interpolatedBody lexeme.token = ((place.after before).after ['$', '"'], body) ∧
        SplitAsScanned ((place.after before).after ['$', '"']) body after parts := by
  intro lexeme hlexeme hkind
  have hnewline := ne_lineFeed lexeme hlexeme hkind
  obtain ⟨before, c, rest, rfl, htoken⟩ := exists_scan hlexeme
  rw [htoken] at hkind
  obtain ⟨body, after, rfl, rfl, hcloses, hbody⟩ := closesBefore_of_scanToken hkind
  rw [htoken, hbody, String.toList_ofList] at hnewline
  have hline : ∀ c ∈ body, c ≠ '\n' := fun c hc => hnewline c (by simp [hc])
  obtain ⟨parts, hparts⟩ := hcloses.exists_splitAsScanned hline
  refine ⟨before, body, after, parts, rfl, htoken, ?_, ?_, hparts⟩
  · have hslice := Text.slice_append ['$', '"'] body ['"']
    have hsize : Text.byteSize ('$' :: '"' :: (body ++ ['"'])) - 1 = 2 + Text.byteSize body := by
      rw [← List.cons_append, ← List.cons_append, byteSize_snoc (by decide), Nat.add_sub_cancel,
        Text.byteSize_cons, Text.byteSize_cons, Text.utf8Size_of_lt (by decide),
        Text.utf8Size_of_lt (by decide), ← Nat.add_assoc]
    rw [htoken, hbody, String.toList_ofList, hsize]
    exact hslice
  · rw [htoken, hbody, Grammar.interpolatedBody, String.toList_ofList]
    simp [Place.spanOf, Place.span, Place.next, (by decide : '$'.utf8Size = 1),
      (by decide : '"'.utf8Size = 1)]

/-- A string with `\"\x7d\"` in its hole, between a character of two bytes and a doubled brace. -/
theorem splitAsScanned_quoted_brace :
    ∃ lexeme ∈ (ofChars .first "$\"é\x7b\"\x7d\"\x7d\x7d\x7d\"".toList).lexemes,
      lexeme.token.kind = .interpolatedString ∧
      ∃ before body after parts, "$\"é\x7b\"\x7d\"\x7d\x7d\x7d\"".toList =
          before ++ '$' :: '"' :: (body ++ '"' :: after) ∧
        SplitAsScanned ((Place.first.after before).after ['$', '"']) body after parts := by
  have hskip : skipTrivia false [] "$\"é\x7b\"\x7d\"\x7d\x7d\x7d\"".toList =
      ([], '$' :: "\"é\x7b\"\x7d\"\x7d\x7d\x7d\"".toList) := skipTrivia_token _ (by decide)
  have hmem : _ ∈ (ofChars .first "$\"é\x7b\"\x7d\"\x7d\x7d\x7d\"".toList).lexemes :=
    lexemes_of_cons hskip ▸ List.mem_cons_self
  refine ⟨_, hmem, by decide +kernel, ?_⟩
  obtain ⟨before, body, after, parts, htext, -, -, -, hsplit⟩ :=
    splitAsScanned _ hmem (by decide +kernel)
  exact ⟨before, body, after, parts, htext, hsplit⟩

end Lexemes

end TypedTemplate
