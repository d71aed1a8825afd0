-- SUMMARY: Every text can be written as a literal, with and without holes, and is read back from it.
import TypedTemplate.Proofs.Interpolation.Nested

/-!
# Texts as literals

A character that cannot stand between quotes as it is has an escape, and a brace in an
interpolated string may be doubled instead. Some characters can be written in more than one
way. Whichever is chosen for each of them, the scan passes over it in one step and does not
look at its neighbours, and both readers of escapes take it for the character.
-/

namespace TypedTemplate

/-! ## Ways to write a text -/

/-- The characters that have an escape, each with what stands behind the backslash. -/
def escapes : List (Char × Char) :=
  [('"', '"'), ('\\', '\\'), ('\n', 'n'), ('\r', 'r'), ('\t', 't'), ('\x00', '0'), ('\x7b', '\x7b'),
   ('\x7d', '\x7d')]

/-- The ways to write a character between the quotes of a string without holes. -/
inductive PlainCode : Char → List Char → Prop where
  | raw {c : Char} : c ∉ ['"', '\\', '\n', '\r'] → PlainCode c [c]
  | escape {c d : Char} : (c, d) ∈ escapes → PlainCode c ['\\', d]

/-- The ways to write a character as text between the quotes of an interpolated string. -/
inductive TextCode : Char → List Char → Prop where
  | raw {c : Char} : c ∉ ['"', '\\', '\n', '\r', '\x7b', '\x7d'] → TextCode c [c]
  | escape {c d : Char} : (c, d) ∈ escapes → TextCode c ['\\', d]
  | brace (opening : Bool) :
    TextCode (TemplatePart.braceChar opening)
      [TemplatePart.braceChar opening, TemplatePart.braceChar opening]

/-- A text is written character by character. -/
inductive Writes (Code : Char → List Char → Prop) : List Char → List Char → Prop where
  | nil : Writes Code [] []
  | cons {c : Char} {code cs body : List Char} :
    Code c code → Writes Code cs body → Writes Code (c :: cs) (code ++ body)

theorem Writes.exists_of_forall {Code : Char → List Char → Prop} (h : ∀ c, ∃ code, Code c code)
    (cs : List Char) : ∃ body, Writes Code cs body := by
  induction cs with
  | nil => exact ⟨[], .nil⟩
  | cons c cs ih =>
    obtain ⟨code, hcode⟩ := h c
    obtain ⟨body, hbody⟩ := ih
    exact ⟨code ++ body, .cons hcode hbody⟩

/-- Every character that cannot stand for itself has an escape. -/
theorem exists_escape : ∀ c ∈ ['"', '\\', '\n', '\r', '\x7b', '\x7d'], ∃ e ∈ escapes, e.1 = c := by
  decide

theorem exists_writes_plain (cs : List Char) : ∃ body, Writes PlainCode cs body := by
  refine Writes.exists_of_forall (fun c => ?_) cs
  by_cases hc : c ∈ ['"', '\\', '\n', '\r']
  · obtain ⟨⟨c, d⟩, he, rfl⟩ := exists_escape c (List.mem_append_left ['\x7b', '\x7d'] hc)
    exact ⟨_, .escape he⟩
  · exact ⟨_, .raw hc⟩

theorem exists_writes_text (cs : List Char) : ∃ body, Writes TextCode cs body := by
  refine Writes.exists_of_forall (fun c => ?_) cs
  by_cases hc : c ∈ ['"', '\\', '\n', '\r', '\x7b', '\x7d']
  · obtain ⟨⟨c, d⟩, he, rfl⟩ := exists_escape c hc
    exact ⟨_, .escape he⟩
  · exact ⟨_, .raw hc⟩

/-! ## Scanning -/

/-- What stands behind the backslash is taken along, and is resolved to the character. -/
theorem escapes_spec : ∀ e ∈ escapes,
    isLineEnd e.2 = false ∧ isEscape e.2 = true ∧ resolveEscape e.2 = e.1 := by
  decide

theorem escapeMove_escape {c d : Char} (h : (c, d) ∈ escapes) (mode : StringMode) (place : Place) :
    escapeMove mode place (some d) = .two mode none := by
  obtain ⟨hline, hescape, -⟩ := escapes_spec _ h
  simp only [escapeMove, hline, hescape, Bool.false_eq_true, if_false, if_true]

theorem isLineEnd_of_ne {c : Char} (hn : c ≠ '\n') (hr : c ≠ '\r') : isLineEnd c = false := by
  simp [isLineEnd, hn, hr]

theorem PlainCode.scans {c : Char} {code : List Char} (h : PlainCode c code) :
    Scans .plain code .plain := by
  cases h with
  | raw hc =>
    simp only [List.mem_cons, List.not_mem_nil, or_false, not_or] at hc
    obtain ⟨hquote, hescape, hn, hr⟩ := hc
    exact .one fun place next => by simp [stringMove, isLineEnd_of_ne hn hr, hquote, hescape]
  | escape hd => exact .two fun place => escapeMove_escape hd .plain place

theorem TextCode.scans {c : Char} {code : List Char} (h : TextCode c code) :
    Scans .text code .text := by
  cases h with
  | raw hc =>
    simp only [List.mem_cons, List.not_mem_nil, or_false, not_or] at hc
    obtain ⟨hquote, hescape, hn, hr, hopen, hclose⟩ := hc
    exact .textChar (isLineEnd_of_ne hn hr) hopen hclose hescape hquote
  | escape hd => exact .two fun place => escapeMove_escape hd .text place
  | brace opening => cases opening <;> exact .two fun _ => rfl

theorem Writes.scans {Code : Char → List Char → Prop} {mode : StringMode} {cs body : List Char}
    (hCode : ∀ {c code}, Code c code → Scans mode code mode) (h : Writes Code cs body) :
    Scans mode body mode := by
  induction h with
  | nil => exact .nil mode
  | cons hcode _ ih => exact (hCode hcode).append ih

/-! ## Reading -/

theorem unescapeOnto_raw {out rest : List Char} {c : Char} (hc : c ≠ '\\') :
    unescapeOnto out (c :: rest) = unescapeOnto (c :: out) rest := by
  rw [unescapeOnto.eq_def]
  split <;> simp_all

theorem unescapeOnto_writes {cs body : List Char} (h : Writes PlainCode cs body) (out : List Char) :
    unescapeOnto out body = out.reverse ++ cs := by
  induction h generalizing out with
  | nil => simp [unescapeOnto]
  | cons hcode _ ih =>
    cases hcode with
    | raw hc =>
      simp only [List.mem_cons, not_or] at hc
      rw [List.singleton_append, unescapeOnto_raw hc.2.1, ih]
      simp
    | escape hd =>
      rw [List.cons_append, List.singleton_append, unescapeOnto, (escapes_spec _ hd).2.2, ih]
      simp

/-- Each way to write a character as text is cut as that character. -/
theorem TextCode.cutsTo {c : Char} {code : List Char} (h : TextCode c code) (pending : List Char) :
    CutsTo (.text pending) code (.text (c :: pending)) := by
  cases h with
  | raw hc =>
    simp only [List.mem_cons, List.not_mem_nil, or_false, not_or] at hc
    exact .textChar pending hc.2.2.2.2.1 hc.2.2.2.2.2 hc.2.1
  | @escape c d hd =>
    have hresolve : resolveEscape d = c := (escapes_spec _ hd).2.2
    exact hresolve ▸ .escape pending d
  | brace opening => exact .brace pending opening

theorem Writes.cutsTo {cs body : List Char} (h : Writes TextCode cs body) (pending : List Char) :
    CutsTo (.text pending) body (.text (cs.reverse ++ pending)) := by
  induction h generalizing pending with
  | nil => exact .nil _
  | @cons c code cs body hcode _ ih =>
    rw [List.reverse_cons, List.append_assoc, List.singleton_append]
    exact (hcode.cutsTo pending).append (ih (c :: pending))

/-- The body of an interpolated string that writes a text is one piece, or none. -/
theorem Writes.pieces_eq {cs body : List Char} (h : Writes TextCode cs body) (place : Place) :
    pieces place body = textPieces cs := by
  have hcut := h.cutsTo [] [] place []
  simp only [List.append_nil] at hcut
  rw [pieces, hcut, cutPieces, PieceMode.finish_text]
  simp

namespace Expr

/-- A string token is read as the characters between its quotes, without their escapes. -/
theorem parse_quoted {body : List Char} (h : Scans .plain body .plain) :
    parse (String.ofList ('"' :: (body ++ ['"']))) =
      .ok (.literal (.str (String.ofList (unescape body)))
        (Place.first.spanOf ('"' :: (body ++ ['"'])))) := by
  unfold parse
  refine Grammar.standalone_eq_ok.2 ?_
  rw [String.toList_ofList, h.ofChars_quoted]
  refine ⟨Grammar.records_expr_atom rfl ?_ stops_nil, by simp [Lexemes.single]⟩
  simp [Grammar.atom?, Grammar.stringBody]

/-- A text, however it is written as a string, is one token without faults and is read as the text.
So it is as an interpolated string, whose only segment is the text, and which has none if the text
is empty. -/
theorem parse_writes {s : String} {plain text : List Char}
    (hplain : Writes PlainCode s.toList plain) (htext : Writes TextCode s.toList text) :
    ((∀ place, Lexemes.ofChars place ('"' :: (plain ++ ['"'])) =
        .single .stringLiteral place ('"' :: (plain ++ ['"']))) ∧
      parse (String.ofList ('"' :: (plain ++ ['"']))) =
        .ok (.literal (.str s) (Place.first.spanOf ('"' :: (plain ++ ['"']))))) ∧
    (∀ place, Lexemes.ofChars place ('$' :: '"' :: (text ++ ['"'])) =
        .single .interpolatedString place ('$' :: '"' :: (text ++ ['"']))) ∧
      parse (String.ofList ('$' :: '"' :: (text ++ ['"']))) =
        .ok (.interpolated (if s = "" then [] else [.text s])
          (Place.first.spanOf ('$' :: '"' :: (text ++ ['"'])))) := by
  have hquoted := hplain.scans PlainCode.scans
  have hliteral := htext.scans TextCode.scans
  have hunescape : unescape plain = s.toList := unescapeOnto_writes hplain []
  have hsegments : textSegments s.toList = if s = "" then [] else [.text s] := by
    simp [textSegments]
  refine ⟨⟨hquoted.ofChars_quoted, ?_⟩, hliteral.fillsLiteral.ofChars, parse_literal hliteral ?_⟩
  · rw [parse_quoted hquoted, hunescape, String.ofList_toList]
  · rw [htext.pieces_eq, ← hsegments, Grammar.segments_eq]
    cases s.toList <;> rfl

/-- Two ways to write `é"\`, a line feed, a pair of braces and a tab. -/
theorem parse_writes_mixed :
    ((∀ place, Lexemes.ofChars place ('"' :: ("é\\\"\\\\\\n\x7b\\\x7d\t".toList ++ ['"'])) =
        .single .stringLiteral place ('"' :: ("é\\\"\\\\\\n\x7b\\\x7d\t".toList ++ ['"']))) ∧
      parse (String.ofList ('"' :: ("é\\\"\\\\\\n\x7b\\\x7d\t".toList ++ ['"']))) =
        .ok (.literal (.str "é\"\\\n\x7b\x7d\t")
          (Place.first.spanOf ('"' :: ("é\\\"\\\\\\n\x7b\\\x7d\t".toList ++ ['"']))))) ∧
    (∀ place, Lexemes.ofChars place ('$' :: '"' :: ("é\\\"\\\\\\n\x7b\x7b\\\x7d\\t".toList ++ ['"'])) =
        .single .interpolatedString place
          ('$' :: '"' :: ("é\\\"\\\\\\n\x7b\x7b\\\x7d\\t".toList ++ ['"']))) ∧
      parse (String.ofList ('$' :: '"' :: ("é\\\"\\\\\\n\x7b\x7b\\\x7d\\t".toList ++ ['"']))) =
        .ok (.interpolated (if "é\"\\\n\x7b\x7d\t" = "" then [] else [.text "é\"\\\n\x7b\x7d\t"])
          (Place.first.spanOf ('$' :: '"' :: ("é\\\"\\\\\\n\x7b\x7b\\\x7d\\t".toList ++ ['"'])))) := by
  have hplain : Writes PlainCode "é\"\\\n\x7b\x7d\t".toList "é\\\"\\\\\\n\x7b\\\x7d\t".toList := by
    refine .cons (PlainCode.raw (c := 'é') (by decide)) ?_
    refine .cons (PlainCode.escape (d := '"') (by decide)) (.cons (PlainCode.escape (d := '\\') (by decide)) ?_)
    refine .cons (PlainCode.escape (d := 'n') (by decide)) (.cons (PlainCode.raw (c := '\x7b') (by decide)) ?_)
    exact .cons (PlainCode.escape (d := '\x7d') (by decide)) (.cons (PlainCode.raw (c := '\t') (by decide)) .nil)
  have htext : Writes TextCode "é\"\\\n\x7b\x7d\t".toList "é\\\"\\\\\\n\x7b\x7b\\\x7d\\t".toList := by
    refine .cons (TextCode.raw (c := 'é') (by decide)) ?_
    refine .cons (TextCode.escape (d := '"') (by decide)) (.cons (TextCode.escape (d := '\\') (by decide)) ?_)
    refine .cons (TextCode.escape (d := 'n') (by decide)) (.cons (TextCode.brace true) ?_)
    exact .cons (TextCode.escape (d := '\x7d') (by decide)) (.cons (TextCode.escape (d := 't') (by decide)) .nil)
  exact parse_writes hplain htext

end Expr

end TypedTemplate
