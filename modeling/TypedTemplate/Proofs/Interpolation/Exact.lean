-- SUMMARY: The span of every expression in a line covers just the text that is parsed as it.
import TypedTemplate.Proofs.Grammar.Parts
import TypedTemplate.Proofs.Interpolation.Faultless
import TypedTemplate.Proofs.Interpolation.Region
import TypedTemplate.Proofs.Token.Slice

/-!
# Exact spans

The parts of an expression are read from lexemes of their own, and these are those of a slice
of the line: the one that the span of the part covers. So each part is parsed from its slice alone
as it is in the line, its own parts and spans included. The expression in a hole is parsed from a
slice of the string that the hole is in, and the same goes on there.
-/

namespace TypedTemplate

/-- The one span lies inside the other. -/
def Span.Inside (inner outer : Span) : Prop :=
  inner.line = outer.line ∧ outer.col ≤ inner.col ∧ inner.endCol ≤ outer.endCol

/-- In the text of one line, the bytes from the column of the span on, as many as it is long, are
the text `t`. -/
def Span.Selects (s : Span) (line t : List Char) : Prop :=
  ∃ before after, line = before ++ t ++ after ∧
    s = ⟨1, 1 + Text.byteSize before, Text.byteSize t⟩

theorem Slice.inside {place p : Place} {text t : List Char} (h : Slice place text p t)
    (hline : ∀ c ∈ text, c ≠ '\n') : (p.spanOf t).Inside (place.spanOf text) := by
  obtain ⟨before, after, rfl, rfl⟩ := h
  rw [Place.after_of_not_mem fun hmem => hline _ (by simp [hmem]) rfl]
  refine ⟨rfl, Nat.le_add_right _ _, ?_⟩
  simp only [Span.endCol, Place.spanOf, Place.span, Text.byteSize_append]
  omega

theorem Slice.selects {p : Place} {text t : List Char} (h : Slice .first text p t)
    (hline : ∀ c ∈ text, c ≠ '\n') : (p.spanOf t).Selects text t := by
  obtain ⟨before, after, rfl, rfl⟩ := h
  refine ⟨before, after, rfl, ?_⟩
  rw [Place.after_of_not_mem fun hmem => hline _ (by simp [hmem]) rfl]
  rfl

namespace Expr

/-- An expression within another: that itself, a part of it, a part of a part, and so on. -/
inductive Contains : (e inner : Expr) → Prop where
  | self (e : Expr) : Contains e e
  | part {e c inner : Expr} : c ∈ e.children → Contains c inner → Contains e inner

/-- The text that stands at `place` is, by itself and all of it, the expression. -/
structure Exact (place : Place) (text : List Char) (e : Expr) : Prop where
  parsed : ∀ depth, text.length ≤ depth →
    Grammar.standalone (Grammar.interpolation depth) place text = .ok e
  span : e.span = place.spanOf text

/-- Parse the text of one expression that stands at `place`. -/
def parseAt (place : Place) (text : List Char) : Except (List ParseError) Expr :=
  Grammar.standalone (Grammar.interpolation (text.length + 1)) place text

theorem parse_eq_parseAt (text : String) : parse text = parseAt .first text.toList := by
  rw [parseAt, String.length_toList, parse]

end Expr

namespace Grammar

open TypedTemplate.Expr (Exact)

variable {depth : Nat} {place : Place} {text : List Char} {e c : Expr}

/-! ## Slices of lexemes -/

/-- An expression among the lexemes of a line is exact for a slice of it. -/
theorem Has.exact {g : Grammar} (hline : ∀ c ∈ text, c ≠ '\n') (hdepth : text.length ≤ depth)
    (hg : g.interpolate = interpolation depth)
    (hfaults : ∀ lexeme ∈ (Lexemes.ofChars place text).lexemes, lexeme.errors = [])
    (h : g.Has (Lexemes.ofChars place text).lexemes e) :
    ∃ p t, Slice place text p t ∧ Exact p t e := by
  obtain ⟨before, own, after, hlexemes, hown⟩ := h
  obtain ⟨first, own, rfl⟩ := List.exists_cons_of_ne_nil hown.ne_nil
  have hsub : (first :: own).Sublist (Lexemes.ofChars place text).lexemes := by
    rw [hlexemes]
    exact (List.sublist_append_right _ _).trans (List.sublist_append_left _ _)
  obtain ⟨p, t, hslice, hsame, hspan⟩ :=
    Lexemes.exists_slice hline (fun lexeme hmem => hfaults lexeme (hsub.subset hmem)) hlexemes
  have hlineSlice : ∀ c ∈ t, c ≠ '\n' := fun c hc => hline c (hslice.sublist.subset hc)
  have hshort : t.length ≤ depth := Nat.le_trans hslice.sublist.length_le hdepth
  refine ⟨p, t, hslice, fun depth' hdepth' => ?_,
    hspan _ (hown.over ((Lexemes.inLine hline hfaults).sublist hsub))⟩
  rw [standalone_depth hlineSlice hshort hdepth', standalone_eq_ok, hsame]
  have halone : g.Alone ({ first with skipped := [] } :: own) e := hown.of_token rfl
  refine ⟨halone.congr hg.symm, List.forall_mem_cons.2 ⟨?_, ?_⟩⟩
  · exact hfaults first (hsub.subset List.mem_cons_self)
  · exact fun lexeme hmem => hfaults lexeme (hsub.subset (List.mem_cons_of_mem _ hmem))

/-- What is parsed from a line is exact for a slice of it, which leaves out the spaces around. -/
theorem exists_exact (hline : ∀ c ∈ text, c ≠ '\n') (hdepth : text.length ≤ depth)
    (h : standalone (interpolation depth) place text = .ok e) :
    ∃ p t, Slice place text p t ∧ Exact p t e := by
  obtain ⟨hyields, hfaults⟩ := standalone_eq_ok.1 h
  exact Has.exact hline hdepth rfl hfaults ⟨[], _, [], by simp, hyields⟩

/-! ## Holes -/

/-- A part of an interpolated string that is read without errors is parsed from one of its holes. -/
theorem exists_hole_of_child {token : Token} {span : Span}
    (herrors : (interpolation depth token).errors = [])
    (hc : c ∈ (Expr.interpolated (interpolation depth token).segments span).children) :
    ∃ depth' place cs, depth = depth' + 1 ∧
      .hole place cs ∈ pieces (interpolatedBody token).1 (interpolatedBody token).2 ∧
      standalone (interpolation depth') (place.next '\x7b') (splitFormat cs).1 = .ok c := by
  cases depth with
  | zero => simp [interpolation, Expr.children] at hc
  | succ depth =>
    rw [interpolation_succ, segments_eq] at herrors hc
    obtain ⟨segment, hsegment, hc⟩ := List.mem_flatMap.1 hc
    obtain ⟨piece, hpiece, rfl⟩ := List.mem_map.1 hsegment
    have hrecorded := List.flatMap_eq_nil_iff.1 herrors piece hpiece
    cases piece with
    | text cs => simp [segmentOf] at hc
    | hole place cs =>
      refine ⟨depth, place, cs, rfl, hpiece, ?_⟩
      obtain ⟨-, e, format, hparsed, -, hsegment⟩ :=
        (hole_eq_ok (standalone_ne_error _)).1 (Prod.ext rfl hrecorded)
      have hhole : (segmentOf (standalone (interpolation depth)) (.hole place cs)).1 = _ := hsegment
      rw [hhole] at hc
      obtain rfl := List.mem_singleton.1 hc
      exact hparsed

/-- The expression in a hole is exact for a slice of the line that the string stands in. -/
theorem ReadsString.exact {g : Grammar} {lexeme : Lexeme} (hline : ∀ c ∈ text, c ≠ '\n')
    (hdepth : text.length ≤ depth) (hg : g.interpolate = interpolation depth)
    (hmem : lexeme ∈ (Lexemes.ofChars place text).lexemes) (hfaults : lexeme.errors = [])
    (h : g.ReadsString lexeme e) (hc : c ∈ e.children) :
    ∃ p t, Slice place text p t ∧ Exact p t c := by
  obtain ⟨hkind, rfl, herrors⟩ := h
  rw [hg] at herrors hc
  obtain ⟨depth, opening, cs, rfl, hpiece, hparsed⟩ := exists_hole_of_child herrors hc
  obtain ⟨s, hs⟩ := Lexemes.opening lexeme hmem hkind
  have hstands : Slice place text opening ('\x7b' :: cs) := by
    have hbody := stands_interpolatedBody Slice.standing hs
      (Lexemes.stands Slice.standing (Slice.refl place text) lexeme hmem hfaults)
    have hpieces : ∀ p ∈ pieces (interpolatedBody lexeme.token).1 (interpolatedBody lexeme.token).2,
        p.Stands (Slice place text) :=
      stands_cutPieces Slice.standing hbody trivial (by simp)
    exact hpieces _ hpiece
  have hslice : Slice place text (opening.next '\x7b') (splitFormat cs).1 :=
    Slice.standing.of_prefix (Slice.standing.tail hstands) ⟨_, append_splitFormat rfl⟩
  have hshort : (splitFormat cs).1.length ≤ depth := by
    have hlength := hstands.sublist.length_le
    have hsplit := (splitFormat_sublist cs).length_le
    simp only [List.length_cons] at hlength
    omega
  obtain ⟨p, t, hinner, hexact⟩ :=
    exists_exact (fun c hc => hline c (hslice.sublist.subset hc)) hshort hparsed
  exact ⟨p, t, hslice.trans hinner, hexact⟩

end Grammar

namespace Expr

/-! ## The theorem -/

open Grammar

variable {place : Place} {text : List Char} {e c : Expr}

/-- The parts of an expression are exact for slices of its text. -/
theorem Exact.part (h : Exact place text e) (hline : ∀ c ∈ text, c ≠ '\n') (hc : c ∈ e.children) :
    ∃ p t, Slice place text p t ∧ Exact p t c := by
  obtain ⟨hyields, hfaults⟩ := standalone_eq_ok.1 (h.parsed text.length (Nat.le_refl _))
  have halone : Alone ⟨(Lexemes.ofChars place text).finish, interpolation text.length⟩
      (Lexemes.ofChars place text).lexemes e := hyields
  rcases halone.made.child hc with hhas | ⟨lexeme, hown, hstring⟩
  · exact hhas.exact hline (Nat.le_refl _) rfl hfaults
  · have hmem : lexeme ∈ (Lexemes.ofChars place text).lexemes := by simp [hown]
    exact hstring.exact hline (Nat.le_refl _) rfl hmem (hfaults lexeme hmem) hc

/-- Every expression within an exact one is exact for a slice of the text. -/
theorem Contains.exact {inner : Expr} (h : e.Contains inner) (hline : ∀ c ∈ text, c ≠ '\n')
    (he : Exact place text e) : ∃ p t, Slice place text p t ∧ Exact p t inner := by
  induction h generalizing place text with
  | self e => exact ⟨place, text, Slice.refl place text, he⟩
  | part hc _ ih =>
    obtain ⟨p, t, hslice, hpart⟩ := he.part hline hc
    obtain ⟨p', t', hslice', hinner⟩ := ih (fun c hc => hline c (hslice.sublist.subset hc)) hpart
    exact ⟨p', t', hslice.trans hslice', hinner⟩

/-- The spans of the expressions in a line are exact, in the holes of strings too. The bytes that
a span covers are a text that is parsed by itself, where it stands, as just that expression,
with the same spans all through. And the span of each part lies inside that of the whole. -/
theorem parse_exact {text : String} (hline : ∀ c ∈ text.toList, c ≠ '\n') {e : Expr}
    (he : parse text = .ok e) {n : Expr} (hn : e.Contains n) :
    (∃ t, n.span.Selects text.toList t ∧ parseAt n.span.place t = .ok n) ∧
      ∀ c ∈ n.children, c.span.Inside n.span := by
  rw [parse_eq_parseAt] at he
  obtain ⟨p, t, hslice, hexact⟩ := exists_exact hline (Nat.le_succ _) he
  obtain ⟨p', t', hslice', hinner⟩ :=
    hn.exact (fun c hc => hline c (hslice.sublist.subset hc)) hexact
  have hwhole := hslice.trans hslice'
  have hlineInner : ∀ c ∈ t', c ≠ '\n' := fun c hc => hline c (hwhole.sublist.subset hc)
  refine ⟨⟨t', ?_, ?_⟩, fun c hc => ?_⟩
  · rw [hinner.span]
    exact hwhole.selects hline
  · rw [hinner.span]
    exact hinner.parsed _ (Nat.le_succ _)
  · obtain ⟨p'', t'', hslice'', hpart⟩ := hinner.part hlineInner hc
    rw [hpart.span, hinner.span]
    exact hslice''.inside hlineInner

/-- A sum with a string that has a string in its hole. -/
def nestedLine : String := "a + $\"\x7b$\"\x7bn.x\x7d\"\x7d\""

theorem parse_exact_nested : ∃ e n, parse nestedLine = .ok e ∧ e.Contains n ∧
    n.span = ⟨1, 11, 3⟩ ∧
    (∃ t, n.span.Selects nestedLine.toList t ∧ parseAt n.span.place t = .ok n) ∧
      ∀ c ∈ n.children, c.span.Inside n.span := by
  have hline : ∀ c ∈ nestedLine.toList, c ≠ '\n' := by decide +kernel
  have hfound : (parse nestedLine).toOption.any (fun e =>
      e.children.any fun outer => outer.children.any fun inner => inner.children.any fun n =>
        n.span = ⟨1, 11, 3⟩) = true := by decide +kernel
  cases he : parse nestedLine with
  | error errors => simp [he, Except.toOption] at hfound
  | ok e =>
    simp only [he, Except.toOption, Option.any_some, List.any_eq_true, decide_eq_true_eq] at hfound
    obtain ⟨outer, houter, inner, hinner, n, hn, hspan⟩ := hfound
    have hcontains : e.Contains n := .part houter (.part hinner (.part hn (.self n)))
    exact ⟨e, n, rfl, hcontains, hspan, parse_exact hline he hcontains⟩

end Expr

end TypedTemplate
