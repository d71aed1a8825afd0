-- SUMMARY: The places of a text, and the lines and columns in which they lie.
import TypedTemplate.Source.Place

/-!
# Regions

A region is a set of places. It covers a text that starts somewhere when the place of each of
its characters and that of its end lie in it. What is cut out of a covered text is covered where
it stands, which is how a fault deep inside a unit is known to lie in the unit. The places
of a whole unit are on its lines, up to the column behind the last byte of the line.
-/

namespace TypedTemplate

/-! ## Sizes -/

theorem Text.foldl_byteSize (n : Nat) (cs : List Char) :
    cs.foldl (fun n c => n + c.utf8Size) n = n + byteSize cs := by
  unfold byteSize
  induction cs generalizing n with
  | nil => rfl
  | cons c cs ih =>
    rw [List.foldl_cons, List.foldl_cons, ih, ih (0 + c.utf8Size)]
    omega

theorem Text.byteSize_cons (c : Char) (cs : List Char) :
    byteSize (c :: cs) = c.utf8Size + byteSize cs := by
  unfold byteSize
  rw [List.foldl_cons, Text.foldl_byteSize]
  unfold byteSize
  omega

theorem Text.byteSize_append (cs ds : List Char) :
    byteSize (cs ++ ds) = byteSize cs + byteSize ds := by
  unfold byteSize
  rw [List.foldl_append, Text.foldl_byteSize]
  rfl

/-! ## Places of spans -/

/-- Where the span starts. -/
def Span.place (s : Span) : Place := ⟨s.line, s.col⟩

namespace Place

@[simp] theorem place_span (p : Place) (len : Nat) : (p.span len).place = p := rfl

@[simp] theorem place_spanOf (p : Place) (cs : List Char) : (p.spanOf cs).place = p := rfl

end Place

/-! ## Parts of texts -/

/-- What is known of a text at a place is known of its starts and of what is behind its first
character. -/
structure Standing (Q : Place → List Char → Prop) : Prop where
  left : ∀ {p : Place} {cs ds : List Char}, Q p (cs ++ ds) → Q p cs
  tail : ∀ {p : Place} {c : Char} {cs : List Char}, Q p (c :: cs) → Q (p.next c) cs

namespace Standing

variable {Q : Place → List Char → Prop} {p : Place} {cs ds : List Char}

theorem of_prefix (hQ : Standing Q) (h : Q p ds) (hcs : cs <+: ds) : Q p cs := by
  obtain ⟨es, rfl⟩ := hcs
  exact hQ.left h

theorem right (hQ : Standing Q) (h : Q p (cs ++ ds)) : Q (p.after cs) ds := by
  induction cs generalizing p with
  | nil => exact h
  | cons c cs ih => exact ih (hQ.tail h)

end Standing

/-- The text `t` stands at `p` in the text `cs` that starts at `q`. -/
def Slice (q : Place) (cs : List Char) (p : Place) (t : List Char) : Prop :=
  ∃ before after, cs = before ++ t ++ after ∧ p = q.after before

namespace Slice

variable {q p p' : Place} {c : Char} {cs t t' more : List Char}

theorem refl (q : Place) (cs : List Char) : Slice q cs q cs := ⟨[], [], by simp, rfl⟩

theorem trans (h : Slice q cs p t) (h' : Slice p t p' t') : Slice q cs p' t' := by
  obtain ⟨before, after, rfl, rfl⟩ := h
  obtain ⟨before', after', rfl, rfl⟩ := h'
  exact ⟨before ++ before', after' ++ after, by simp, (Place.after_append ..).symm⟩

theorem sublist (h : Slice q cs p t) : t.Sublist cs := by
  obtain ⟨before, after, rfl, -⟩ := h
  exact (List.sublist_append_right before t).trans (List.sublist_append_left _ after)

theorem standing : Standing (Slice q cs) where
  left := by
    rintro p t more ⟨before, after, rfl, rfl⟩
    exact ⟨before, more ++ after, by simp, rfl⟩
  tail := by
    rintro p c t ⟨before, after, rfl, rfl⟩
    exact ⟨before ++ [c], after, by simp, by rw [Place.after_append]; rfl⟩

end Slice

/-! ## Regions -/

/-- A set of places. -/
abbrev Region : Type := Place → Prop

namespace Region

variable {R : Region} {p : Place} {c : Char} {cs ds : List Char}

/-- A span over two others starts where one of them does. -/
theorem merge {a b : Span} (ha : R a.place) (hb : R b.place) : R (a.merge b).place := by
  unfold Span.merge
  split
  · rename_i hline
    rcases Nat.le_total a.col b.col with h | h
    · simpa [Span.place, Nat.min_eq_left h] using ha
    · simpa [Span.place, Nat.min_eq_right h, hline] using hb
  · exact ha

/-- All places of the text `cs` that starts at `p` lie in the region. -/
def Covers (R : Region) (p : Place) (cs : List Char) : Prop := ∀ pre, pre <+: cs → R (p.after pre)

namespace Covers

theorem start (h : R.Covers p cs) : R p := h [] List.nil_prefix

theorem finish (h : R.Covers p cs) : R (p.after cs) := h cs (List.prefix_refl cs)

theorem of_prefix (h : R.Covers p ds) (hcs : cs <+: ds) : R.Covers p cs :=
  fun pre hpre => h pre (hpre.trans hcs)

theorem left (h : R.Covers p (cs ++ ds)) : R.Covers p cs := h.of_prefix (List.prefix_append cs ds)

theorem right (h : R.Covers p (cs ++ ds)) : R.Covers (p.after cs) ds := by
  intro pre hpre
  rw [← Place.after_append]
  exact h _ ((List.prefix_append_right_inj cs).2 hpre)

theorem tail (h : R.Covers p (c :: cs)) : R.Covers (p.next c) cs :=
  (show R.Covers p ([c] ++ cs) from h).right

end Covers

theorem standing_covers : Standing R.Covers := ⟨Covers.left, Covers.tail⟩

/-- The places of a unit with the text `cs`. -/
def ofText (cs : List Char) : Region := fun p => ∃ pre, pre <+: cs ∧ p = Place.first.after pre

theorem covers_ofText (cs : List Char) : (ofText cs).Covers .first cs :=
  fun pre hpre => ⟨pre, hpre, rfl⟩

end Region

/-! ## Lines -/

namespace Text

/-- The lines of a text, without the line feeds that end them. Behind the last line feed there is
one more line, which may be empty. -/
def lines (cs : List Char) : List (List Char) := cs.splitOn '\n'

theorem lines_append {cs ds : List Char} (h : '\n' ∉ cs) :
    lines (cs ++ ds) = (lines ds).modifyHead (cs ++ ·) := by
  unfold lines
  obtain ⟨line, more, hlines⟩ := List.exists_cons_of_ne_nil (List.splitOn_ne_nil '\n' ds)
  rw [hlines]
  induction cs with
  | nil => exact hlines
  | cons c cs ih =>
    simp only [List.mem_cons, not_or] at h
    obtain ⟨hc, hcs⟩ := h
    rw [List.cons_append, List.splitOn_cons_eq_if_modifyHead, if_neg (by simpa using Ne.symm hc),
      ih hcs]
    rfl

theorem byteSize_le_of_prefix {cs ds : List Char} (h : cs <+: ds) : byteSize cs ≤ byteSize ds := by
  obtain ⟨es, rfl⟩ := h
  rw [byteSize_append]
  exact Nat.le_add_right _ _

end Text

/-- On a line a place moves to the right only. -/
theorem Place.after_of_not_mem {p : Place} {cs : List Char} (h : '\n' ∉ cs) :
    p.after cs = ⟨p.line, p.col + Text.byteSize cs⟩ := by
  induction cs generalizing p with
  | nil => rfl
  | cons c cs ih =>
    simp only [List.mem_cons, not_or] at h
    obtain ⟨hc, hcs⟩ := h
    rw [after_cons, ih hcs, Text.byteSize_cons, next, if_neg (Ne.symm hc), Nat.add_assoc]

theorem Place.line_after (p : Place) (cs : List Char) :
    (p.after cs).line = p.line + cs.count '\n' := by
  induction cs generalizing p with
  | nil => rfl
  | cons c cs ih =>
    rw [after_cons, ih]
    by_cases hc : c = '\n'
    · subst hc
      rw [next, if_pos rfl, List.count_cons_self]
      dsimp only
      omega
    · rw [next, if_neg hc, List.count_cons_of_ne hc]

/-- Behind a line feed the columns are counted anew. -/
theorem Place.after_line {ds : List Char} (h : '\n' ∉ ds) (p : Place) (cs : List Char) :
    p.after (cs ++ '\n' :: ds) = ⟨p.line + cs.count '\n' + 1, 1 + Text.byteSize ds⟩ := by
  rw [after_append, after_cons, next, if_pos rfl, after_of_not_mem h, line_after]

/-- The place of a prefix of a text that starts on line `n` is on the line that the prefix ends in,
up to the column behind it. -/
theorem Place.exists_line {cs pre : List Char} (h : pre <+: cs) (n : Nat) :
    n ≤ ((⟨n, 1⟩ : Place).after pre).line ∧ 1 ≤ ((⟨n, 1⟩ : Place).after pre).col ∧
      ∃ line, (Text.lines cs)[((⟨n, 1⟩ : Place).after pre).line - n]? = some line ∧
        ((⟨n, 1⟩ : Place).after pre).col ≤ Text.byteSize line + 1 := by
  obtain ⟨post, rfl⟩ := h
  by_cases hline : '\n' ∈ pre
  · -- The first line of the prefix is whole; what follows starts on a line of its own.
    obtain ⟨first, more, rfl, hfirst⟩ := List.eq_append_cons_of_mem hline
    have hafter :
        (⟨n, 1⟩ : Place).after (first ++ '\n' :: more) = (⟨n + 1, 1⟩ : Place).after more := by
      rw [Place.after_append, Place.after_of_not_mem hfirst, Place.after_cons]
      rfl
    have hlines :
        Text.lines (first ++ '\n' :: more ++ post) = first :: Text.lines (more ++ post) := by
      rw [List.append_assoc, Text.lines, List.cons_append,
        List.splitOn_append_cons_self_of_not_mem hfirst]
      rfl
    obtain ⟨hle, hcol, line, hget, hbound⟩ := exists_line (List.prefix_append more post) (n + 1)
    rw [hafter, hlines]
    refine ⟨Nat.le_of_succ_le hle, hcol, line, ?_, hbound⟩
    rw [← hget, ← Nat.sub_add_cancel (Nat.sub_pos_of_lt hle), List.getElem?_cons_succ]
    rfl
  · obtain ⟨line, lines, hlines⟩ := List.exists_cons_of_ne_nil (List.splitOn_ne_nil '\n' post)
    rw [Place.after_of_not_mem hline, Text.lines_append hline, Text.lines, hlines]
    refine ⟨Nat.le_refl n, Nat.le_add_right 1 _, pre ++ line, by simp, ?_⟩
    have hle := Text.byteSize_le_of_prefix (List.prefix_append pre line)
    show 1 + Text.byteSize pre ≤ _
    omega
termination_by pre.length
decreasing_by subst_vars; simp; omega

theorem Region.one_le_line {p : Place} {cs : List Char} (h : ofText cs p) : 1 ≤ p.line := by
  obtain ⟨pre, hpre, rfl⟩ := h
  exact (Place.exists_line hpre 1).1

/-- The span starts on a line of the text, at one of its bytes or behind the last. -/
structure Span.PointsInto (s : Span) (cs : List Char) : Prop where
  one_le_line : 1 ≤ s.line
  line_le : s.line ≤ (Text.lines cs).length
  one_le_col : 1 ≤ s.col
  col_le : s.col ≤ Text.byteSize ((Text.lines cs).getD (s.line - 1) []) + 1

theorem Region.pointsInto {s : Span} {cs : List Char} (h : ofText cs s.place) :
    s.PointsInto cs := by
  obtain ⟨pre, hpre, hplace⟩ := h
  obtain ⟨hline, hcol, line, hget, hbound⟩ := Place.exists_line hpre 1
  change s.place = (⟨1, 1⟩ : Place).after pre at hplace
  rw [← hplace] at hline hcol hget hbound
  obtain ⟨hlt, -⟩ := List.getElem?_eq_some_iff.1 hget
  change 1 ≤ s.line at hline
  change s.line - 1 < _ at hlt
  refine ⟨hline, by omega, hcol, ?_⟩
  rwa [List.getD_eq_getElem?_getD, show (Text.lines cs)[s.line - 1]? = some line from hget]

end TypedTemplate
