-- SUMMARY: What the texts and holes of a template literal are read as.
import Mathlib.Data.List.TakeWhile
import TypedTemplate.Grammar.Standalone
import TypedTemplate.Proofs.Grammar.Expression
import TypedTemplate.Proofs.Template.Body

/-!
# Segments of template literals

The text of a hole is cut into tokens of its own and parsed as an expression: the
field of the model or, where a text is given for null, the field or else that text.
So the literal of a template is read as one segment for each of its contents.
-/

namespace TypedTemplate

/-! ## Terminals of forms -/

/-- A token of the form, at no place. -/
def Form.token (f : Form) : Token := ⟨f.kind, f.lexeme, .nowhere⟩

/-- The terminal of a token is that of its form. -/
theorem Token.terminal_form (token : Token) : token.form.token.terminal = token.terminal := by
  obtain ⟨kind, lexeme, span⟩ := token
  by_cases hint : (Number.ofDigits lexeme.toList : Int) ≤ maxInt
  all_goals cases kind <;> simp [terminal, Form.token, form, Grammar.intLiteral, Grammar.stringBody, hint]

theorem terminals_of_forms {lexemes : List Lexeme} {fs : List Form} (h : formsOf lexemes = fs) :
    lexemes.map (·.token.terminal) = fs.map (·.token.terminal) := by
  rw [← h, formsOf, List.map_map]
  exact List.map_congr_left fun lexeme _ => (Token.terminal_form lexeme.token).symm

/-- A text parses as the expression that its tokens print. -/
theorem Grammar.exists_standalone {cs : List Char} {fs : List Form} {e : Expr} (h : Cuts cs fs [])
    (hkinds : ∀ f ∈ fs, f.kind ≠ .invalid ∧ f.kind ≠ .interpolatedString) (hg : e.Grouped)
    (hterminals : fs.map (·.token.terminal) = e.terminals) (interpolate : Token → Interpolation)
    (place : Place) : ∃ e', standalone interpolate place cs = .ok e' ∧ e'.bare = e.bare := by
  have hforms := h.forms_eq place
  have hplain : AllPlain (Lexemes.ofChars place cs).lexemes := by
    intro lexeme hlexeme
    refine (hkinds lexeme.token.form ?_).2
    rw [← hforms]
    exact List.mem_map_of_mem hlexeme
  have hlexes := h.errors_eq_nil (fun f hf => (hkinds f hf).1) place
  have hreads : Reads (Lexemes.ofChars place cs).lexemes e.terminals [] :=
    ⟨_, by simp, (terminals_of_forms hforms).trans hterminals⟩
  have hreaches := Grammar.reaches
    (g := ⟨(Lexemes.ofChars place cs).finish, interpolate⟩) 0 e hg (Nat.zero_le _)
    hplain hreads stops_nil (by simp [Closed])
  obtain ⟨e', hbare, hyields⟩ := hreaches.yields stops_nil
  exact ⟨e', standalone_eq_ok.2 ⟨hyields, hlexes⟩, hbare⟩

/-! ## Tokens of holes -/

/-- A string without quotes and backslashes is one token. -/
theorem Cuts.quoted {s rest : List Char} (h : Scans .plain s .plain) :
    Cuts ('"' :: (s ++ '"' :: rest)) [⟨.stringLiteral, String.ofList ('"' :: (s ++ ['"']))⟩] rest := by
  refine Cuts.scan (by decide) fun place => ?_
  rw [scanToken_quoted h]
  exact ⟨rfl, rfl⟩

theorem unescapeOnto_plain {out cs : List Char} (h : ∀ c ∈ cs, c ≠ '\\') :
    unescapeOnto out cs = out.reverse ++ cs := by
  induction cs generalizing out with
  | nil => simp [unescapeOnto]
  | cons c cs ih =>
    have hc := h c List.mem_cons_self
    rw [unescapeOnto.eq_def]
    split
    · simp_all
    · simp_all
    · rename_i heq
      obtain ⟨rfl, rfl⟩ := List.cons.inj heq
      rw [ih fun c hc => h c (List.mem_cons_of_mem _ hc)]
      simp
    · rename_i heq
      cases heq

namespace TemplateHole

variable {shape : Shape} {h : TemplateHole}

/-- The tokens of the hole's text. -/
def forms (h : TemplateHole) : List Form :=
  [⟨.identifier, "model"⟩, ⟨.dot, "."⟩, ⟨.identifier, h.field⟩] ++
    match h.default with
    | none   => []
    | some s => [⟨.questionQuestion, "??"⟩, ⟨.stringLiteral, String.ofList ('"' :: (s ++ ['"']))⟩]

/-- The field of the model. -/
def read (h : TemplateHole) : Expr := .member (.name ⟨"model", .nowhere⟩) ⟨h.field, .nowhere⟩ .nowhere

/-- What the hole's text says, without places. -/
def expr (h : TemplateHole) : Expr :=
  match h.default with
  | none   => h.read
  | some s => .binary .coalesce h.read (.literal (.str (String.ofList s)) .nowhere) .nowhere

theorem cuts_code (hh : h.Valid shape) : Cuts (h.code ['"']) h.forms [] := by
  have hmodel : ∀ rest, Cuts ("model.".toList ++ rest) [⟨.identifier, "model"⟩, ⟨.dot, "."⟩] rest := by
    intro rest
    have hdot : ∀ d ∈ rest.head?, pairMark '.' d = none := by
      intro d _
      unfold pairMark
      split <;> simp_all
    have hname : IsIdentifier "model" := ⟨⟨'m', rfl, by decide⟩, by decide, by decide⟩
    exact (Cuts.identifier hname (by rintro _ ⟨⟩; decide)).trans (Cuts.mark rfl hdot)
  cases hdefault : h.default with
  | none =>
    have hcode : h.code ['"'] = "model.".toList ++ (h.field.toList ++ []) := by
      rw [code_of_none hdefault, List.append_nil]
    have hforms : h.forms = [⟨.identifier, "model"⟩, ⟨.dot, "."⟩] ++ [⟨.identifier, h.field⟩] := by
      simp [forms, hdefault]
    rw [hcode, hforms]
    exact (hmodel _).trans (Cuts.identifier hh.identifier (by simp))
  | some s =>
    have hcode : h.code ['"'] =
        "model.".toList ++ (h.field.toList ++ (" ?? ".toList ++ '"' :: (s ++ ['"']))) :=
      code_of_some hdefault ['"']
    have hforms : h.forms = [⟨.identifier, "model"⟩, ⟨.dot, "."⟩] ++ ([⟨.identifier, h.field⟩] ++
        ([⟨.questionQuestion, "??"⟩] ++
          [⟨.stringLiteral, String.ofList ('"' :: (s ++ ['"']))⟩])) := by
      simp [forms, hdefault]
    have hplain : Scans .plain s .plain := Scans.run fun c hc => by
      obtain ⟨hquote, hescape, hline⟩ := hh.default s hdefault c hc
      have hline : isLineEnd c = false := hline
      exact Scans.one fun place next => by simp [stringMove, hline, hescape, hquote]
    rw [hcode, hforms]
    exact (hmodel _).trans ((Cuts.identifier hh.identifier (by rintro _ ⟨⟩; decide)).trans
      ((Cuts.fixed _ (by decide +kernel) _).trans (Cuts.quoted hplain)))

theorem kinds_forms (h : TemplateHole) :
    ∀ f ∈ h.forms, f.kind ≠ .invalid ∧ f.kind ≠ .interpolatedString := by
  intro f hf
  rcases List.mem_append.1 hf with hf | hf
  · simp only [List.mem_cons, List.not_mem_nil, or_false] at hf
    rcases hf with rfl | rfl | rfl <;> simp
  · cases hdefault : h.default with
    | none => simp [hdefault] at hf
    | some s =>
      simp only [hdefault, List.mem_cons, List.not_mem_nil, or_false] at hf
      rcases hf with rfl | rfl <;> simp

theorem terminals_forms (hh : h.Valid shape) : h.forms.map (·.token.terminal) = h.expr.terminals := by
  cases hdefault : h.default with
  | none => simp [forms, expr, hdefault, read, Expr.terminals, Form.token, Token.terminal]
  | some s =>
    have hs : unescape s = s := unescapeOnto_plain fun c hc => (hh.default s hdefault c hc).2.1
    simp [forms, expr, hdefault, read, Expr.terminals, Form.token, Token.terminal,
      Grammar.stringBody, hs, BinaryOp.mark]

theorem grouped_expr (h : TemplateHole) : h.expr.Grouped := by
  have hread : h.read.Grouped := ⟨trivial, by decide⟩
  unfold expr
  split
  · exact hread
  · exact ⟨hread, (by decide : Level.coalesce ≤ .postfixed), trivial,
      (by decide : Level.equality ≤ .primary)⟩

/-- The expression is what the hole's text says, wherever its parts stand. -/
inductive Spells : TemplateHole → Expr → Prop where
  | read {h : TemplateHole} (a b c : Span) : h.default = none →
      Spells h (.member (.name ⟨"model", a⟩) ⟨h.field, b⟩ c)
  | orText {h : TemplateHole} {s : List Char} (a b c d d' : Span) : h.default = some s →
      Spells h (.binary .coalesce (.member (.name ⟨"model", a⟩) ⟨h.field, b⟩ c)
        (.literal (.str (String.ofList s)) d) d')

theorem spells_of_bare {e : Expr} (he : e.bare = h.expr.bare) : h.Spells e := by
  have hread : ∀ e : Expr, e.bare = h.read →
      ∃ a b c, e = .member (.name ⟨"model", a⟩) ⟨h.field, b⟩ c := by
    intro e he
    cases e <;> simp only [Expr.bare, read, reduceCtorEq, Expr.member.injEq, Ident.mk.injEq] at he
    rename_i object field c
    obtain ⟨hobject, ⟨hfield, -⟩, -⟩ := he
    cases object <;> simp only [Expr.bare, reduceCtorEq, Expr.name.injEq, Ident.mk.injEq] at hobject
    rename_i x
    exact ⟨x.span, field.span, c, by rw [← hobject.1, ← hfield]⟩
  unfold expr at he
  cases hdefault : h.default with
  | none =>
    rw [hdefault] at he
    obtain ⟨a, b, c, rfl⟩ := hread e he
    exact .read a b c hdefault
  | some s =>
    rw [hdefault] at he
    cases e <;> simp only [Expr.bare, reduceCtorEq, Expr.binary.injEq] at he
    rename_i op left right d'
    obtain ⟨rfl, hleft, hright, -⟩ := he
    obtain ⟨a, b, c, rfl⟩ := hread left hleft
    cases right <;> simp only [Expr.bare, reduceCtorEq, Expr.literal.injEq] at hright
    rename_i value d
    obtain ⟨rfl, -⟩ := hright
    exact .orText a b c d d' hdefault

theorem exists_standalone (hh : h.Valid shape) (interpolate : Token → Interpolation) (place : Place) :
    ∃ e, Grammar.standalone interpolate place (h.code ['"']) = .ok e ∧ h.Spells e := by
  obtain ⟨e, he, hbare⟩ := Grammar.exists_standalone (cuts_code hh) h.kinds_forms h.grouped_expr
    (terminals_forms hh) interpolate place
  exact ⟨e, he, spells_of_bare hbare⟩

end TemplateHole

/-! ## Format specifiers -/

theorem splitFormatFrom_nil (s : ColonSearch) (before : List Char) :
    splitFormatFrom s before [] = (before.reverse, none) := rfl

/-- One step of the search for a specifier. -/
theorem splitFormatFrom_cons (s : ColonSearch) (before : List Char) (c : Char) (rest : List Char) :
    splitFormatFrom s before (c :: rest) =
      if (if s.quoted then c == '\\' else (c == '?' || c == ':') && rest.head? == some c) then
        match rest with
        | d :: rest' => splitFormatFrom s (d :: c :: before) rest'
        | []         => ((c :: before).reverse, none)
      else if c == '"' then splitFormatFrom { s with quoted := !s.quoted } (c :: before) rest
      else if s.quoted then splitFormatFrom s (c :: before) rest
      else if c == '(' then splitFormatFrom { s with depth := s.depth + 1 } (c :: before) rest
      else if c == ')' then splitFormatFrom { s with depth := s.depth - 1 } (c :: before) rest
      else if c == '?' && s.depth == 0 then
        splitFormatFrom { s with pending := s.pending + 1 } (c :: before) rest
      else if c == ':' && s.depth == 0 then
        if s.pending == 0 then (before.reverse, some rest)
        else splitFormatFrom { s with pending := s.pending - 1 } (c :: before) rest
      else splitFormatFrom s (c :: before) rest := by
  cases rest <;> rfl

/-- The characters lead the search for a specifier from one state to another. -/
def Searches (s : ColonSearch) (cs : List Char) (s' : ColonSearch) : Prop :=
  ∀ before rest, splitFormatFrom s before (cs ++ rest) =
    splitFormatFrom s' (cs.reverse ++ before) rest

namespace Searches

variable {s s' s'' : ColonSearch} {cs cs' : List Char}

theorem append (h : Searches s cs s') (h' : Searches s' cs' s'') : Searches s (cs ++ cs') s'' := by
  intro before rest
  rw [List.append_assoc, h, h', List.reverse_append, List.append_assoc]

/-- Characters that have no meaning for the search. -/
theorem run (h : ∀ c ∈ cs, c ≠ '"' ∧
    if s.quoted then c ≠ '\\' else c ≠ '?' ∧ c ≠ ':' ∧ c ≠ '(' ∧ c ≠ ')') : Searches s cs s := by
  induction cs with
  | nil => exact fun _ _ => rfl
  | cons c cs ih =>
    have hrest := ih fun c hc => h c (List.mem_cons_of_mem _ hc)
    intro before rest
    obtain ⟨hquote, hother⟩ := h c List.mem_cons_self
    rw [List.cons_append, splitFormatFrom_cons]
    cases hq : s.quoted <;> simp_all [hrest (c :: before) rest]

/-- Two question marks are an operator, and start no conditional. -/
theorem marks (hs : s.quoted = false) : Searches s ['?', '?'] s := by
  intro before rest
  rw [List.cons_append, List.singleton_append, splitFormatFrom_cons]
  simp [hs]

theorem quote (s : ColonSearch) : Searches s ['"'] { s with quoted := !s.quoted } := by
  intro before rest
  rw [List.singleton_append, splitFormatFrom_cons]
  cases hq : s.quoted <;> simp

end Searches

/-- A text that is searched to its end has no specifier. -/
theorem splitFormat_of_searches {cs : List Char} {s : ColonSearch} (h : Searches ⟨0, 0, false⟩ cs s) :
    splitFormat cs = (cs, none) := by
  have hsplit := h [] []
  simp only [List.append_nil] at hsplit
  rw [splitFormat, hsplit, splitFormatFrom_nil, List.reverse_reverse]

namespace TemplateHole

variable {shape : Shape} {h : TemplateHole}

/-- A hole of a template has no specifier. -/
theorem splitFormat_code (hh : h.Valid shape) : splitFormat (h.code ['"']) = (h.code ['"'], none) := by
  have hfield : Searches ⟨0, 0, false⟩ ("model.".toList ++ h.field.toList) ⟨0, 0, false⟩ := by
    refine Searches.run fun c hc => ?_
    rcases List.mem_append.1 hc with hc | hc
    · exact (by decide : ∀ c ∈ "model.".toList, c ≠ '"' ∧ c ≠ '?' ∧ c ≠ ':' ∧ c ≠ '(' ∧ c ≠ ')') c hc
    · exact ⟨hh.identifier.ne_of_not_wordChar (by decide) c hc,
        hh.identifier.ne_of_not_wordChar (by decide) c hc,
        hh.identifier.ne_of_not_wordChar (by decide) c hc,
        hh.identifier.ne_of_not_wordChar (by decide) c hc,
        hh.identifier.ne_of_not_wordChar (by decide) c hc⟩
  cases hdefault : h.default with
  | none =>
    rw [code_of_none hdefault]
    exact splitFormat_of_searches hfield
  | some s =>
    have hcode : h.code ['"'] = "model.".toList ++ h.field.toList ++
        (" ?? ".toList ++ (['"'] ++ (s ++ ['"']))) := by
      rw [code_of_some hdefault, List.append_assoc]
    have hblank : Searches ⟨0, 0, false⟩ [' '] ⟨0, 0, false⟩ := Searches.run (by decide)
    have hmarks : Searches ⟨0, 0, false⟩ " ?? ".toList ⟨0, 0, false⟩ :=
      hblank.append ((Searches.marks rfl).append hblank)
    have htext : Searches ⟨0, 0, true⟩ s ⟨0, 0, true⟩ := Searches.run fun c hc =>
      ⟨(hh.default s hdefault c hc).1, (hh.default s hdefault c hc).2.1⟩
    rw [hcode]
    exact splitFormat_of_searches (hfield.append (hmarks.append
      ((Searches.quote ⟨0, 0, false⟩).append (htext.append (Searches.quote ⟨0, 0, true⟩)))))

theorem isEmpty_trimChars_code (h : TemplateHole) (quote : List Char) :
    (Text.trimChars (h.code quote)).isEmpty = false := by
  have hcode : h.code quote = 'm' :: ("odel.".toList ++ (h.field.toList ++
      match h.default with
      | none   => []
      | some s => " ?? ".toList ++ (quote ++ (s ++ quote)))) := rfl
  have hblank : Text.isBlank 'm' = false := by decide
  rw [hcode, Text.trimChars, List.dropWhile_cons_of_neg (by simp [hblank])]
  simp only [List.isEmpty_eq_false_iff, ne_eq, List.reverse_eq_nil_iff, List.dropWhile_eq_nil_iff]
  intro hall
  exact absurd (hall 'm' (by simp)) (by simp [hblank])

/-- The hole's expression, read at its place. -/
theorem exists_hole (hh : h.Valid shape) (interpolate : Token → Interpolation) (place : Place) :
    ∃ e span, Grammar.hole (Grammar.standalone interpolate) place (h.code ['"']) =
      (.hole e none span, []) ∧ h.Spells e := by
  obtain ⟨e, he, hspells⟩ := exists_standalone hh interpolate (place.next '\x7b')
  refine ⟨e, place.span (Text.byteSize (h.code ['"']) + 2), ?_, hspells⟩
  simp [Grammar.hole, splitFormat_code hh, isEmpty_trimChars_code, he]

end TemplateHole

/-! ## Segments -/

/-- The segment is what the content comes to. -/
inductive TemplateContent.Spells : TemplateContent → Segment → Prop where
  | text (cs : List Char) : Spells (.text cs) (.text (String.ofList cs))
  | hole {h : TemplateHole} {e : Expr} (span : Span) : h.Spells e → Spells (.hole h) (.hole e none span)

namespace Grammar

/-- The segment that a piece is read as, with the errors in it. -/
def segmentOf (parse : Place → List Char → Standalone) : Piece → Segment × List ParseError
  | .text cs       => (.text (String.ofList cs), [])
  | .hole place cs => hole parse place cs

theorem foldl_segmentOf (parse : Place → List Char → Standalone)
    {step : List Segment × List ParseError → Piece → List Segment × List ParseError}
    (hstep : ∀ read p, step read p =
      ((segmentOf parse p).1 :: read.1, (segmentOf parse p).2.reverse ++ read.2))
    (ps : List Piece) (read : List Segment × List ParseError) :
    ps.foldl step read = ((ps.map fun p => (segmentOf parse p).1).reverse ++ read.1,
      (ps.flatMap fun p => (segmentOf parse p).2).reverse ++ read.2) := by
  induction ps generalizing read with
  | nil => rfl
  | cons p ps ih => simp [hstep, ih]

/-- Pieces are read one by one. -/
theorem segments_eq (parse : Place → List Char → Standalone) (ps : List Piece) :
    segments parse ps =
      ⟨ps.map fun p => (segmentOf parse p).1, ps.flatMap fun p => (segmentOf parse p).2⟩ := by
  unfold segments
  rw [foldl_segmentOf parse]
  · simp
  · intro read p
    cases p <;> rfl

/-- The pieces cut for contents are read as their segments. -/
theorem exists_segments {shape : Shape} {contents : List TemplateContent} {cut : List Piece}
    (interpolate : Token → Interpolation)
    (hcut : List.Forall₂ TemplateContent.Pieces contents cut)
    (hcontents : ∀ h, .hole h ∈ contents → h.Valid shape) :
    ∃ ss, segments (standalone interpolate) cut = ⟨ss, []⟩ ∧
      List.Forall₂ TemplateContent.Spells contents ss := by
  rw [segments_eq]
  induction hcut with
  | nil => exact ⟨[], rfl, .nil⟩
  | @cons content piece contents cut hpiece hcut ih =>
    obtain ⟨ss, hss, hspells⟩ := ih fun h hh => hcontents h (List.mem_cons_of_mem _ hh)
    obtain ⟨hsegments, herrors⟩ := Interpolation.mk.inj hss
    cases hpiece with
    | text cs =>
      refine ⟨.text (String.ofList cs) :: ss, ?_, .cons (.text cs) hspells⟩
      simp only [List.map_cons, List.flatMap_cons, hsegments, herrors]
      rfl
    | hole h place =>
      obtain ⟨e, span, hhole, he⟩ :=
        TemplateHole.exists_hole (hcontents h List.mem_cons_self) interpolate place
      have hread : segmentOf (standalone interpolate) (.hole place (h.code ['"'])) = _ := hhole
      refine ⟨.hole e none span :: ss, ?_, .cons (.hole span he) hspells⟩
      simp only [List.map_cons, List.flatMap_cons, hsegments, herrors, hread, List.append_nil]

open TemplatePart in
/-- The literal of a template is read as the segments of its contents. -/
theorem exists_interpolation {shape : Shape} {parts : List TemplatePart}
    (hparts : ∀ p ∈ parts, p.Valid shape) (depth : Nat) {token : Token}
    (hlexeme : token.lexeme = String.ofList ('$' :: '"' :: (parts.flatMap embedded ++ ['"']))) :
    ∃ ss, interpolation (depth + 1) token = ⟨ss, []⟩ ∧
      List.Forall₂ TemplateContent.Spells (contents [] parts) ss := by
  obtain ⟨cut, hpieces, hcut⟩ := exists_pieces hparts ⟨token.span.line, token.span.col + 2⟩
  have hbody : (interpolatedBody token).2 = parts.flatMap embedded := by
    simp [interpolatedBody, hlexeme]
  have hplace : (interpolatedBody token).1 = ⟨token.span.line, token.span.col + 2⟩ := rfl
  have hread : interpolation (depth + 1) token =
      segments (standalone (interpolation depth)) cut := by
    rw [← hpieces, ← hbody, ← hplace]
    rfl
  rw [hread]
  exact exists_segments _ hcut fun h hh => hparts _ (mem_contents hh)

end Grammar

end TypedTemplate
