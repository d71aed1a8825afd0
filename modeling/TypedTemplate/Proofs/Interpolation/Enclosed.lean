-- SUMMARY: The readers of a hole pass over the text of an expression and find no specifier in it.
import TypedTemplate.Proofs.Grammar.Expression
import TypedTemplate.Proofs.Template.Hole
import TypedTemplate.Proofs.Token.Stretch

/-!
# Expressions in holes

Three readers pass over the text of a hole before it is parsed, and all of them look at
characters: the scan of the literal, the cut of its body, and the search for the colon of
a specifier. None of them stops inside an expression. A closing brace stands in one only
between quotes, and its parentheses, question marks and colons come in pairs.
-/

namespace TypedTemplate

/-! ## Quotable texts -/

theorem isLineEnd_of_isEscape {c : Char} (h : isEscape c = true) : isLineEnd c = false := by
  unfold isEscape at h
  simp only [Bool.or_eq_true, beq_iff_eq] at h
  rcases h with ((((((rfl | rfl) | rfl) | rfl) | rfl) | rfl) | rfl) | rfl <;> decide

namespace Quotable

variable {s : List Char}

theorem scans (h : Quotable s) (opening : Place) : Scans (.nested opening) s (.nested opening) := by
  induction h with
  | nil => exact .nil _
  | char hline hescape hquote _ ih =>
    exact (Scans.nestedChar opening hline hescape hquote).append ih
  | @escape c cs hc _ ih =>
    have hmove : ∀ place, stringMove (.nested opening) place '\\' (some c) =
        .two (.nested opening) none := by
      intro place
      simp [stringMove, escapeMove, isLineEnd_of_isEscape hc, hc,
        (by decide : isLineEnd '\\' = false)]
    exact (Scans.two hmove).append ih

theorem cutsTo (h : Quotable s) (opening : Place) (taken : List Char) :
    CutsTo (.hole opening taken true) s (.hole opening (s.reverse ++ taken) true) := by
  induction h generalizing taken with
  | nil => exact .nil _
  | @char c cs hline hescape hquote _ ih =>
    have hchar : CutsTo (.hole opening taken true) [c] (.hole opening (c :: taken) true) :=
      CutsTo.holeChars opening true (by simp [hescape, hquote]) taken
    simpa using hchar.append (ih _)
  | @escape c cs hc _ ih =>
    have hpair : CutsTo (.hole opening taken true) ['\\', c]
        (.hole opening (c :: '\\' :: taken) true) := by
      intro out place rest
      rw [List.cons_append, List.singleton_append, cutPieces]
      rfl
    simpa using hpair.append (ih _)

theorem searches (h : Quotable s) {search : ColonSearch} (hquoted : search.quoted = true) :
    Searches search s search := by
  induction h with
  | nil => exact fun _ _ => rfl
  | @char c cs hline hescape hquote _ ih =>
    have hchar : Searches search [c] search := Searches.run (by simp [hquoted, hescape, hquote])
    exact hchar.append ih
  | @escape c cs hc _ ih =>
    have hpair : Searches search ['\\', c] search := by
      intro before rest
      rw [List.cons_append, List.singleton_append, splitFormatFrom_cons]
      simp [hquoted]
    exact hpair.append ih

end Quotable

/-! ## Hole texts -/

/-- The text can stand in a hole: quotes come in pairs around quotable texts, and no brace closes
outside of them. -/
inductive HoleText : List Char → Prop where
  | nil : HoleText []
  | char {c : Char} {cs : List Char} :
      isLineEnd c = false → c ≠ '"' → c ≠ '\x7d' → HoleText cs → HoleText (c :: cs)
  | string {s cs : List Char} : Quotable s → HoleText cs → HoleText ('"' :: (s ++ '"' :: cs))

namespace HoleText

variable {cs ds : List Char}

theorem append (h : HoleText cs) (h' : HoleText ds) : HoleText (cs ++ ds) := by
  induction h with
  | nil => exact h'
  | char hline hquote hclose _ ih => exact .char hline hquote hclose ih
  | string hs _ ih => simpa using HoleText.string hs ih

theorem of_forall (h : ∀ c ∈ cs, isLineEnd c = false ∧ c ≠ '"' ∧ c ≠ '\x7d') : HoleText cs := by
  induction cs with
  | nil => exact .nil
  | cons c cs ih =>
    obtain ⟨hline, hquote, hclose⟩ := h c List.mem_cons_self
    exact .char hline hquote hclose (ih fun c hc => h c (List.mem_cons_of_mem _ hc))

/-- The scan of the literal passes over the text. -/
theorem scans (h : HoleText cs) (opening : Place) : Scans (.hole opening) cs (.hole opening) := by
  induction h with
  | nil => exact .nil _
  | char hline hquote hclose _ ih => exact (Scans.holeChar opening hline hclose hquote).append ih
  | @string s cs hs _ ih =>
    have hopen : Scans (.hole opening) ['"'] (.nested opening) := .one fun _ _ => rfl
    have hclose : Scans (.nested opening) ['"'] (.hole opening) := .one fun _ _ => rfl
    simpa using hopen.append ((hs.scans opening).append (hclose.append ih))

/-- The cut of the body passes over the text. -/
theorem cutsTo (h : HoleText cs) (opening : Place) (taken : List Char) :
    CutsTo (.hole opening taken false) cs (.hole opening (cs.reverse ++ taken) false) := by
  induction h generalizing taken with
  | nil => exact .nil _
  | @char c cs hline hquote hclose _ ih =>
    have hchar : CutsTo (.hole opening taken false) [c] (.hole opening (c :: taken) false) :=
      CutsTo.holeChars opening false (by simp [hquote, hclose]) taken
    simpa using hchar.append (ih _)
  | @string s cs hs _ ih =>
    have hopen := CutsTo.quote opening taken false
    have hclose := CutsTo.quote opening (s.reverse ++ '"' :: taken) true
    simpa using hopen.append ((hs.cutsTo opening _).append (hclose.append (ih _)))

end HoleText

/-! ## Terminals -/

/-- The marks that the search for a colon heeds. -/
def searchMarks : List TokenKind := [.leftParen, .rightParen, .question, .colon]

namespace ColonSearch

/-- How a terminal leads the search on. A colon that belongs to no conditional ends it. -/
def step (s : ColonSearch) : Terminal → Option ColonSearch
  | .mark .leftParen  => some { s with depth := s.depth + 1 }
  | .mark .rightParen => some { s with depth := s.depth - 1 }
  | .mark .question   => some (if s.depth = 0 then { s with pending := s.pending + 1 } else s)
  | .mark .colon      =>
    if s.depth = 0 then
      if s.pending = 0 then none else some { s with pending := s.pending - 1 }
    else some s
  | _                 => some s

/-- How terminals lead the search on, one after the other. -/
def steps (s : ColonSearch) (ws : List Terminal) : Option ColonSearch := ws.foldlM step s

variable {s s' : ColonSearch} {us ws : List Terminal} {w : Terminal}

@[simp] theorem steps_nil : s.steps [] = some s := rfl

@[simp] theorem steps_cons : s.steps (w :: ws) = (s.step w).bind (steps · ws) := rfl

theorem steps_append : s.steps (us ++ ws) = (s.steps us).bind (steps · ws) :=
  List.foldlM_append

theorem quoted_step (h : s.step w = some s') : s'.quoted = s.quoted := by
  unfold step at h
  grind

theorem step_mark {kind : TokenKind} (h : kind ∉ searchMarks) : s.step (.mark kind) = some s := by
  cases kind <;> first | rfl | simp [searchMarks] at h

/-- The value of a literal and the name of an identifier do not count. -/
theorem step_terminal (token : Token) (s : ColonSearch) :
    s.step token.terminal = s.step (.mark token.kind) := by
  by_cases hkind : token.kind ∈ searchMarks
  · simp only [searchMarks, List.mem_cons, List.not_mem_nil, or_false] at hkind
    rcases hkind with h | h | h | h <;> simp [Token.terminal, h]
  · rw [step_mark hkind]
    unfold Token.terminal
    split <;> first | rfl | skip
    · split <;> rfl
    · exact step_mark hkind

theorem step_binary (op : BinaryOp) : s.step (.mark op.mark) = some s := by
  cases op <;> rfl

theorem step_unary (op : UnaryOp) : s.step (.mark op.mark) = some s := by
  cases op <;> rfl

/-- Between parentheses the search is one deeper. -/
theorem steps_parens (h : ∀ s : ColonSearch, s.steps ws = some s) :
    s.steps (.mark .leftParen :: ws ++ [.mark .rightParen]) = some s := by
  simp [steps_append, step, h]

/-- Between a question mark and its colon a conditional is pending. -/
theorem steps_ternary (hus : ∀ s : ColonSearch, s.steps us = some s)
    (hws : ∀ s : ColonSearch, s.steps ws = some s) :
    s.steps (.mark .question :: us ++ .mark .colon :: ws) = some s := by
  obtain ⟨depth, pending, quoted⟩ := s
  by_cases hdepth : depth = 0 <;> simp [steps_append, step, hus, hws, hdepth]

end ColonSearch

mutual

/-- An expression leaves the search where it was. -/
theorem Expr.steps_terminals (e : Expr) (s : ColonSearch) : s.steps e.terminals = some s := by
  cases e with
  | literal value span => rfl
  | name x => rfl
  | interpolated segments span => rfl
  | member object field span =>
    rw [Expr.terminals, ColonSearch.steps_append, Expr.steps_terminals object]
    rfl
  | call receiver method args span =>
    have hargs := ColonSearch.steps_parens (s := s) (Expr.steps_argTerminals args)
    rw [Expr.terminals, List.append_assoc, ColonSearch.steps_append, Expr.steps_terminals receiver]
    exact hargs
  | unary op e span =>
    rw [Expr.terminals, ColonSearch.steps_cons, ColonSearch.step_unary]
    exact Expr.steps_terminals e s
  | binary op left right span =>
    rw [Expr.terminals, ColonSearch.steps_append, Expr.steps_terminals left, Option.bind_some,
      ColonSearch.steps_cons, ColonSearch.step_binary]
    exact Expr.steps_terminals right s
  | ternary e t f span =>
    have hbranches := ColonSearch.steps_ternary (s := s) (Expr.steps_terminals t)
      (Expr.steps_terminals f)
    rw [Expr.terminals, List.append_assoc, ColonSearch.steps_append, Expr.steps_terminals e]
    exact hbranches
  | paren e span => exact ColonSearch.steps_parens (Expr.steps_terminals e)

theorem Expr.steps_argTerminals (args : List Expr) (s : ColonSearch) :
    s.steps (Expr.argTerminals args) = some s := by
  cases args with
  | nil => rfl
  | cons e es =>
    cases es with
    | nil => exact Expr.steps_terminals e s
    | cons e' es =>
      rw [Expr.argTerminals, ColonSearch.steps_append, Expr.steps_terminals e]
      exact Expr.steps_argTerminals (e' :: es) s

end

/-- The terminal is no mark of a conditional, behind which an expression goes on. -/
def Terminal.Final (w : Terminal) : Prop := w ≠ .mark .question ∧ w ≠ .mark .colon

/-- The last terminal of an expression is no mark of a conditional. -/
theorem Expr.final_terminals (e : Expr) : ∃ ws w, e.terminals = ws ++ [w] ∧ w.Final := by
  have hfinal : ∀ us : List Terminal, ∀ e : Expr, (∃ ws w, e.terminals = ws ++ [w] ∧ w.Final) →
      ∃ ws w, us ++ e.terminals = ws ++ [w] ∧ w.Final := by
    rintro us e ⟨ws, w, he, hw⟩
    exact ⟨us ++ ws, w, by rw [he, List.append_assoc], hw⟩
  cases e with
  | literal value span => exact ⟨[], _, rfl, by simp [Terminal.Final]⟩
  | name x => exact ⟨[], _, rfl, by simp [Terminal.Final]⟩
  | interpolated segments span => exact ⟨[], _, rfl, by simp [Terminal.Final]⟩
  | member object field span =>
    exact ⟨object.terminals ++ [.mark .dot], .name field.name, by simp [Expr.terminals],
      by simp [Terminal.Final]⟩
  | call receiver method args span => exact ⟨_, _, rfl, by simp [Terminal.Final]⟩
  | paren e span => exact ⟨_, _, rfl, by simp [Terminal.Final]⟩
  | unary op e span => exact hfinal [_] e (Expr.final_terminals e)
  | binary op left right span =>
    have hright := hfinal (left.terminals ++ [.mark op.mark]) right (Expr.final_terminals right)
    simpa [Expr.terminals] using hright
  | ternary e t f span =>
    have hfalse := hfinal (e.terminals ++ .mark .question :: t.terminals ++ [.mark .colon]) f
      (Expr.final_terminals f)
    simpa [Expr.terminals] using hfalse

/-! ## Tokens -/

theorem ne_of_isWordChar {c d : Char} (hc : isWordChar c = true) (hd : isWordChar d = false) :
    c ≠ d := by
  rintro rfl
  exact absurd hc (by simp [hd])

theorem Numeral.ne {cs : List Char} (h : Numeral cs) {d : Char} (hd : isWordChar d = false)
    (hmark : d ∉ ['.', '+', '-']) : ∀ c ∈ cs, c ≠ d := by
  intro c hc
  rcases h c hc with hword | hmem
  · exact ne_of_isWordChar hword hd
  · rintro rfl
    exact hmark hmem

/-- A question mark that is no half of an operator starts a conditional. -/
theorem splitFormatFrom_question {s : ColonSearch} {before rest : List Char}
    (hs : s.quoted = false) (h : rest.head? ≠ some '?') :
    splitFormatFrom s before ('?' :: rest) = splitFormatFrom
      (if s.depth = 0 then { s with pending := s.pending + 1 } else s) ('?' :: before) rest := by
  rw [splitFormatFrom_cons]
  by_cases hdepth : s.depth = 0 <;> simp [hs, h, hdepth]

theorem splitFormatFrom_colon {s s' : ColonSearch} {before rest : List Char}
    (hs : s.quoted = false) (h : rest.head? ≠ some ':') (hstep : s.step (.mark .colon) = some s') :
    splitFormatFrom s before (':' :: rest) = splitFormatFrom s' (':' :: before) rest := by
  rw [splitFormatFrom_cons]
  by_cases hdepth : s.depth = 0 <;> by_cases hpending : s.pending = 0 <;>
    simp_all [ColonSearch.step]

/-- The interpolated string would be a plain one without its dollar sign: between its quotes a quote
stands only as an escape. -/
def Token.Plain (token : Token) : Prop :=
  ∃ s, token.lexeme.toList = '$' :: '"' :: (s ++ ['"']) ∧ Quotable s

theorem searchMarks_pairMark {c d : Char} {kind : TokenKind} (h : pairMark c d = some kind) :
    kind ∉ searchMarks := by
  unfold pairMark at h
  split at h <;> cases h <;> decide

theorem searchMarks_ofWord (cs : List Char) : TokenKind.ofWord cs ∉ searchMarks := by
  intro h
  rcases TokenKind.ofWord_eq cs with hword | hword
  · rw [hword] at h
    exact absurd h (by decide)
  · have hkinds : ∀ w ∈ TokenKind.keywords, w.2 ∉ searchMarks := by decide
    exact hkinds _ hword h

theorem singleMark_cases {c : Char} {kind : TokenKind} (h : singleMark c = some kind) :
    (c, kind) ∈ [('(', .leftParen), (')', .rightParen), ('?', .question), (':', .colon)] ∨
      kind ∉ searchMarks ∧ c ∉ ['"', '?', ':', '(', ')'] := by
  unfold singleMark at h
  split at h <;> cases h <;> decide

/-- Doubled, the marks of a conditional are operators. -/
theorem pairMark_self {c : Char} {kind : TokenKind} (h : singleMark c = some kind)
    (hkind : kind = .question ∨ kind = .colon) : pairMark c c ≠ none := by
  rcases singleMark_cases h with hsearch | ⟨hquiet, -⟩
  · rcases hkind with rfl | rfl <;> simp_all [pairMark]
  · rcases hkind with rfl | rfl <;> exact absurd (by decide) hquiet

/-- Characters of words and numbers have no meaning for the search. -/
theorem Numeral.searches {cs : List Char} (h : Numeral cs) {s : ColonSearch}
    (hs : s.quoted = false) : Searches s cs s := by
  refine Searches.run fun c hc => ⟨h.ne (by decide) (by decide) c hc, ?_⟩
  rw [hs]
  exact ⟨h.ne (by decide) (by decide) c hc, h.ne (by decide) (by decide) c hc,
    h.ne (by decide) (by decide) c hc, h.ne (by decide) (by decide) c hc⟩

theorem Quotable.searches_string {s : List Char} (h : Quotable s) {search : ColonSearch}
    (hsearch : search.quoted = false) : Searches search ('"' :: (s ++ ['"'])) search := by
  obtain ⟨depth, pending, quoted⟩ := search
  obtain rfl : quoted = false := hsearch
  exact (Searches.quote ⟨depth, pending, false⟩).append
    ((h.searches rfl).append (Searches.quote ⟨depth, pending, true⟩))

theorem searches_pairMark {c d : Char} {kind : TokenKind} (h : pairMark c d = some kind)
    {s : ColonSearch} (hs : s.quoted = false) : Searches s [c, d] s := by
  have hrun : (∀ x ∈ [c, d], x ∉ ['"', '?', ':', '(', ')']) → Searches s [c, d] s := by
    intro hchars
    refine Searches.run fun x hx => ?_
    have hx' := hchars x hx
    simp_all
  unfold pairMark at h
  split at h
  case h_1 =>
    intro before rest
    rw [List.cons_append, List.singleton_append, splitFormatFrom_cons]
    simp [hs]
  case h_5 => exact Searches.marks hs
  case h_6 => cases h
  all_goals exact hrun (by decide)

theorem Searches.leftParen {s : ColonSearch} (hs : s.quoted = false) :
    Searches s ['('] { s with depth := s.depth + 1 } := by
  intro before rest
  rw [List.singleton_append, splitFormatFrom_cons]
  simp [hs]

theorem Searches.rightParen {s : ColonSearch} (hs : s.quoted = false) :
    Searches s [')'] { s with depth := s.depth - 1 } := by
  intro before rest
  rw [List.singleton_append, splitFormatFrom_cons]
  simp [hs]

/-- A mark leads the search on, if what follows does not make it half of an operator. -/
theorem splitFormatFrom_singleMark {c : Char} {kind : TokenKind} (h : singleMark c = some kind)
    {s s' : ColonSearch} (hs : s.quoted = false) (hstep : s.step (.mark kind) = some s')
    {rest : List Char} (hrest : kind = .question ∨ kind = .colon → rest.head? ≠ some c)
    (before : List Char) :
    splitFormatFrom s before (c :: rest) = splitFormatFrom s' (c :: before) rest := by
  rcases singleMark_cases h with hsearch | ⟨hkind, hc⟩
  · simp only [List.mem_cons, Prod.mk.injEq, List.not_mem_nil, or_false] at hsearch
    rcases hsearch with ⟨rfl, rfl⟩ | ⟨rfl, rfl⟩ | ⟨rfl, rfl⟩ | ⟨rfl, rfl⟩
    · obtain rfl := Option.some.inj hstep
      exact Searches.leftParen hs before rest
    · obtain rfl := Option.some.inj hstep
      exact Searches.rightParen hs before rest
    · obtain rfl := Option.some.inj hstep
      exact splitFormatFrom_question hs (hrest (.inl rfl))
    · exact splitFormatFrom_colon hs (hrest (.inr rfl)) hstep
  · obtain rfl := Option.some.inj ((ColonSearch.step_mark hkind).symm.trans hstep)
    have hrun : Searches s [c] s := Searches.run (by simp_all)
    exact hrun before rest

/-- A token leads the search on as its terminal does. A mark of a conditional does so only with text
behind it: at the end of a stretch it could still be half of an operator. -/
theorem Spelled.searches {stretch rest : List Char} {token : Token} {s s' : ColonSearch}
    (h : Spelled token.kind stretch rest) (hverbatim : token.lexeme = String.ofList stretch)
    (hplain : token.kind = .interpolatedString → token.Plain) (hs : s.quoted = false)
    (hstep : s.step token.terminal = some s')
    (hrest : token.kind = .question ∨ token.kind = .colon → rest ≠ [])
    (before tail : List Char) :
    splitFormatFrom s before (stretch ++ (rest ++ tail)) =
      splitFormatFrom s' (stretch.reverse ++ before) (rest ++ tail) := by
  rw [ColonSearch.step_terminal] at hstep
  generalize hk : token.kind = kind at *
  have hquiet : kind ∉ searchMarks → Searches s stretch s →
      splitFormatFrom s before (stretch ++ (rest ++ tail)) =
        splitFormatFrom s' (stretch.reverse ++ before) (rest ++ tail) := by
    intro hkind hsearches
    obtain rfl := Option.some.inj ((ColonSearch.step_mark hkind).symm.trans hstep)
    exact hsearches before (rest ++ tail)
  cases h with
  | string hquotable => exact hquiet (by decide) (hquotable.searches_string hs)
  | @interpolated s₀ rest =>
    obtain ⟨s₁, hs₁, hquotable⟩ := hplain rfl
    obtain rfl : s₁ = s₀ := by simpa [hverbatim] using hs₁.symm
    have hdollar : Searches s ['$'] s := Searches.run (by simp [hs])
    exact hquiet (by decide) (hdollar.append (hquotable.searches_string hs))
  | number hnumber hnumeral =>
    exact hquiet (by rcases hnumber with rfl | rfl <;> decide) (hnumeral.searches hs)
  | word hword => exact hquiet (searchMarks_ofWord _) ((Numeral.of_word hword).searches hs)
  | pair hpair => exact hquiet (searchMarks_pairMark hpair) (searches_pairMark hpair hs)
  | @mark c kind rest hsingle hpair =>
    have hnext : kind = .question ∨ kind = .colon → (rest ++ tail).head? ≠ some c := by
      intro hkind hhead
      cases rest with
      | nil => exact hrest hkind rfl
      | cons d rest =>
        obtain rfl : d = c := by simpa using hhead
        exact pairMark_self hsingle hkind (hpair d rfl)
    exact splitFormatFrom_singleMark hsingle hs hstep hnext before

theorem Numeral.holeText {cs : List Char} (h : Numeral cs) : HoleText cs := by
  refine .of_forall fun c hc => ⟨?_, h.ne (by decide) (by decide) c hc,
    h.ne (by decide) (by decide) c hc⟩
  have hnewline := h.ne (d := '\n') (by decide) (by decide) c hc
  have hreturn := h.ne (d := '\r') (by decide) (by decide) c hc
  simp [isLineEnd, hnewline, hreturn]

/-- Every token but a closing brace can stand in a hole. -/
theorem Spelled.holeText {stretch rest : List Char} {token : Token}
    (h : Spelled token.kind stretch rest) (hverbatim : token.lexeme = String.ofList stretch)
    (hplain : token.kind = .interpolatedString → token.Plain)
    (hbrace : token.kind ≠ .rightBrace) : HoleText stretch := by
  generalize hk : token.kind = kind at *
  cases h with
  | string hquotable => exact .string hquotable .nil
  | @interpolated s₀ rest =>
    obtain ⟨s₁, hs₁, hquotable⟩ := hplain rfl
    obtain rfl : s₁ = s₀ := by simpa [hverbatim] using hs₁.symm
    exact .char (by decide) (by decide) (by decide) (.string hquotable .nil)
  | number hnumber hnumeral => exact hnumeral.holeText
  | word hword => exact (Numeral.of_word hword).holeText
  | pair hpair =>
    refine .of_forall ?_
    unfold pairMark at hpair
    split at hpair <;> cases hpair <;> decide
  | mark hsingle _ =>
    refine .of_forall ?_
    unfold singleMark at hsingle
    split at hsingle <;> cases hsingle <;> first | decide | exact absurd rfl hbrace

/-! ## Texts -/

/-- The lexeme is a token that can stand in a hole, with blanks before it. -/
structure Lexeme.Enclosable (lexeme : Lexeme) : Prop where
  faultless : lexeme.errors = []
  plain : lexeme.token.kind = .interpolatedString → lexeme.token.Plain
  braceless : lexeme.token.kind ≠ .rightBrace
  spaced : ∀ c ∈ lexeme.skipped, isSpace c = true

/-- The text is cut into tokens that can stand in a hole, with blanks around them. -/
structure Lexemes.Enclosable (cut : Lexemes) : Prop where
  lexemes : ∀ lexeme ∈ cut.lexemes, lexeme.Enclosable
  trailing : ∀ c ∈ cut.trailing, isSpace c = true

theorem ne_of_isSpace {c d : Char} (hc : isSpace c = true) (hd : isSpace d = false) : c ≠ d := by
  rintro rfl
  exact absurd hc (by simp [hd])

theorem holeText_of_isSpace {cs : List Char} (hline : ∀ c ∈ cs, isLineEnd c = false)
    (h : ∀ c ∈ cs, isSpace c = true) : HoleText cs :=
  .of_forall fun c hc => ⟨hline c hc, ne_of_isSpace (h c hc) (by decide),
    ne_of_isSpace (h c hc) (by decide)⟩

theorem searches_of_isSpace {cs : List Char} (h : ∀ c ∈ cs, isSpace c = true) {s : ColonSearch}
    (hs : s.quoted = false) : Searches s cs s := by
  refine Searches.run fun c hc => ⟨ne_of_isSpace (h c hc) (by decide), ?_⟩
  rw [hs]
  exact ⟨ne_of_isSpace (h c hc) (by decide), ne_of_isSpace (h c hc) (by decide),
    ne_of_isSpace (h c hc) (by decide), ne_of_isSpace (h c hc) (by decide)⟩

namespace Lexemes.Enclosable

variable {place : Place} {text skipped rest : List Char} {c : Char}

theorem of_cons (h : (ofChars place text).Enclosable)
    (htrivia : skipTrivia false [] text = (skipped, c :: rest)) :
    Lexeme.Enclosable { (scanToken (place.after skipped) c rest).lexeme with skipped } ∧
      (ofChars ((place.after skipped).after (scanToken (place.after skipped) c rest).lexeme.stretch)
        (scanToken (place.after skipped) c rest).rest).Enclosable := by
  obtain ⟨hlexemes, htrailing⟩ := h
  rw [lexemes_of_cons htrivia] at hlexemes
  rw [trailing_of_cons htrivia] at htrailing
  obtain ⟨hhead, htail⟩ := List.forall_mem_cons.1 hlexemes
  exact ⟨hhead, htail, htrailing⟩

theorem spaced_of_nil (h : (ofChars place text).Enclosable)
    (htrivia : skipTrivia false [] text = (skipped, [])) : ∀ x ∈ skipped, isSpace x = true := by
  rw [← trailing_of_nil htrivia]
  exact h.trailing

/-- The text can stand in a hole. -/
theorem holeText {place : Place} {text : List Char} (h : (ofChars place text).Enclosable)
    (hline : ∀ c ∈ text, isLineEnd c = false) : HoleText text := by
  induction place, text using cut_induction with
  | blank place skipped htrivia => exact holeText_of_isSpace hline (h.spaced_of_nil htrivia)
  | token place skipped c rest htrivia ih =>
    obtain ⟨hskipped, hrest⟩ := List.forall_mem_append.1 hline
    obtain ⟨hhead, htail⟩ := h.of_cons htrivia
    have hscan := append_scanToken (place.after skipped) c rest
    have hleft := (List.forall_mem_append.1 (hscan ▸ hrest)).2
    have hvalid := fun hkind =>
      (sound_scanToken (place.after skipped) c rest).1 hkind hhead.faultless
    have hstretch := (spelled_scanToken hhead.faultless).holeText
      (verbatim_scanToken _ _ _ hvalid) hhead.plain hhead.braceless
    rw [← hscan]
    exact (holeText_of_isSpace hskipped hhead.spaced).append (hstretch.append (ih htail hleft))

/-- The search for a colon goes through the text as through its terminals. -/
theorem searches {place : Place} {text : List Char} (h : (ofChars place text).Enclosable)
    {s s' : ColonSearch} (hs : s.quoted = false)
    (hsteps : s.steps ((ofChars place text).lexemes.map (·.token.terminal)) = some s')
    (hfinal : ∀ ws w, (ofChars place text).lexemes.map (·.token.terminal) = ws ++ [w] → w.Final) :
    Searches s text s' := by
  induction place, text using cut_induction generalizing s with
  | blank place skipped htrivia =>
    rw [lexemes_of_nil htrivia] at hsteps
    obtain rfl := Option.some.inj hsteps
    exact searches_of_isSpace (h.spaced_of_nil htrivia) hs
  | token place skipped c rest htrivia ih =>
    obtain ⟨hhead, htail⟩ := h.of_cons htrivia
    have hscan := append_scanToken (place.after skipped) c rest
    have hvalid := fun hkind =>
      (sound_scanToken (place.after skipped) c rest).1 hkind hhead.faultless
    rw [lexemes_of_cons htrivia] at hsteps hfinal
    obtain ⟨s₁, hstep, hsteps⟩ := Option.bind_eq_some_iff.1 hsteps
    have htailFinal := fun ws w heq => hfinal (_ :: ws) w (congrArg (_ :: ·) heq)
    -- A mark of a conditional is not the last token, so there is text behind it to look at.
    have hgoesOn : (scanToken (place.after skipped) c rest).lexeme.token.kind = .question ∨
        (scanToken (place.after skipped) c rest).lexeme.token.kind = .colon →
          (scanToken (place.after skipped) c rest).rest ≠ [] := by
      intro hkind hnil
      have hlast := hfinal [] (scanToken (place.after skipped) c rest).lexeme.token.terminal (by
        dsimp only
        rw [hnil, lexemes_of_nil rfl]
        rfl)
      rcases hkind with hkind | hkind
      · exact hlast.1 (by simp [Token.terminal, hkind])
      · exact hlast.2 (by simp [Token.terminal, hkind])
    intro before tail
    have hskipped := searches_of_isSpace hhead.spaced hs
    have hstretch := (spelled_scanToken hhead.faultless).searches
      (verbatim_scanToken _ _ _ hvalid) hhead.plain hs hstep hgoesOn
    have hrest := ih htail ((ColonSearch.quoted_step hstep).trans hs) hsteps htailFinal
    rw [← hscan, List.append_assoc, hskipped, List.append_assoc, hstretch, hrest]
    simp

end Lexemes.Enclosable

/-! ## Expressions -/

namespace Expr

variable {text : String} {e : Expr}

/-- The text has no comments: there are only blanks between its tokens. -/
def CommentFree (text : String) : Prop :=
  (∀ lexeme ∈ lexemesOf text, ∀ c ∈ lexeme.skipped, isSpace c = true) ∧
    ∀ c ∈ (Lexemes.ofChars .first text.toList).trailing, isSpace c = true

/-- No interpolated string in the text has strings in its holes. -/
def Shallow (text : String) : Prop :=
  ∀ lexeme ∈ lexemesOf text, lexeme.token.kind = .interpolatedString → lexeme.token.Plain

theorem PlainText.shallow (h : PlainText text) : Shallow text :=
  fun lexeme hlexeme hkind => absurd hkind (h lexeme hlexeme)

theorem mark_mem_terminalsOf {lexeme : Lexeme} {kind : TokenKind} (h : lexeme ∈ lexemesOf text)
    (hmark : lexeme.token.terminal = .mark kind) : .mark kind ∈ terminalsOf text :=
  hmark ▸ List.mem_map_of_mem h

/-- No expression starts with a brace. -/
theorem head?_ne_of_parse (h : parse text = .ok e) : text.toList.head? ≠ some '\x7b' := by
  intro hhead
  obtain ⟨-, -, hterminals⟩ := parse_eq_ok h
  cases htext : text.toList with
  | nil => simp [htext] at hhead
  | cons c rest =>
    obtain rfl : c = '\x7b' := by simpa [htext] using hhead
    have hscan : (scanToken .first '\x7b' rest).lexeme.token.kind = .leftBrace := by
      rw [Cuts.scanToken_mark (by decide)]
      cases rest <;> rfl
    have hlexeme : { (scanToken .first '\x7b' rest).lexeme with skipped := [] } ∈
        lexemesOf text := by
      rw [lexemesOf, htext, Lexemes.lexemes_of_cons (skipTrivia_token rest (by decide))]
      exact List.mem_cons_self
    have hmem : .mark .leftBrace ∈ terminalsOf text :=
      mark_mem_terminalsOf hlexeme (by simp [Token.terminal, hscan])
    exact absurd (mem_exprMarks (hterminals ▸ hmem)) (by decide)

theorem enclosable_of_parse (h : parse text = .ok e) (hcomments : CommentFree text)
    (hshallow : Shallow text) : (Lexemes.ofChars .first text.toList).Enclosable := by
  obtain ⟨hlexes, -, hterminals⟩ := parse_eq_ok h
  refine ⟨fun lexeme hlexeme => ⟨hlexes lexeme hlexeme, hshallow lexeme hlexeme, fun hkind => ?_,
    hcomments.1 lexeme hlexeme⟩, hcomments.2⟩
  have hmem : .mark .rightBrace ∈ terminalsOf text :=
    mark_mem_terminalsOf hlexeme (by simp [Token.terminal, hkind])
  exact absurd (mem_exprMarks (hterminals ▸ hmem)) (by decide)

/-- The search for a colon goes through an expression and comes out as it went in. -/
theorem searches_of_parse (h : parse text = .ok e) (hcomments : CommentFree text)
    (hshallow : Shallow text) : Searches ⟨0, 0, false⟩ text.toList ⟨0, 0, false⟩ := by
  have hterminals := (parse_eq_ok h).2.2
  refine (enclosable_of_parse h hcomments hshallow).searches rfl ?_ fun ws w heq => ?_
  · exact (congrArg _ hterminals).trans (e.steps_terminals _)
  · obtain ⟨ws', w', he, hfinal⟩ := e.final_terminals
    have hlast := (heq.symm.trans hterminals).trans he
    obtain ⟨-, hw⟩ := List.append_inj' hlast rfl
    rwa [List.singleton_inj.1 hw]

end Expr

end TypedTemplate
