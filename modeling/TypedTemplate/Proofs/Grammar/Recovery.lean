-- SUMMARY: What a unit is parsed into lies in the unit, also behind faults that are recovered from.
import TypedTemplate.Proofs.Interpolation.Region

/-!
# Units in a region

A faulty declaration or statement is skipped, and parsing goes on with the lexemes that are
left. Those lie in the unit like all others, so recovery does not lead out of it: every span
of the tree and every error that is reported starts in the unit, also one at its end.
-/

namespace TypedTemplate

variable {R : Region}

/-! ## Recovery -/

namespace Parse

variable {α : Type} [Spanned α]

theorem lieIn_skipTo (stop : List TokenKind) (depth : Nat) {lexemes : List Lexeme}
    (h : LieIn lexemes R) : LieIn (skipTo stop depth lexemes) R := by
  fun_induction skipTo stop depth lexemes with
  | case1 => exact h
  | case2 => exact h
  | case3 depth lexeme rest kind hstop hopen ih => exact ih h.tail
  | case4 depth lexeme rest kind hstop hopen hclose ih => exact ih h.tail
  | case5 depth lexeme rest kind hstop hopen hclose ih => exact ih h.tail

theorem liesIn_synchronize (stop : List TokenKind) : (synchronize stop).LiesIn R :=
  fun _ _ _ h => ⟨by simp [synchronize], by simp [synchronize], lieIn_skipTo stop 0 h⟩

/-- The error that stopped a parser is recorded where it was. -/
theorem LiesIn.orRecover {p : Parse α} {recover : Parse PUnit} (h : p.LiesIn R)
    (hrecover : recover.LiesIn R) : (p.orRecover recover).LiesIn R := by
  intro finish given hfinish hgiven
  have hreply := h finish given hfinish hgiven
  unfold Parse.orRecover
  split
  · rename_i a rest recorded hle heq
    rw [heq] at hreply
    exact ⟨by simpa using hreply.result, hreply.recorded, hreply.rest⟩
  · rename_i e rest recorded hle heq
    rw [heq] at hreply
    -- what is skipped comes behind the error, among the lexemes that were left
    have hskipped := hrecover finish rest hfinish hreply.rest
    exact ⟨by simp, hreply.recorded.append (.cons hreply.result hskipped.recorded), hskipped.rest⟩

theorem liesIn_manyOnto {more : TokenKind → Bool} {item : Token → Parse α} {recover : Parse PUnit}
    (hitem : ∀ token, R token.span.place → (item token).LiesIn R) (hrecover : recover.LiesIn R)
    {finish : Place} (hfinish : R finish) {out : List α} (hout : R.Holds out)
    {recorded : List ParseError} (hrecorded : R.Holds recorded) {outer given : List Lexeme}
    (h : given.length ≤ outer.length) (hgiven : LieIn given R) :
    (manyOnto more item recover finish out recorded given h).LiesIn R := by
  cases given with
  | nil =>
    rw [manyOnto]
    exact ⟨hout.reverse, hrecorded.reverse, hgiven⟩
  | cons lexeme rest =>
    rw [manyOnto]
    split
    · have hreply := (hitem lexeme.token hgiven.head.place).orRecover hrecover finish rest hfinish
        hgiven.tail
      split
      · rename_i a rest' found hle heq
        rw [heq] at hreply
        exact liesIn_manyOnto hitem hrecover hfinish (.cons (by simpa using hreply.result) hout)
          (hreply.recorded.reverse.append hrecorded) _ hreply.rest
      · rename_i rest' found hle _ heq
        rw [heq] at hreply
        exact liesIn_manyOnto hitem hrecover hfinish hout
          (hreply.recorded.reverse.append hrecorded) _ hreply.rest
    · exact ⟨hout.reverse, hrecorded.reverse, hgiven⟩
termination_by given.length
decreasing_by all_goals subst_vars; simp only [List.length_cons]; omega

/-- Each item gets its first token, which lies in the region. -/
theorem liesIn_many {more : TokenKind → Bool} {item : Token → Parse α} {recover : Parse PUnit}
    (hitem : ∀ token, R token.span.place → (item token).LiesIn R) (hrecover : recover.LiesIn R) :
    (many more item recover).LiesIn R :=
  fun _ _ hfinish hgiven =>
    liesIn_manyOnto hitem hrecover hfinish (by simp) (by simp) _ hgiven

theorem liesIn_declaration (kind : TokenKind) {body : Token → Parse α} {token : Token}
    (htoken : R token.span.place) (hbody : (body token).LiesIn R) :
    (declaration kind body token).LiesIn R := by
  unfold declaration
  split
  · exact hbody
  · exact liesIn_fail htoken

end Parse

/-! ## Names and types -/

namespace Grammar

open Parse

theorem liesIn_segmentsOnto {finish : Place} (hfinish : R finish) {out : List Ident}
    (hout : R.Holds out) {given : List Lexeme} (h : LieIn given R) :
    (segmentsOnto finish out given).LiesIn R := by
  cases given with
  | nil =>
    rw [segmentsOnto]
    exact Reply.liesIn_ok hout.reverse h
  | cons lexeme rest =>
    rw [segmentsOnto]
    split
    · exact ((liesIn_ident finish rest hfinish h.tail).andThen
        fun segment rest' hle hsegment hrest =>
          liesIn_segmentsOnto hfinish (.cons hsegment hout) hrest).taking
    · exact Reply.liesIn_ok hout.reverse h
termination_by given.length
decreasing_by all_goals subst_vars; simp only [List.length_cons]; omega

/-- The span of the last of some names or, if there are none, one that stands in for it. -/
theorem place_lastName {span : Span} (hspan : R span.place) {names : List Ident}
    (hnames : R.Holds names) : R ((names.getLast?.map (·.span)).getD span).place := by
  cases hlast : names.getLast? with
  | none => exact hspan
  | some last => exact (Region.holds_ident last).1 (hnames.mem (List.mem_of_getLast? hlast))

theorem liesIn_path : path.LiesIn R := by
  refine liesIn_ident.bind fun first hfirst => ?_
  have hmore : Parse.LiesIn (fun finish given => segmentsOnto finish [first] given) R :=
    fun _ _ hfinish h => liesIn_segmentsOnto hfinish (.cons hfirst (by simp)) h
  refine hmore.bind fun segments hsegments => liesIn_pure ((Region.holds_path _).2 ⟨?_, hsegments⟩)
  have hspan := (Region.holds_ident first).1 hfirst
  have hlast := place_lastName hspan hsegments
  rw [Option.getD_map] at hlast
  exact Region.merge hspan hlast

theorem place_lastSpan {p : Path} (h : R.Holds p) : R (lastSpan p).place := by
  obtain ⟨hspan, hsegments⟩ := (Region.holds_path p).1 h
  exact place_lastName hspan hsegments

mutual

theorem liesIn_typeRef {finish : Place} (hfinish : R finish) {given : List Lexeme}
    (h : LieIn given R) : (typeRef finish given).LiesIn R := by
  rw [typeRef]
  split
  · refine Reply.liesIn_fail ?_ h
    cases given with
    | nil => exact hfinish
    | cons lexeme given => exact h.head.place
  · refine (liesIn_path finish given hfinish h).andThen fun p rest hle hp hrest => ?_
    have hplace := ((Region.holds_path p).1 hp).1
    have hplain : R.Holds (TypeRef.mk p [] (p.span.merge (lastSpan p))) := by
      simp [-Region.holds_path, hp, Region.merge hplace (place_lastSpan hp)]
    cases rest with
    | nil => exact Reply.liesIn_ok hplain hrest
    | cons opening rest =>
      dsimp only
      split
      · refine ((liesIn_typeArgsOnto hfinish (by simp) hrest.tail).andThen
          fun args rest' hle' hargs hrest' => ?_).taking
        refine (liesIn_expect .greater finish rest' hfinish hrest').andThen
          fun close _ _ hclose hrest'' => ?_
        have hmerge := Region.merge hplace ((Region.holds_token close).1 hclose)
        exact Reply.liesIn_ok ((Region.holds_typeRef _ _ _).2 ⟨hmerge, hp, hargs⟩) hrest''
      · exact Reply.liesIn_ok hplain hrest
termination_by 2 * given.length
decreasing_by all_goals subst_vars; simp only [List.length_cons] at *; omega

theorem liesIn_typeArgsOnto {finish : Place} (hfinish : R finish) {out : List TypeRef}
    (hout : R.Holds out) {given : List Lexeme} (h : LieIn given R) :
    (typeArgsOnto finish out given).LiesIn R := by
  rw [typeArgsOnto]
  refine (liesIn_typeRef hfinish h).andThen fun arg rest hle harg hrest => ?_
  have hmore := harg.cons hout
  cases rest with
  | nil => exact Reply.liesIn_ok hmore.reverse hrest
  | cons lexeme rest =>
    dsimp only
    split
    · exact (liesIn_typeArgsOnto hfinish hmore hrest.tail).taking
    · exact Reply.liesIn_ok hmore.reverse hrest
termination_by 2 * given.length + 1
decreasing_by all_goals subst_vars; simp only [List.length_cons] at *; omega

end

theorem liesIn_typeRefParser :
    Parse.LiesIn (fun finish given => typeRef finish given) R :=
  fun _ _ hfinish h => liesIn_typeRef hfinish h

/-! ## Statements -/

variable {g : Grammar}

theorem liesIn_value (hg : g.LiesIn R) : g.value.LiesIn R :=
  fun _ _ _ h => liesIn_expr hg h 0

theorem merge_token {start close : Token} (hstart : R start.span.place) (hclose : R.Holds close) :
    R (start.span.merge close.span).place :=
  Region.merge hstart ((Region.holds_token close).1 hclose)

theorem liesIn_statement (hg : g.LiesIn R) (token : Token) (htoken : R token.span.place) :
    (g.statement token).LiesIn R := by
  unfold statement
  split
  · refine liesIn_ident.bind fun name hname => ?_
    refine (liesIn_expect _).bind fun _ _ => (liesIn_value hg).bind fun e he => ?_
    refine (liesIn_expect _).bind fun close hclose => liesIn_pure ?_
    exact (Region.holds_letBinding _ _ _).2
      ⟨merge_token htoken hclose, (Region.holds_ident name).1 hname, he⟩
  · refine (liesIn_value hg).bind fun e he => (liesIn_expect _).bind fun close hclose => ?_
    exact liesIn_pure ((Region.holds_ret _ _).2 ⟨merge_token htoken hclose, he⟩)
  · exact liesIn_fail htoken

/-- Recovery that takes one more token, if it is of the given kind. -/
theorem liesIn_synchronize_eat (stop : List TokenKind) (kind : TokenKind) :
    Parse.LiesIn (do synchronize stop; let _ ← eat kind) R :=
  (liesIn_synchronize stop).bind fun _ _ => (liesIn_eat kind).bind fun _ _ => liesIn_pure (by simp)

theorem liesIn_block (hg : g.LiesIn R) : g.block.LiesIn R := by
  refine (liesIn_expect _).bind fun opening hopening => ?_
  refine (liesIn_many (liesIn_statement hg) (liesIn_synchronize_eat _ _)).bind
    fun stmts hstmts => (liesIn_expect _).bind fun close hclose => liesIn_pure ?_
  have hspan := merge_token ((Region.holds_token opening).1 hopening) hclose
  exact (Region.holds_block _).2 ⟨hspan, hstmts⟩

/-! ## Declarations -/

theorem liesIn_param : param.LiesIn R := by
  refine liesIn_ident.bind fun name hname => (liesIn_expect _).bind fun _ _ => ?_
  refine liesIn_typeRefParser.bind fun type htype => liesIn_pure ?_
  have hplace := (Region.holds_ident name).1 hname
  exact (Region.holds_param _).2 ⟨Region.merge hplace htype.span_typeRef, hplace, htype⟩

theorem liesIn_paramsOnto {finish : Place} (hfinish : R finish) {out : List Param}
    (hout : R.Holds out) {given : List Lexeme} (h : LieIn given R) :
    (paramsOnto finish out given).LiesIn R := by
  rw [paramsOnto]
  refine (liesIn_param finish given hfinish h).andThen fun p rest hle hp hrest => ?_
  have hmore := hp.cons hout
  cases rest with
  | nil => exact Reply.liesIn_ok hmore.reverse hrest
  | cons lexeme rest =>
    dsimp only
    split
    · exact (liesIn_paramsOnto hfinish hmore hrest.tail).taking
    · exact Reply.liesIn_ok hmore.reverse hrest
termination_by given.length
decreasing_by all_goals subst_vars; simp only [List.length_cons] at *; omega

theorem liesIn_params : params.LiesIn R := by
  intro finish given hfinish h
  unfold params
  split
  · exact Reply.liesIn_ok (by simp) h
  · exact liesIn_paramsOnto hfinish (by simp) h

theorem liesIn_functionDecl (hg : g.LiesIn R) (start : Token) (hstart : R start.span.place) :
    (g.functionDecl start).LiesIn R := by
  refine liesIn_ident.bind fun name hname => (liesIn_expect _).bind fun _ _ => ?_
  refine liesIn_params.bind fun params hparams => (liesIn_expect _).bind fun _ _ => ?_
  refine (liesIn_expect _).bind fun _ _ => liesIn_typeRefParser.bind fun result hresult => ?_
  refine (liesIn_block hg).bind fun body hbody => liesIn_pure ?_
  have hspan := Region.merge hstart ((Region.holds_block body).1 hbody).1
  exact (Region.holds_functionDecl _).2
    ⟨hspan, (Region.holds_ident name).1 hname, hparams, hresult, hbody⟩

/-- A name with declarations between braces. -/
theorem liesIn_braced {α β : Type} [Spanned α] [Spanned β] {kind : TokenKind}
    {body : Token → Parse α} {stop : List TokenKind} {build : Ident → List α → Span → β}
    {start : Token} (hstart : R start.span.place)
    (hbody : ∀ token : Token, R token.span.place → (body token).LiesIn R)
    (hbuild : ∀ name items s, R.Holds name → R.Holds items → R s.place →
      R.Holds (build name items s)) :
    Parse.LiesIn (do
      let name ← ident
      let _ ← expect .leftBrace
      let items ← many (· != .rightBrace) (declaration kind body) (synchronize stop)
      let close ← expect .rightBrace
      return build name items (start.span.merge close.span)) R := by
  refine liesIn_ident.bind fun name hname => (liesIn_expect _).bind fun _ _ => ?_
  have hitem : ∀ token : Token, R token.span.place → (declaration kind body token).LiesIn R :=
    fun token htoken => liesIn_declaration _ htoken (hbody token htoken)
  refine (liesIn_many hitem (liesIn_synchronize _)).bind fun items hitems => ?_
  refine (liesIn_expect _).bind fun close hclose => liesIn_pure ?_
  exact hbuild name items _ hname hitems (merge_token hstart hclose)

theorem liesIn_typeDecl (hg : g.LiesIn R) (start : Token) (hstart : R start.span.place) :
    (g.typeDecl start).LiesIn R :=
  liesIn_braced hstart (liesIn_functionDecl hg) fun name _ _ hname hitems hspan =>
    (Region.holds_typeDecl _).2 ⟨hspan, (Region.holds_ident name).1 hname, hitems⟩

theorem liesIn_moduleDecl (hg : g.LiesIn R) (start : Token) (hstart : R start.span.place) :
    (g.moduleDecl start).LiesIn R :=
  liesIn_braced hstart (liesIn_typeDecl hg) fun name _ _ hname hitems hspan =>
    (Region.holds_moduleDecl _).2 ⟨hspan, (Region.holds_ident name).1 hname, hitems⟩

/-! ## The unit -/

theorem liesIn_headerToken (kind : TokenKind) : (headerToken kind).LiesIn R := by
  refine liesIn_peek.bind fun token htoken => ?_
  split
  · exact liesIn_advance
  · exact liesIn_fail ((Region.holds_token token).1 htoken)

theorem liesIn_headerWord : headerWord.LiesIn R := by
  refine liesIn_peek.bind fun token htoken => ?_
  split
  · exact liesIn_headerToken _
  · exact liesIn_fail ((Region.holds_token token).1 htoken)

theorem liesIn_edition {start : Token} (hstart : R start.span.place) :
    (edition start).LiesIn R := by
  refine (liesIn_headerToken _).bind fun _ _ => (liesIn_headerToken _).bind fun _ _ => ?_
  refine liesIn_headerWord.bind fun _ _ => (liesIn_headerToken _).bind fun _ _ => ?_
  refine (liesIn_headerToken _).bind fun number hnumber => ?_
  dsimp only
  split
  · exact liesIn_fail ((Region.holds_token number).1 hnumber)
  · refine (liesIn_expect _).bind fun close hclose => liesIn_pure ?_
    exact (Region.holds_edition _).2 (merge_token hstart hclose)

theorem liesIn_useDecl (start : Token) (hstart : R start.span.place) :
    (useDecl start).LiesIn R := by
  refine liesIn_path.bind fun p hp => (liesIn_expect _).bind fun close hclose => liesIn_pure ?_
  exact (Region.holds_useDecl _).2 ⟨merge_token hstart hclose, hp⟩

theorem liesIn_header : header.LiesIn R := by
  refine liesIn_peek.bind fun token _ => ?_
  split
  · refine liesIn_advance.bind fun start hstart => ?_
    exact (liesIn_edition ((Region.holds_token start).1 hstart)).orRecover (liesIn_synchronize _)
  · exact liesIn_pure (by simp)

theorem liesIn_declarations (hg : g.LiesIn R) : g.declarations.LiesIn R := by
  refine liesIn_header.bind fun edition hedition => ?_
  refine (liesIn_many liesIn_useDecl (liesIn_synchronize_eat _ _)).bind fun uses huses => ?_
  have hitem : ∀ token : Token, R token.span.place →
      (declaration .moduleWord g.moduleDecl token).LiesIn R :=
    fun token htoken => liesIn_declaration _ htoken (liesIn_moduleDecl hg token htoken)
  refine (liesIn_many hitem (liesIn_synchronize_eat _ _)).bind fun modules hmodules => ?_
  have hdeclarations := (Region.holds_pair _ _).2 ⟨huses, hmodules⟩
  exact liesIn_pure ((Region.holds_pair _ _).2 ⟨hedition, hdeclarations⟩)

end Grammar

/-- A unit is from its first token to its last or, if there is none, at its end. -/
theorem Grammar.place_unitSpan {source : Lexemes} (hfinish : R source.finish)
    (hline : 1 ≤ source.finish.line) (h : LieIn source.lexemes R) : R (unitSpan source).place := by
  unfold unitSpan
  cases hlexemes : source.lexemes with
  | nil =>
    have hzero : source.finish.line ≠ 0 := Nat.ne_of_gt hline
    simpa [Span.merge, Place.span, Span.nowhere, Span.place, hzero] using hfinish
  | cons first rest =>
    rw [hlexemes] at h
    refine Region.merge h.head.place ?_
    have hspans : (first :: rest).map (·.token.span) ≠ [] := by simp
    rw [List.getLast?_eq_some_getLast hspans, Option.getD_some]
    obtain ⟨last, hlast, heq⟩ := List.mem_map.1 (List.getLast_mem hspans)
    rw [← heq]
    exact (h last hlast).place

/-- All that a unit is parsed into, the tree or the errors, lies in the unit. -/
theorem SourceUnit.holds_parse (text : String) :
    (Region.ofText text.toList).Holds (parse text) := by
  have hcovers := Region.covers_ofText text.toList
  have hlexemes := Lexemes.liesIn hcovers
  have hfinish := hcovers.finish
  rw [← Lexemes.finish_ofChars] at hfinish
  have hspan := Grammar.place_unitSpan hfinish (Region.one_le_line hfinish) hlexemes
  have hreply := Grammar.liesIn_declarations (g := .ofText text.length _)
    ⟨hfinish, Grammar.liesIn_interpolation _⟩ _ _ hfinish hlexemes
  have herrors := (Grammar.holds_faults hlexemes).append hreply.recorded
  have hresult := hreply.result
  unfold parse
  generalize Lexemes.ofChars .first text.toList = source at *
  dsimp only
  split
  · rename_i edition uses modules heq _
    rw [heq] at hresult
    have hparts := (Region.holds_pair edition (uses, modules)).1 hresult
    exact (Region.holds_sourceUnit _).2 ⟨hspan, hparts.1, (Region.holds_pair _ _).1 hparts.2⟩
  · exact herrors.inOrder
  · rename_i e errors heq
    rw [heq] at hresult
    exact (herrors.append (.cons hresult (by simp))).inOrder

end TypedTemplate
