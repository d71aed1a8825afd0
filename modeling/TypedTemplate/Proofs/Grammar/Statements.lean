-- SUMMARY: Each statement of a block is read or reported by itself, whatever stands around it.
import TypedTemplate.Proofs.Grammar.Declared
import TypedTemplate.Proofs.Grammar.Halts
import TypedTemplate.Proofs.Grammar.Takes

/-!
# Statements with faults

A statement, well formed or not, is parsed up to its own semicolon at most, and recovery stops
there. The outcome of each statement in a block is then what it would be alone: the statement is
read if its tokens derive from the grammar, and else one error is recorded for it.
-/

namespace TypedTemplate

/-! ## Statements -/

/-- The tokens of a statement, well formed or not, and the semicolon that ends it. -/
structure RawStatement where
  first : Lexeme
  more : List Lexeme
  close : Lexeme
  plain : ∀ lexeme ∈ first :: more,
    lexeme.token.kind ∉ [.leftBrace, .rightBrace, .semicolon, .interpolatedString, .invalid]
  words : ∀ lexeme ∈ more, lexeme.token.kind ∉ [.letWord, .returnWord]
  closes : close.token.kind = .semicolon

/-- The terminals derive from the nonterminal of statements, and the statement is that of the
derivation. -/
inductive DerivesStatement : List Terminal → Stmt → Prop where
  | letBinding {x : String} {ws : List Terminal} {e : Expr} : Derives .expr ws e →
      DerivesStatement (.mark .letWord :: .name x :: .mark .equal :: ws ++ [.mark .semicolon])
        (.letBinding ⟨x, .nowhere⟩ e .nowhere)
  | ret {ws : List Terminal} {e : Expr} : Derives .expr ws e →
      DerivesStatement (.mark .returnWord :: ws ++ [.mark .semicolon]) (.ret e .nowhere)

/-- On the lexemes `ts` before the semicolon `close` the parser either takes them all and the
semicolon, or stops at the semicolon at the latest. -/
def Closes {α : Type} (close : Lexeme) (ts : List Lexeme)
    (p : (given : List Lexeme) → Reply given α) : Prop :=
  (∃ a, ∀ tail, (p (ts ++ close :: tail)).Ends (.ok a) tail) ∨
    ∃ e left, left <:+ ts ∧
      ∀ tail, (p (ts ++ close :: tail)).Ends (.error e) (left ++ close :: tail)

namespace Parse

variable {α β : Type} {finish : Place} {close : Lexeme} {ts : List Lexeme} {p : Parse α}
  {next : α → Parse β}

theorem closes_bind (h : Halts close ts (p finish))
    (hnext : ∀ a left, left <:+ ts → Closes close left (next a finish)) :
    Closes close ts ((p >>= next) finish) := by
  obtain ⟨result, left, hleft, hp⟩ := h
  cases result with
  | error e => exact .inr ⟨e, left, hleft, fun tail => (hp tail).stop⟩
  | ok a =>
    rcases hnext a left hleft with ⟨b, hb⟩ | ⟨e, left', hleft', he⟩
    · exact .inl ⟨b, fun tail => (hp tail).andThen fun _ => hb tail⟩
    · exact .inr ⟨e, left', hleft'.trans hleft, fun tail => (hp tail).andThen fun _ => he tail⟩

theorem closes_fail (e : ParseError) : Closes close ts ((fail e : Parse α) finish) :=
  .inr ⟨e, ts, List.suffix_rfl, fun _ => Reply.ends_fail e⟩

/-- The semicolon is taken where nothing stands before it, and else missed there. -/
theorem closes_semicolon (hclose : close.token.kind = .semicolon)
    (hts : ∀ lexeme ∈ ts, lexeme.token.kind ≠ .semicolon) (result : Token → α) :
    Closes close ts ((expect .semicolon >>= fun token => pure (result token)) finish) := by
  cases ts with
  | nil =>
    refine .inl ⟨result close.token, fun tail => ?_⟩
    have hexpect : (expect .semicolon finish (close :: tail)).Ends (.ok close.token) tail :=
      (yields_expect (by decide)).2 ⟨close, rfl, rfl, hclose⟩
    exact hexpect.andThen fun _ => Reply.ends_ok _
  | cons lexeme more =>
    have hhalts : Halts close (lexeme :: more) (expect .semicolon finish) :=
      halts_expect_of_nil (by simp) hclose
    obtain ⟨result, left, hleft, hexpect⟩ := hhalts
    cases result with
    | error e => exact .inr ⟨e, left, hleft, fun tail => (hexpect tail).stop⟩
    | ok token =>
      obtain ⟨_, heq, rfl, hkind⟩ := (yields_expect (by decide)).1 (hexpect [])
      rw [← (List.cons.inj heq).1] at hkind
      exact absurd hkind (hts lexeme (by simp))

end Parse

variable (g : Grammar) in
/-- A statement is picked by its first token. -/
theorem Grammar.statement_cases (token : Token) :
    g.statement token = g.letBinding token ∨ g.statement token = g.ret token ∨
      ∃ e, g.statement token = Parse.fail e := by
  unfold statement
  split
  · exact .inl rfl
  · exact .inr (.inl rfl)
  · exact .inr (.inr ⟨_, rfl⟩)

namespace RawStatement

variable (g : Grammar) (finish : Place) (s : RawStatement)

def lexemes : List Lexeme := s.first :: s.more ++ [s.close]

/-- What the statement is parsed into alone. -/
def outcome : Except ParseError Stmt :=
  (g.statement s.first.token finish (s.more ++ [s.close])).result

theorem closes_statement : Closes s.close s.more (g.statement s.first.token finish) := by
  have hplain : Grammar.AllPlain s.more := fun lexeme hlexeme hkind =>
    s.plain lexeme (List.mem_cons_of_mem _ hlexeme) (by simp [hkind])
  have hsemicolon : ∀ lexeme ∈ s.more, lexeme.token.kind ≠ .semicolon := fun lexeme hlexeme hkind =>
    s.plain lexeme (List.mem_cons_of_mem _ hlexeme) (by simp [hkind])
  have hvalue : ∀ left, left <:+ s.more → ∀ result : Expr → Token → Stmt,
      Closes s.close left ((do
        let e ← g.value
        let token ← Parse.expect .semicolon
        return result e token) finish) := by
    intro left hleft result
    refine Parse.closes_bind (Grammar.halts_expr s.closes 0 (hplain.of_suffix hleft))
      fun e left' hleft' => Parse.closes_semicolon s.closes ?_ (result e)
    exact fun lexeme hlexeme => hsemicolon lexeme ((hleft'.trans hleft).subset hlexeme)
  rcases g.statement_cases s.first.token with heq | heq | ⟨e, heq⟩
  · rw [heq]
    refine Parse.closes_bind (Parse.halts_ident s.closes) fun x left hleft => ?_
    refine Parse.closes_bind (Parse.halts_expect (by decide) s.closes) fun _ left' hleft' => ?_
    exact hvalue left' (hleft'.trans hleft) _
  · rw [heq]
    exact hvalue s.more List.suffix_rfl _
  · rw [heq]
    exact Parse.closes_fail e

/-- The outcome is the same whatever stands behind the statement. -/
theorem ends_statement :
    (∃ stmt, s.outcome g finish = .ok stmt ∧ ∀ tail,
      (g.statement s.first.token finish (s.more ++ s.close :: tail)).Ends (.ok stmt) tail) ∨
    ∃ e left, s.outcome g finish = .error e ∧ left <:+ s.more ∧ ∀ tail,
      (g.statement s.first.token finish (s.more ++ s.close :: tail)).Ends (.error e)
        (left ++ s.close :: tail) := by
  rcases s.closes_statement g finish with ⟨stmt, h⟩ | ⟨e, left, hleft, h⟩
  · exact .inl ⟨stmt, (h []).1, h⟩
  · exact .inr ⟨e, left, (h []).1, hleft, h⟩

end RawStatement

/-! ## Recovery -/

/-- What a block does behind a fault in a statement: it goes on behind the next semicolon. -/
def Grammar.skipStatement : Parse PUnit := do
  Parse.synchronize [.semicolon, .letWord, .returnWord]
  let _ ← Parse.eat .semicolon

namespace Parse

/-- What is skipped goes up to the semicolon, if there is nothing to stop at before it. -/
theorem skipTo_of_plain {stop : List TokenKind} {close : Lexeme} {left tail : List Lexeme}
    (hleft : ∀ lexeme ∈ left, lexeme.token.kind ∉ .leftBrace :: .rightBrace :: stop)
    (hclose : close.token.kind ∈ stop) : skipTo stop 0 (left ++ close :: tail) = close :: tail := by
  induction left with
  | nil => simp [skipTo, hclose]
  | cons lexeme left ih =>
    obtain ⟨hlexeme, hleft⟩ := List.forall_mem_cons.1 hleft
    simp only [List.mem_cons, not_or] at hlexeme
    simp [skipTo, hlexeme, ih hleft]

/-- At its semicolon a statement that failed is left behind. -/
theorem ends_recover {finish : Place} {close : Lexeme} {left tail : List Lexeme}
    (hleft : ∀ lexeme ∈ left, lexeme.token.kind ∉
      [.leftBrace, .rightBrace, .semicolon, .letWord, .returnWord])
    (hclose : close.token.kind = .semicolon) :
    (Grammar.skipStatement finish (left ++ close :: tail)).Ends (.ok ⟨⟩) tail := by
  have hskip : (synchronize [.semicolon, .letWord, .returnWord] finish (left ++ close :: tail)).Ends
      (.ok ⟨⟩) (close :: tail) := ⟨rfl, skipTo_of_plain hleft (by simp [hclose]), rfl⟩
  have heat : (eat .semicolon finish (close :: tail)).Ends (.ok true) tail := by
    refine ends_peek ?_
    rw [if_pos hclose]
    exact (show (advance finish (close :: tail)).Ends (.ok close.token) tail from
      Reply.ends_ok _).andThen fun _ => Reply.ends_ok _
  exact hskip.andThen fun _ => heat.andThen fun _ => Reply.ends_ok _

theorem records_orRecover_error {α : Type} {p : Parse α} {recover : Parse PUnit} {finish : Place}
    {given mid rest : List Lexeme} {e : ParseError} (h : (p finish given).Ends (.error e) mid)
    (hrecover : (recover finish mid).Ends (.ok ⟨⟩) rest) :
    (p.orRecover recover finish given).Records none rest [e] := by
  unfold orRecover
  generalize p finish given = reply at h ⊢
  obtain ⟨result, left, recorded, hle⟩ := reply
  obtain ⟨rfl, rfl, rfl⟩ := h
  obtain ⟨-, hrest, hrecorded⟩ := hrecover
  exact ⟨rfl, hrest, by simpa using hrecorded⟩

end Parse

namespace RawStatement

variable (g : Grammar) (finish : Place)

/-- The statement that the tokens are, if they are one. -/
def stmt? (s : RawStatement) : Option Stmt :=
  (s.outcome g finish).toOption

/-- The error for tokens that are no statement. -/
def error? (s : RawStatement) : Option ParseError :=
  match s.outcome g finish with
  | .ok _    => none
  | .error e => some e

/-- A statement of a block is read up to its semicolon, or an error is recorded for it there. -/
theorem records_orRecover (s : RawStatement) (tail : List Lexeme) :
    ((g.statement s.first.token).orRecover Grammar.skipStatement finish
        (s.more ++ s.close :: tail)).Records
      (s.stmt? g finish) tail (s.error? g finish).toList := by
  unfold stmt? error?
  rcases s.ends_statement g finish with
    ⟨stmt, houtcome, h⟩ | ⟨e, left, houtcome, hleft, h⟩
  · rw [houtcome]
    exact Parse.records_orRecover (h tail)
  · rw [houtcome]
    refine Parse.records_orRecover_error (h tail) (Parse.ends_recover ?_ s.closes)
    intro lexeme hlexeme
    have hplain := s.plain lexeme (List.mem_cons_of_mem _ (hleft.subset hlexeme))
    have hwords := s.words lexeme (hleft.subset hlexeme)
    simp only [List.mem_cons, List.not_mem_nil, or_false, not_or] at hplain hwords ⊢
    exact ⟨hplain.1, hplain.2.1, hplain.2.2.1, hwords.1, hwords.2⟩

/-- The statements up to a closing brace are read one by one. -/
theorem records_manyOnto {closing : Lexeme} (hclosing : closing.token.kind = .rightBrace)
    (out : List Stmt) (recorded : List ParseError) (ss : List RawStatement) (rest : List Lexeme)
    {outer given : List Lexeme} (h : given.length ≤ outer.length)
    (hgiven : given = ss.flatMap lexemes ++ closing :: rest) :
    (Parse.manyOnto (· != .rightBrace) g.statement Grammar.skipStatement finish out recorded given
        h).Records
      (out.reverse ++ ss.filterMap (stmt? g finish)) (closing :: rest)
      (recorded.reverse ++ ss.filterMap (error? g finish)) := by
  induction ss generalizing out recorded given with
  | nil =>
    subst hgiven
    simp only [List.flatMap_nil, List.nil_append]
    rw [Parse.manyOnto]
    simp [hclosing, Reply.Records]
  | cons s ss ih =>
    have hcons : given =
        s.first :: (s.more ++ s.close :: (ss.flatMap lexemes ++ closing :: rest)) := by
      simp [hgiven, lexemes]
    have hfirst : (s.first.token.kind != .rightBrace) = true := by
      have hplain := s.plain s.first (by simp)
      simp only [List.mem_cons, not_or] at hplain
      simpa using hplain.2.1
    have hreply := s.records_orRecover g finish (ss.flatMap lexemes ++ closing :: rest)
    subst hcons
    rw [Parse.manyOnto]
    simp only [hfirst, if_true]
    generalize (g.statement s.first.token).orRecover _ finish _ = reply at hreply ⊢
    obtain ⟨result, left, found, hle⟩ := reply
    obtain ⟨rfl, rfl, rfl⟩ := hreply
    have herrors : (s :: ss).filterMap (error? g finish) =
        (s.error? g finish).toList ++ ss.filterMap (error? g finish) := by
      cases herror : s.error? g finish <;> simp [herror]
    rw [herrors]
    cases hstmt : s.stmt? g finish with
    | some stmt =>
      simpa [hstmt] using ih (stmt :: out) ((s.error? g finish).toList.reverse ++ recorded) _ rfl
    | none => simpa [hstmt] using ih out ((s.error? g finish).toList.reverse ++ recorded) _ rfl

end RawStatement

/-! ## Well-formed statements -/

namespace Grammar

variable {g : Grammar} {finish : Place}

/-- Lexemes are read as an expression, and nothing is left, where they derive from the grammar. -/
theorem exists_yields_iff_derives {used : List Lexeme} {e : Expr} (hplain : AllPlain used)
    (htokens : AllTokens used) :
    (∃ e', (g.expr 0 used).Yields e' [] ∧ e'.bare = e) ↔
      Derives .expr (used.map (·.token.terminal)) e := by
  have hmark : .mark .interpolatedString ∉ used.map (·.token.terminal) := by
    intro hmem
    obtain ⟨lexeme, hlexeme, hterminal⟩ := List.mem_map.1 hmem
    exact hplain lexeme hlexeme (Token.terminal_eq_mark hterminal)
  constructor
  · rintro ⟨e', hyields, rfl⟩
    obtain ⟨hgrouped, -, -, used', hused, hterminals⟩ := expr_sound (Nat.zero_le _) htokens hyields
    rw [List.append_nil] at hused
    subst hused
    rw [hterminals] at hmark ⊢
    exact hgrouped.derives (Expr.le_level e') hmark
  · intro h
    obtain ⟨hterminals, hbare, hgrouped⟩ := (derives_expr_iff hmark).1 h
    have hreaches := reaches (g := g) 0 e hgrouped (Nat.zero_le _) hplain
      ⟨used, by simp, hterminals⟩ stops_nil (by simp [Closed])
    obtain ⟨e', hbare', hyields⟩ := hreaches.yields stops_nil
    exact ⟨e', hyields, hbare'.trans hbare⟩

theorem terminal_of_mark {token : Token} {kind : TokenKind} (hkind : token.kind = kind)
    (h : kind ∈ [.letWord, .returnWord, .equal, .semicolon]) : token.terminal = .mark kind := by
  simp only [List.mem_cons, List.not_mem_nil, or_false] at h
  rcases h with rfl | rfl | rfl | rfl <;> simp [Token.terminal, hkind]

/-- A value before a semicolon derives as its terminals do. -/
theorem derives_of_spells_value {given : List Lexeme} {e : Expr} (hplain : AllPlain given)
    (htokens : AllTokens given) (h : Spells g given [.expr e, .mark .semicolon] []) :
    ∃ ws, given.map (·.token.terminal) = ws ++ [.mark .semicolon] ∧ Derives .expr ws e := by
  obtain ⟨used, mid, e', rfl, hyields, hbare, h⟩ := spells_expr.1 h
  obtain ⟨close, rest, rfl, hclose, h⟩ := spells_mark.1 h
  obtain rfl := spells_nil.1 h
  refine ⟨used.map (·.token.terminal), ?_, ?_⟩
  · simp [terminal_of_mark hclose]
  · refine (exists_yields_iff_derives ?_ ?_).1 ⟨e', hyields, hbare⟩
    · exact fun lexeme hlexeme => hplain lexeme (List.mem_append_left _ hlexeme)
    · exact fun lexeme hlexeme => htokens lexeme (List.mem_append_left _ hlexeme)

theorem spells_value_of_derives {given : List Lexeme} {ws : List Terminal} {e : Expr}
    (hplain : AllPlain given) (htokens : AllTokens given)
    (hgiven : given.map (·.token.terminal) = ws ++ [.mark .semicolon]) (h : Derives .expr ws e) :
    Spells g given [.expr e, .mark .semicolon] [] := by
  obtain ⟨used, last, rfl, rfl, hlast⟩ := List.map_eq_append_iff.1 hgiven
  obtain ⟨close, rfl, hclose⟩ := List.map_eq_singleton_iff.1 hlast
  obtain ⟨e', hyields, hbare⟩ := (exists_yields_iff_derives (g := g)
    (fun lexeme hlexeme => hplain lexeme (List.mem_append_left _ hlexeme))
    (fun lexeme hlexeme => htokens lexeme (List.mem_append_left _ hlexeme))).2 h
  refine spells_expr.2 ⟨used, [close], e', rfl, hyields, hbare, spells_mark.2 ?_⟩
  exact ⟨close, [], rfl, Token.terminal_eq_mark hclose, spells_nil.2 rfl⟩

/-- What spells a statement derives from the grammar as it. -/
theorem derives_of_spells {given : List Lexeme} {stmt : Stmt} (hplain : AllPlain given)
    (htokens : AllTokens given) (h : Spells g given stmt.symbols []) :
    DerivesStatement (given.map (·.token.terminal)) stmt.bare := by
  cases stmt with
  | letBinding x e span =>
    obtain ⟨start, mid, rfl, hstart, h⟩ := spells_mark.1 h
    obtain ⟨name, mid', rfl, hname, h⟩ := spells_name.1 h
    obtain ⟨equal, mid'', rfl, hequal, h⟩ := spells_mark.1 h
    obtain ⟨ws, hws, he⟩ := derives_of_spells_value hplain.tail.tail.tail htokens.tail.tail.tail h
    simp only [List.map_cons, hws, terminal_of_mark hstart, Token.terminal_eq_name.2 hname,
      terminal_of_mark hequal, List.mem_cons, true_or, or_true]
    exact .letBinding he
  | ret e span =>
    obtain ⟨start, mid, rfl, hstart, h⟩ := spells_mark.1 h
    obtain ⟨ws, hws, he⟩ := derives_of_spells_value hplain.tail htokens.tail h
    simp only [List.map_cons, hws, terminal_of_mark hstart, List.mem_cons, true_or, or_true]
    exact .ret he

/-- What derives from the grammar as a statement spells it. -/
theorem spells_of_derives {given : List Lexeme} {t : Stmt} (hplain : AllPlain given)
    (htokens : AllTokens given) (h : DerivesStatement (given.map (·.token.terminal)) t) :
    Spells g given t.symbols [] ∧ t.bare = t := by
  generalize hgiven : given.map (·.token.terminal) = ws at h
  cases h with
  | letBinding he =>
    obtain ⟨start, _, rfl, hstart, hgiven⟩ := List.map_eq_cons_iff.1 hgiven
    obtain ⟨name, _, rfl, hname, hgiven⟩ := List.map_eq_cons_iff.1 hgiven
    obtain ⟨equal, mid, rfl, hequal, hgiven⟩ := List.map_eq_cons_iff.1 hgiven
    obtain ⟨-, hbare, -⟩ := he.printed
    have hvalue := spells_value_of_derives (g := g) hplain.tail.tail.tail htokens.tail.tail.tail
      hgiven he
    refine ⟨spells_mark.2 ⟨start, _, rfl, Token.terminal_eq_mark hstart, spells_name.2
      ⟨name, _, rfl, Token.terminal_eq_name.1 hname, spells_mark.2 ⟨equal, mid, rfl,
        Token.terminal_eq_mark hequal, ?_⟩⟩⟩, ?_⟩
    · rwa [hbare]
    · simp [Stmt.bare, hbare]
  | ret he =>
    obtain ⟨start, mid, rfl, hstart, hgiven⟩ := List.map_eq_cons_iff.1 hgiven
    obtain ⟨-, hbare, -⟩ := he.printed
    have hvalue := spells_value_of_derives (g := g) hplain.tail htokens.tail hgiven he
    refine ⟨spells_mark.2 ⟨start, mid, rfl, Token.terminal_eq_mark hstart, ?_⟩, ?_⟩
    · rwa [hbare]
    · simp [Stmt.bare, hbare]

end Grammar

namespace RawStatement

variable {g : Grammar} {finish : Place}

theorem kind_of_mem {s : RawStatement} {lexeme : Lexeme} (h : lexeme ∈ s.lexemes) :
    lexeme.token.kind ≠ .interpolatedString ∧ lexeme.token.kind ≠ .invalid := by
  rcases List.mem_append.1 h with h | h
  · have hplain := s.plain lexeme h
    simp only [List.mem_cons, List.not_mem_nil, or_false, not_or] at hplain
    exact hplain.2.2.2
  · rw [List.mem_singleton.1 h, s.closes]
    decide

theorem allPlain (s : RawStatement) : Grammar.AllPlain s.lexemes := fun _ h => (kind_of_mem h).1

theorem allTokens (s : RawStatement) : AllTokens s.lexemes := fun _ h => (kind_of_mem h).2

/-- A statement that is read derives from the grammar. -/
theorem derives_of_outcome {s : RawStatement} {stmt : Stmt} (h : s.outcome g finish = .ok stmt) :
    DerivesStatement (s.lexemes.map (·.token.terminal)) stmt.bare := by
  rcases s.ends_statement g finish with
    ⟨stmt', houtcome, hends⟩ | ⟨e, left, houtcome, -⟩
  · rw [h] at houtcome
    cases houtcome
    exact Grammar.derives_of_spells s.allPlain s.allTokens (Grammar.statement_spells (hends []))
  · rw [h] at houtcome
    cases houtcome

/-- Tokens that derive from the grammar are read as a statement. -/
theorem outcome_of_derives (g : Grammar) (finish : Place) {s : RawStatement} {t : Stmt}
    (h : DerivesStatement (s.lexemes.map (·.token.terminal)) t) :
    ∃ stmt, s.outcome g finish = .ok stmt ∧ stmt.bare = t := by
  obtain ⟨hspells, hbare⟩ := Grammar.spells_of_derives (g := g) s.allPlain s.allTokens h
  obtain ⟨lexeme, given, stmt, hgiven, -, hstmt, hyields⟩ :=
    Grammar.begins_statement finish t hspells
  have hgiven : s.first :: (s.more ++ [s.close]) = lexeme :: given := hgiven
  obtain ⟨rfl, rfl⟩ := List.cons.inj hgiven
  exact ⟨stmt, hyields.1, hstmt.trans hbare⟩

end RawStatement

namespace RawStatement

/-- A statement is read as the one that its tokens derive, if there is one, or else has an error. -/
theorem stmt?_or_error? (g : Grammar) (finish : Place) (s : RawStatement) :
    (∃ stmt, s.stmt? g finish = some stmt ∧ s.error? g finish = none ∧
      ∀ t, DerivesStatement (s.lexemes.map (·.token.terminal)) t ↔ t = stmt.bare) ∨
    ∃ e, s.stmt? g finish = none ∧ s.error? g finish = some e ∧
      ∀ t, ¬DerivesStatement (s.lexemes.map (·.token.terminal)) t := by
  unfold stmt? error?
  cases houtcome : s.outcome g finish with
  | ok stmt =>
    refine .inl ⟨stmt, rfl, rfl, fun t => ⟨fun h => ?_, ?_⟩⟩
    · obtain ⟨stmt', houtcome', rfl⟩ := outcome_of_derives g finish h
      rw [houtcome] at houtcome'
      rw [Except.ok.inj houtcome']
    · rintro rfl
      exact derives_of_outcome houtcome
  | error e =>
    refine .inr ⟨e, rfl, rfl, fun t h => ?_⟩
    obtain ⟨stmt, houtcome', -⟩ := outcome_of_derives g finish h
    rw [houtcome] at houtcome'
    cases houtcome'

end RawStatement

/-! ## Blocks -/

/-- **One bad statement neither hides nor spoils another.** A block of any statements, well formed
or not, is parsed up to its closing brace. It has the statements whose tokens derive from the
grammar, in order, and one error is recorded for each of the others. What a statement gives is what
it gives alone. -/
theorem Grammar.block_of_statements {opening closing : Lexeme} (g : Grammar) (finish : Place)
    (hopening : opening.token.kind = .leftBrace) (hclosing : closing.token.kind = .rightBrace)
    (ss : List RawStatement) (rest : List Lexeme) :
    (g.block finish (opening :: (ss.flatMap RawStatement.lexemes ++ closing :: rest))).Records
        ⟨ss.filterMap (·.stmt? g finish), opening.token.span.merge closing.token.span⟩ rest
        (ss.filterMap (·.error? g finish)) ∧
      ∀ s ∈ ss,
        (∃ stmt, s.stmt? g finish = some stmt ∧ s.error? g finish = none ∧
          ∀ t, DerivesStatement (s.lexemes.map (·.token.terminal)) t ↔ t = stmt.bare) ∨
        ∃ e, s.stmt? g finish = none ∧ s.error? g finish = some e ∧
          ∀ t, ¬DerivesStatement (s.lexemes.map (·.token.terminal)) t := by
  refine ⟨?_, fun s _ => s.stmt?_or_error? g finish⟩
  have hopen : (Parse.expect .leftBrace finish
      (opening :: (ss.flatMap RawStatement.lexemes ++ closing :: rest))).Records opening.token
        (ss.flatMap RawStatement.lexemes ++ closing :: rest) [] :=
    (Parse.yields_expect (by decide)).2 ⟨opening, rfl, rfl, hopening⟩
  have hmany := RawStatement.records_manyOnto g finish hclosing [] [] ss rest (Reply.all_left _) rfl
  have hclose : (Parse.expect .rightBrace finish (closing :: rest)).Records closing.token rest [] :=
    (Parse.yields_expect (by decide)).2 ⟨closing, rfl, rfl, hclosing⟩
  have hpure : (Reply.ok (⟨ss.filterMap (·.stmt? g finish),
      opening.token.span.merge closing.token.span⟩ : Block) : Reply rest Block).Records _ rest [] :=
    Reply.ends_ok _
  have hblock : (g.block finish
      (opening :: (ss.flatMap RawStatement.lexemes ++ closing :: rest))).Records _ rest _ :=
    Reply.Records.andThen hopen fun _ => Reply.Records.andThen hmany fun _ =>
      Reply.Records.andThen hclose fun _ => hpure
  simpa using hblock

/-- Of `let x = 1;`, `let = x;` and `return x;` the second has no name. It alone is reported, and
the others are read. -/
theorem Grammar.block_of_statements_nameless :
    let lexeme (kind : TokenKind) (text : String) : Lexeme :=
      ⟨[], text.toList, ⟨kind, text, .nowhere⟩, []⟩
    let named : RawStatement :=
      ⟨lexeme .letWord "let", [lexeme .identifier "x", lexeme .equal "=", lexeme .intLiteral "1"],
        lexeme .semicolon ";", by decide, by decide, rfl⟩
    let nameless : RawStatement :=
      ⟨lexeme .letWord "let", [lexeme .equal "=", lexeme .identifier "x"], lexeme .semicolon ";",
        by decide, by decide, rfl⟩
    let last : RawStatement :=
      ⟨lexeme .returnWord "return", [lexeme .identifier "x"], lexeme .semicolon ";",
        by decide, by decide, rfl⟩
    let ss := [named, nameless, last]
    let g := ofText 0 .first
    let reply := g.block .first
      (lexeme .leftBrace "\x7b" :: (ss.flatMap RawStatement.lexemes ++ [lexeme .rightBrace "\x7d"]))
    ss.map (fun s => (s.stmt? g .first).isSome) = [true, false, true] ∧
      reply.result.toOption.map (·.stmts.length) = some 2 ∧ reply.recorded.length = 1 := by
  intro lexeme named nameless last ss g reply
  have hsome : ss.map (fun s => (s.stmt? g .first).isSome) = [true, false, true] := by
    decide +kernel
  have herrors : (ss.filterMap (·.error? g .first)).length = 1 := by decide +kernel
  have hstmts : (ss.filterMap (·.stmt? g .first)).length = 2 := by decide +kernel
  have hopening : (lexeme .leftBrace "\x7b").token.kind = .leftBrace := rfl
  have hclosing : (lexeme .rightBrace "\x7d").token.kind = .rightBrace := rfl
  obtain ⟨⟨hresult, -, hrecorded⟩, -⟩ := block_of_statements g .first hopening hclosing ss []
  have hresult : reply.result = .ok _ := hresult
  have hrecorded : reply.recorded = _ := hrecorded
  refine ⟨hsome, ?_, ?_⟩
  · rw [hresult]
    exact congrArg some hstmts
  · rw [hrecorded]
    exact herrors

end TypedTemplate
