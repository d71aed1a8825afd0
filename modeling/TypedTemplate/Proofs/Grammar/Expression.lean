-- SUMMARY: The expression parser accepts the expression grammar and gives the tree of the derivation.
import TypedTemplate.Grammar.Standalone
import TypedTemplate.Proofs.Grammar.Climb
import TypedTemplate.Proofs.Token.Lexeme

/-!
# Parsing expressions

A text is parsed as one expression when it lexes, its integers are in range and its
terminals derive from `expr`. The tree is that of the derivation, of which there is
only one.
-/

namespace TypedTemplate

namespace Expr

/-- The lexemes of a text. -/
def lexemesOf (text : String) : List Lexeme := (Lexemes.ofChars .first text.toList).lexemes

def terminalsOf (text : String) : List Terminal := (lexemesOf text).map (·.token.terminal)

/-- The text has no interpolated strings. -/
def PlainText (text : String) : Prop :=
  ∀ lexeme ∈ lexemesOf text, lexeme.token.kind ≠ .interpolatedString

/-- The text is cut into tokens without faults. -/
def Lexes (text : String) : Prop := ∀ lexeme ∈ lexemesOf text, lexeme.errors = []

/-- Every integer literal has a value. -/
def InRange (text : String) : Prop :=
  ∀ lexeme ∈ lexemesOf text, lexeme.token.kind = .intLiteral →
    (Number.ofDigits lexeme.token.lexeme.toList : Int) ≤ maxInt

end Expr

namespace Grammar

variable {g : Grammar} {given : List Lexeme} {e : Expr}

theorem yields_wholeExpr {rest : List Lexeme} :
    (wholeExpr g given).Yields e rest ↔ (g.expr 0 given).Yields e [] ∧ rest = [] := by
  unfold wholeExpr
  rw [Reply.yields_andThen]
  constructor
  · rintro ⟨e', mid, hle, he, h⟩
    cases mid with
    | nil =>
      obtain ⟨rfl, rfl⟩ := Reply.yields_ok.1 h
      exact ⟨he, rfl⟩
    | cons lexeme mid => exact absurd h Reply.yields_fail
  · rintro ⟨he, rfl⟩
    exact ⟨e, [], he.length_le, he, Reply.yields_ok.2 ⟨rfl, rfl⟩⟩

/-- An expression that is the whole text leaves nothing, whatever was recorded on the way. -/
theorem rest_wholeExpr (h : (wholeExpr g given).result = .ok e) : (wholeExpr g given).rest = [] := by
  unfold wholeExpr at h ⊢
  generalize g.expr 0 given = reply at h ⊢
  obtain ⟨result, rest, recorded, hle⟩ := reply
  cases result with
  | error e => simp [Reply.andThen] at h
  | ok e =>
    cases rest with
    | nil => rfl
    | cons lexeme rest => simp [Reply.andThen, Reply.widen, Reply.recording, Reply.fail] at h

/-- A parser that takes everything meets every fault. -/
theorem faultsMet_of_ok {α : Type} {a : α} {reply : Reply given α} (h : reply.result = .ok a)
    (hrest : reply.rest = []) :
    faultsMet reply = given.flatMap fun lexeme => lexeme.errors.map .ofLexError := by
  simp [faultsMet, h, hrest, List.take_of_length_le]

/-- A text parses when its lexemes yield an expression and none of them is faulty. -/
theorem standalone_eq_ok {interpolate : Token → Interpolation} {place : Place} {text : List Char} :
    standalone interpolate place text = .ok e ↔
      (expr ⟨(Lexemes.ofChars place text).finish, interpolate⟩ 0
        (Lexemes.ofChars place text).lexemes).Yields e [] ∧
        ∀ lexeme ∈ (Lexemes.ofChars place text).lexemes, lexeme.errors = [] := by
  have hyields : (wholeExpr ⟨(Lexemes.ofChars place text).finish, interpolate⟩
      (Lexemes.ofChars place text).lexemes).Yields e [] ↔ _ ∧ [] = [] := yields_wholeExpr
  simp only [and_true] at hyields
  rw [← hyields]
  unfold standalone Reply.Yields
  generalize hreply : wholeExpr ⟨(Lexemes.ofChars place text).finish, interpolate⟩
    (Lexemes.ofChars place text).lexemes = reply
  cases hresult : reply.result with
  | error err => simp [hreply, hresult]
  | ok e' =>
    have hrest : reply.rest = [] := by
      rw [← hreply] at hresult ⊢
      exact rest_wholeExpr hresult
    have hfaultless : (faultsMet reply ++ reply.recorded).isEmpty ↔
        (∀ lexeme ∈ (Lexemes.ofChars place text).lexemes, lexeme.errors = []) ∧
          reply.recorded = [] := by
      simp [faultsMet_of_ok hresult hrest]
    simp only [hreply, hresult]
    split
    case isTrue h =>
      obtain ⟨herrors, hrecorded⟩ := hfaultless.1 h
      simp only [Except.ok.injEq]
      exact ⟨fun heq => ⟨⟨heq, hrest, hrecorded⟩, herrors⟩, fun hboth => hboth.1.1⟩
    case isFalse h =>
      have hnot : ¬ ((∀ lexeme ∈ (Lexemes.ofChars place text).lexemes, lexeme.errors = []) ∧
          reply.recorded = []) := fun hboth => h (hfaultless.2 hboth)
      simp only [reduceCtorEq, false_iff]
      rintro ⟨⟨-, -, hrecorded⟩, herrors⟩
      exact hnot ⟨herrors, hrecorded⟩

end Grammar

/-! ## The theorem -/

namespace Expr

theorem Lexes.allTokens {text : String} (h : Lexes text) : AllTokens (lexemesOf text) :=
  .ofChars h

/-- A text parses when it lexes and prints a grouped expression. -/
theorem parse_eq_ok {text : String} {e : Expr} (h : parse text = .ok e) :
    Lexes text ∧ e.Grouped ∧ terminalsOf text = e.terminals := by
  obtain ⟨hyields, hlexes⟩ := Grammar.standalone_eq_ok.1 h
  have hlexes : Lexes text := hlexes
  have hsound := Grammar.expr_sound (Nat.zero_le _) hlexes.allTokens hyields
  obtain ⟨used, hused, hterminals⟩ := hsound.reads
  refine ⟨hlexes, hsound.grouped, ?_⟩
  rw [← hterminals, terminalsOf, hused, List.append_nil]

theorem exists_parse {text : String} {e : Expr} (hplain : PlainText text) (hlexes : Lexes text)
    (hg : e.Grouped) (hterminals : terminalsOf text = e.terminals) :
    ∃ e', parse text = .ok e' ∧ e'.bare = e.bare := by
  have hreads : Reads (lexemesOf text) e.terminals [] :=
    ⟨lexemesOf text, by simp, hterminals⟩
  have hreaches := Grammar.reaches
    (g := ⟨(Lexemes.ofChars .first text.toList).finish, Grammar.interpolation (text.length + 1)⟩)
    0 e hg (Nat.zero_le _) hplain hreads stops_nil (by simp [Grammar.Closed])
  obtain ⟨e', hbare, hyields⟩ := hreaches.yields stops_nil
  exact ⟨e', Grammar.standalone_eq_ok.2 ⟨hyields, hlexes⟩, hbare⟩

/-- No expression prints an integer that is out of range. -/
theorem inRange_of_terminals {text : String} {e : Expr} (h : terminalsOf text = e.terminals) :
    InRange text := by
  intro lexeme hlexeme hint
  refine Decidable.byContradiction fun hrange => ?_
  have hmark : lexeme.token.terminal = .mark .intLiteral := by
    simp [Token.terminal, hint, Grammar.intLiteral, hrange]
  have hmem : lexeme.token.terminal ∈ terminalsOf text := List.mem_map_of_mem hlexeme
  rw [hmark, h] at hmem
  exact absurd (mem_exprMarks hmem) (by decide)

theorem plain_terminals {text : String} (h : PlainText text) :
    .mark .interpolatedString ∉ terminalsOf text := by
  intro hmem
  obtain ⟨lexeme, hlexeme, hmark⟩ := List.mem_map.1 hmem
  exact h lexeme hlexeme (Token.terminal_eq_mark hmark)

/-- A text without interpolated strings is an expression when it lexes, its integers are in range
and its terminals derive from `expr`. Then the tree is that of the derivation, its places aside, and
no other tree derives. So parsing undoes printing: a text that prints a grouped tree is parsed as that
tree, and a text that is parsed prints its tree. -/
theorem parse_iff_derives {text : String} (hplain : PlainText text) :
    ((∃ e, parse text = .ok e) ↔
      Lexes text ∧ InRange text ∧ ∃ t, Derives .expr (terminalsOf text) t) ∧
    (∀ e, parse text = .ok e → ∀ t, Derives .expr (terminalsOf text) t ↔ t = e.bare) ∧
    (∀ t, t.bare = t → t.Grouped → Lexes text → terminalsOf text = t.terminals →
      ∃ e, parse text = .ok e ∧ e.bare = t) ∧
    ∀ e, parse text = .ok e → e.Grouped ∧ e.terminals = terminalsOf text := by
  have hmark := plain_terminals hplain
  have hunique : ∀ e, parse text = .ok e → ∀ t, Derives .expr (terminalsOf text) t ↔ t = e.bare := by
    intro e he t
    obtain ⟨hlexes, hg, hterminals⟩ := parse_eq_ok he
    constructor
    · intro h
      obtain ⟨ht, hbare, hgt⟩ := (derives_expr_iff hmark).1 h
      obtain ⟨e', he', hbare'⟩ := exists_parse hplain hlexes hgt ht
      rw [he] at he'
      cases he'
      rw [← hbare, hbare']
    · rintro rfl
      rw [hterminals] at hmark ⊢
      exact hg.derives (Expr.le_level e) hmark
  refine ⟨⟨?_, ?_⟩, hunique, ?_, ?_⟩
  · rintro ⟨e, he⟩
    obtain ⟨hlexes, -, hterminals⟩ := parse_eq_ok he
    exact ⟨hlexes, inRange_of_terminals hterminals, e.bare, (hunique e he _).2 rfl⟩
  · rintro ⟨hlexes, -, t, ht⟩
    obtain ⟨hterminals, -, hg⟩ := (derives_expr_iff hmark).1 ht
    obtain ⟨e, he, -⟩ := exists_parse hplain hlexes hg hterminals
    exact ⟨e, he⟩
  · intro t hbare hg hlexes hterminals
    obtain ⟨e, he, hbare'⟩ := exists_parse hplain hlexes hg hterminals
    exact ⟨e, he, hbare'.trans hbare⟩
  · intro e he
    obtain ⟨-, hg, hterminals⟩ := parse_eq_ok he
    exact ⟨hg, hterminals.symm⟩

theorem parse_iff_derives_conditional :
    PlainText "a ?? b ? -c.d(1) : (e)" ∧
      ∃ e, parse "a ?? b ? -c.d(1) : (e)" = .ok e ∧
        Derives .expr (terminalsOf "a ?? b ? -c.d(1) : (e)") e.bare := by
  have hplain : PlainText "a ?? b ? -c.d(1) : (e)" := by
    unfold PlainText
    decide +kernel
  have hok : (parse "a ?? b ? -c.d(1) : (e)").isOk = true := by decide +kernel
  cases he : parse "a ?? b ? -c.d(1) : (e)" with
  | error errors => simp [he, Except.isOk, Except.toBool] at hok
  | ok e => exact ⟨hplain, e, rfl, ((parse_iff_derives hplain).2.1 e he e.bare).2 rfl⟩

end Expr

end TypedTemplate
