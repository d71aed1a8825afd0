-- SUMMARY: Every float literal in a tree that is parsed is what a numeral is read as.
import TypedTemplate.Grammar.Unit
import TypedTemplate.Proofs.Interpolation.Shift
import TypedTemplate.Proofs.Number.Zero
import TypedTemplate.Proofs.Semantics.Leaves
import TypedTemplate.Proofs.Template.Hole

/-!
# Floats in parsed trees

The parser makes float literals of numerals and of nothing else, also in the holes of interpolated
strings, which are texts of their own. What a production gives is told from what the
productions before it gave; where it stopped and what it recorded do not matter.
-/

namespace TypedTemplate

/-! ## Trees -/

/-- Every float among the leaves of a tree is what some numeral is read as. -/
def FromNumerals (leaves : List Expr) : Prop :=
  ∀ x span, .literal (.float x) span ∈ leaves → ∃ cs, x = Number.readFloat cs

/-- The float zeros among the leaves are all the same. -/
def OneZero (leaves : List Expr) : Prop :=
  ∀ x y span span', .literal (.float x) span ∈ leaves → .literal (.float y) span' ∈ leaves →
    (x == 0) = true → (y == 0) = true → x = y

namespace FromNumerals

/-- No numeral is read as the negative zero. -/
theorem oneZero {leaves : List Expr} (h : FromNumerals leaves) : OneZero leaves := by
  intro x y span span' hx hy hx0 hy0
  obtain ⟨cs, rfl⟩ := h x span hx
  obtain ⟨ds, rfl⟩ := h y span' hy
  rw [Number.readFloat_eq_zero hx0, Number.readFloat_eq_zero hy0]

theorem nil : FromNumerals [] := by
  simp [FromNumerals]

theorem append {leaves leaves' : List Expr} (h : FromNumerals leaves) (h' : FromNumerals leaves') :
    FromNumerals (leaves ++ leaves') :=
  fun x span hmem => (List.mem_append.1 hmem).elim (h x span) (h' x span)

theorem leavesAll {es : List Expr} (h : ∀ e ∈ es, FromNumerals e.leaves) :
    FromNumerals (Expr.leavesAll es) := by
  induction es with
  | nil => exact nil
  | cons e es ih =>
    exact (h e List.mem_cons_self).append (ih fun e he => h e (List.mem_cons_of_mem _ he))

theorem segments {ss : List Segment} (h : ∀ s ∈ ss, FromNumerals s.leaves) :
    FromNumerals (Segment.leavesAll ss) := by
  induction ss with
  | nil => exact nil
  | cons s ss ih =>
    exact (h s List.mem_cons_self).append (ih fun s hs => h s (List.mem_cons_of_mem _ hs))

end FromNumerals

/-! ## Results -/

/-- The result has the property, if there is one. -/
def Reply.Gives {given : List Lexeme} {α : Type} (r : Reply given α) (P : α → Prop) : Prop :=
  ∀ a, r.result = .ok a → P a

namespace Reply

variable {given : List Lexeme} {α β : Type} {P : α → Prop} {Q : β → Prop}

theorem gives_ok {a : α} (h : P a) : (Reply.ok a : Reply given α).Gives P := by
  rintro _ ⟨⟩
  exact h

theorem gives_fail {e : ParseError} : (Reply.fail e : Reply given α).Gives P := nofun

theorem gives_any (r : Reply given α) : r.Gives fun _ => True := fun _ _ => trivial

theorem Gives.taking {lexeme : Lexeme} {r : Reply given α} (h : r.Gives P) :
    (r.taking : Reply (lexeme :: given) α).Gives P :=
  h

theorem Gives.andThen {r : Reply given α}
    {next : α → (rest : List Lexeme) → rest.length ≤ given.length → Reply rest β}
    (h : r.Gives P) (hnext : ∀ a rest hle, P a → (next a rest hle).Gives Q) :
    (r.andThen next).Gives Q := by
  obtain ⟨result, rest, recorded, hle⟩ := r
  cases result with
  | error e => exact nofun
  | ok a => exact hnext a rest hle (h a rfl)

end Reply

/-! ## Expressions -/

/-- Whatever token is an interpolated string, it is read into a tree with floats from numerals. -/
def Grammar.ReadsNumerals (g : Grammar) : Prop :=
  ∀ token, FromNumerals (Segment.leavesAll (g.interpolate token).segments)

namespace Grammar

variable {g : Grammar}

theorem fromNumerals_atom? (hg : g.ReadsNumerals) {token : Token} {e : Expr}
    {errors : List ParseError} (h : g.atom? token = some (.ok (e, errors))) :
    FromNumerals e.leaves := by
  unfold atom? at h
  dsimp only at h
  split at h
  · -- an integer literal is the one token that may fail to be an operand
    cases hliteral : intLiteral token with
    | error e => simp [hliteral, Except.map] at h
    | ok value =>
      simp only [hliteral, Except.map, Option.some.injEq, Except.ok.injEq, Prod.mk.injEq] at h
      obtain ⟨rfl, -⟩ := h
      unfold intLiteral at hliteral
      dsimp only at hliteral
      split at hliteral <;> cases hliteral
      simp [FromNumerals, Expr.leaves]
  · cases h
    rintro x span hmem
    simp only [Expr.leaves, List.mem_singleton, Expr.literal.injEq, Literal.float.injEq] at hmem
    exact ⟨_, hmem.1⟩
  case h_8 =>
    cases h
    exact hg token
  case h_10 => cases h
  all_goals
    cases h
    simp [FromNumerals, Expr.leaves]

mutual

theorem gives_expr (hg : g.ReadsNumerals) (min : Nat) (given : List Lexeme) :
    (g.expr min given).Gives fun e => FromNumerals e.leaves := by
  rw [expr]
  exact (gives_operand hg given).andThen fun lhs rest _ hlhs => gives_climb hg min rest hlhs
termination_by 5 * given.length + 2

theorem gives_operand (hg : g.ReadsNumerals) (given : List Lexeme) :
    (g.operand given).Gives fun e => FromNumerals e.leaves := by
  cases given with
  | nil =>
    rw [operand]
    exact Reply.gives_fail
  | cons lexeme given =>
    rw [operand]
    split
    · refine ((gives_expr hg _ given).andThen fun e _ _ he => ?_).taking
      exact Reply.gives_ok he
    split
    · rename_i heq
      rintro _ ⟨⟩
      exact fromNumerals_atom? hg heq
    · exact Reply.gives_fail.taking
    split
    · refine ((gives_expr hg 0 given).andThen fun e rest _ he => ?_).taking
      exact (Reply.gives_any _).andThen fun _ _ _ _ => Reply.gives_ok he
    · exact Reply.gives_fail
termination_by 5 * given.length + 1

theorem gives_climb (hg : g.ReadsNumerals) (min : Nat) (given : List Lexeme) {lhs : Expr}
    (hlhs : FromNumerals lhs.leaves) :
    (g.climb min lhs given).Gives fun e => FromNumerals e.leaves := by
  cases given with
  | nil =>
    rw [climb]
    exact Reply.gives_ok hlhs
  | cons lexeme given =>
    rw [climb]
    dsimp only
    split
    · split
      · exact Reply.gives_ok hlhs
      refine ((Reply.gives_any _).andThen fun field rest hle _ => ?_).taking
      refine (gives_arguments? hg rest).andThen fun call rest' hle' hcall => ?_
      refine gives_climb hg min rest' ?_
      cases call with
      | none => exact hlhs
      | some call => exact hlhs.append (.leavesAll (hcall call rfl))
    split
    · split
      · exact Reply.gives_ok hlhs
      refine ((gives_expr hg 0 given).andThen fun whenTrue rest hle ht => ?_).taking
      refine (Reply.gives_any _).andThen fun _ rest' hle' _ => ?_
      refine (gives_expr hg ternaryPower rest').andThen fun whenFalse rest'' hle'' hf => ?_
      exact gives_climb hg min rest'' (hlhs.append (ht.append hf))
    split
    · exact Reply.gives_ok hlhs
    · split
      · exact Reply.gives_ok hlhs
      refine ((gives_expr hg _ given).andThen fun rhs rest hle hrhs => ?_).taking
      exact gives_climb hg min rest (hlhs.append hrhs)
termination_by 5 * given.length + 1
decreasing_by all_goals subst_vars; simp only [List.length_cons]; omega

theorem gives_arguments? (hg : g.ReadsNumerals) (given : List Lexeme) :
    (g.arguments? given).Gives fun call => ∀ c, call = some c → ∀ e ∈ c.1, FromNumerals e.leaves := by
  cases given with
  | nil =>
    rw [arguments?]
    exact Reply.gives_ok (by simp)
  | cons opening given =>
    rw [arguments?]
    split
    · refine ((gives_arguments hg given).andThen fun args rest hle hargs => ?_).taking
      refine (Reply.gives_any _).andThen fun close _ _ _ => Reply.gives_ok ?_
      rintro _ ⟨⟩
      exact hargs
    · exact Reply.gives_ok (by simp)
termination_by 5 * given.length

theorem gives_arguments (hg : g.ReadsNumerals) (given : List Lexeme) :
    (g.arguments given).Gives fun args => ∀ e ∈ args, FromNumerals e.leaves := by
  rw [arguments]
  split
  · exact Reply.gives_ok (by simp)
  · exact gives_argumentsOnto hg given (by simp)
termination_by 5 * given.length + 4

theorem gives_argumentsOnto (hg : g.ReadsNumerals) (given : List Lexeme) {out : List Expr}
    (hout : ∀ e ∈ out, FromNumerals e.leaves) :
    (g.argumentsOnto out given).Gives fun args => ∀ e ∈ args, FromNumerals e.leaves := by
  rw [argumentsOnto]
  refine (gives_expr hg 0 given).andThen fun arg rest hle harg => ?_
  have hmore : ∀ e ∈ arg :: out, FromNumerals e.leaves := List.forall_mem_cons.2 ⟨harg, hout⟩
  have hdone : ∀ e ∈ (arg :: out).reverse, FromNumerals e.leaves :=
    fun e he => hmore e (List.mem_reverse.1 he)
  cases rest with
  | nil => exact Reply.gives_ok hdone
  | cons lexeme rest =>
    dsimp only
    split
    · exact (gives_argumentsOnto hg rest hmore).taking
    · exact Reply.gives_ok hdone
termination_by 5 * given.length + 3

end

/-! ## Holes -/

theorem fromNumerals_hole {parse : Place → List Char → Standalone}
    (hparse : ∀ place text e, parse place text = .ok e → FromNumerals e.leaves) (place : Place)
    (text : List Char) : FromNumerals (hole parse place text).1.leaves := by
  have hnull : ∀ span, FromNumerals (Expr.leaves (.literal .null span)) := by
    simp [FromNumerals, Expr.leaves]
  unfold hole
  dsimp only
  split
  · exact hnull _
  · dsimp only [Segment.leaves]
    split
    · rename_i heq
      exact hparse _ _ _ heq
    · exact hnull _

theorem fromNumerals_standalone {interpolate : Token → Interpolation}
    (h : ∀ token, FromNumerals (Segment.leavesAll (interpolate token).segments)) {place : Place}
    {text : List Char} {e : Expr} (he : standalone interpolate place text = .ok e) :
    FromNumerals e.leaves := by
  have hg : ReadsNumerals ⟨(Lexemes.ofChars place text).finish, interpolate⟩ := h
  have hresult := (standalone_eq_ok.1 he).1.1
  exact gives_expr hg 0 _ e hresult

theorem fromNumerals_interpolation (depth : Nat) (token : Token) :
    FromNumerals (Segment.leavesAll (interpolation depth token).segments) := by
  induction depth generalizing token with
  | zero => exact .nil
  | succ depth ih =>
    rw [interpolation_succ, segments_eq]
    refine .segments (List.forall_mem_map.2 fun p _ => ?_)
    cases p with
    | text cs => exact .nil
    | hole place text => exact fromNumerals_hole (fun _ _ _ => fromNumerals_standalone ih) place text

end Grammar

/-- The floats in an expression that is parsed are what numerals are read as. -/
theorem Expr.fromNumerals_parse {text : String} {e : Expr} (h : parse text = .ok e) :
    FromNumerals e.leaves :=
  Grammar.fromNumerals_standalone (Grammar.fromNumerals_interpolation _) h

/-! ## Units -/

def Stmt.leaves : Stmt → List Expr
  | .letBinding _ value _ => value.leaves
  | .ret value _          => value.leaves

def FunctionDecl.leaves (f : FunctionDecl) : List Expr := f.body.stmts.flatMap Stmt.leaves

def TypeDecl.leaves (t : TypeDecl) : List Expr := t.functions.flatMap FunctionDecl.leaves

def ModuleDecl.leaves (m : ModuleDecl) : List Expr := m.types.flatMap TypeDecl.leaves

/-- The names and literals of all expressions in the unit. -/
def SourceUnit.leaves (u : SourceUnit) : List Expr := u.modules.flatMap ModuleDecl.leaves

theorem FromNumerals.flatMap {α : Type} {f : α → List Expr} {as : List α}
    (h : ∀ a ∈ as, FromNumerals (f a)) : FromNumerals (as.flatMap f) := by
  intro x span hmem
  obtain ⟨a, ha, hmem⟩ := List.mem_flatMap.1 hmem
  exact h a ha x span hmem

namespace Parse

variable {α β : Type} {P : α → Prop} {Q : β → Prop}

/-- What the parser gives, wherever it does, has the property. -/
def Gives (p : Parse α) (P : α → Prop) : Prop :=
  ∀ finish given, Reply.Gives (p finish given) P

theorem gives_pure {a : α} (h : P a) : (pure a : Parse α).Gives P :=
  fun _ _ => Reply.gives_ok h

theorem gives_fail {e : ParseError} : (fail e : Parse α).Gives P :=
  fun _ _ => Reply.gives_fail

theorem gives_any (p : Parse α) : p.Gives fun _ => True :=
  fun finish given => Reply.gives_any (p finish given)

theorem Gives.bind {p : Parse α} {next : α → Parse β} (h : p.Gives P)
    (hnext : ∀ a, P a → (next a).Gives Q) : (p >>= next).Gives Q :=
  fun finish given => (h finish given).andThen fun a rest _ ha => hnext a ha finish rest

theorem gives_manyOnto {more : TokenKind → Bool} {item : Token → Parse α} {recover : Parse PUnit}
    (hitem : ∀ token, (item token).Gives P) {finish : Place} {out : List α} (hout : ∀ a ∈ out, P a)
    {recorded : List ParseError} {outer given : List Lexeme}
    (h : given.length ≤ outer.length) :
    (manyOnto more item recover finish out recorded given h).Gives fun as => ∀ a ∈ as, P a := by
  have hdone : ∀ a ∈ out.reverse, P a := fun a ha => hout a (List.mem_reverse.1 ha)
  cases given with
  | nil =>
    rw [manyOnto]
    rintro _ ⟨⟩
    exact hdone
  | cons lexeme rest =>
    rw [manyOnto]
    split
    · have hreply := hitem lexeme.token finish rest
      split
      · rename_i a rest' found hle heq
        have ha : P a := by
          unfold orRecover at heq
          split at heq
          · rename_i hresult
            cases heq
            exact hreply _ (congrArg Reply.result hresult)
          · cases heq
        exact gives_manyOnto hitem (List.forall_mem_cons.2 ⟨ha, hout⟩) _
      · -- a fault leaves the items as they are
        exact gives_manyOnto hitem hout _
    · rintro _ ⟨⟩
      exact hdone
termination_by given.length
decreasing_by all_goals subst_vars; simp only [List.length_cons]; omega

theorem gives_many {more : TokenKind → Bool} {item : Token → Parse α} {recover : Parse PUnit}
    (hitem : ∀ token, (item token).Gives P) :
    (many more item recover).Gives fun as => ∀ a ∈ as, P a :=
  fun _ _ => gives_manyOnto hitem (by simp) _

theorem gives_declaration (kind : TokenKind) {body : Token → Parse α} {token : Token}
    (h : (body token).Gives P) : (declaration kind body token).Gives P := by
  unfold declaration
  split
  · exact h
  · exact gives_fail

end Parse

namespace Grammar

open Parse

variable {g : Grammar}

theorem gives_statement (hg : g.ReadsNumerals) (token : Token) :
    (g.statement token).Gives fun s => FromNumerals s.leaves := by
  have hvalue : g.value.Gives fun e => FromNumerals e.leaves := fun _ given => gives_expr hg 0 given
  unfold statement
  split
  · refine (gives_any _).bind fun name _ => (gives_any _).bind fun _ _ => ?_
    exact hvalue.bind fun e he => (gives_any _).bind fun close _ => gives_pure he
  · exact hvalue.bind fun e he => (gives_any _).bind fun close _ => gives_pure he
  · exact gives_fail

theorem gives_functionDecl (hg : g.ReadsNumerals) (start : Token) :
    (g.functionDecl start).Gives fun f => FromNumerals f.leaves := by
  have hblock : g.block.Gives fun b => ∀ s ∈ b.stmts, FromNumerals s.leaves := by
    refine (gives_any _).bind fun opening _ => ?_
    refine (gives_many (gives_statement hg)).bind fun stmts hstmts => ?_
    exact (gives_any _).bind fun close _ => gives_pure hstmts
  refine (gives_any _).bind fun name _ => (gives_any _).bind fun _ _ => ?_
  refine (gives_any _).bind fun params _ => (gives_any _).bind fun _ _ => ?_
  refine (gives_any _).bind fun _ _ => (gives_any _).bind fun result _ => ?_
  exact hblock.bind fun body hbody => gives_pure (.flatMap hbody)

/-- A name with declarations between braces. -/
theorem gives_braced {α β : Type} {P : α → Prop} {Q : β → Prop} {kind : TokenKind}
    {body : Token → Parse α} {stop : List TokenKind} {build : Ident → List α → Span → β}
    {start : Token} (hbody : ∀ token, (body token).Gives P)
    (hbuild : ∀ name items s, (∀ a ∈ items, P a) → Q (build name items s)) :
    Parse.Gives (do
      let name ← ident
      let _ ← expect .leftBrace
      let items ← many (· != .rightBrace) (declaration kind body) (synchronize stop)
      let close ← expect .rightBrace
      return build name items (start.span.merge close.span)) Q := by
  refine (gives_any _).bind fun name _ => (gives_any _).bind fun _ _ => ?_
  refine (gives_many fun token => gives_declaration kind (hbody token)).bind fun items hitems => ?_
  exact (gives_any _).bind fun close _ => gives_pure (hbuild name items _ hitems)

theorem gives_moduleDecl (hg : g.ReadsNumerals) (start : Token) :
    (g.moduleDecl start).Gives fun m => FromNumerals m.leaves := by
  have htype : ∀ token, (g.typeDecl token).Gives fun t => FromNumerals t.leaves :=
    fun token => gives_braced (gives_functionDecl hg) fun _ _ _ h => .flatMap h
  exact gives_braced htype fun _ _ _ h => .flatMap h

end Grammar

/-- The floats in a unit that is parsed are what numerals are read as. -/
theorem SourceUnit.fromNumerals_parse {text : String} {u : SourceUnit} (h : parse text = .ok u) :
    FromNumerals u.leaves := by
  have hdeclarations : Parse.Gives
      (Grammar.declarations (.ofText text.length (Lexemes.ofChars .first text.toList).finish))
      fun parts => ∀ m ∈ parts.2.2, FromNumerals m.leaves := by
    refine (Parse.gives_any _).bind fun edition _ => (Parse.gives_any _).bind fun uses _ => ?_
    refine (Parse.gives_many fun token => Parse.gives_declaration _ ?_).bind
      fun modules hmodules => Parse.gives_pure hmodules
    exact Grammar.gives_moduleDecl (g := .ofText text.length _)
      (Grammar.fromNumerals_interpolation _) token
  have hgives := hdeclarations (Lexemes.ofChars .first text.toList).finish
    (Lexemes.ofChars .first text.toList).lexemes
  unfold parse at h
  dsimp only at h
  split at h
  · rename_i edition uses modules heq _
    cases h
    exact .flatMap (hgives _ heq)
  · cases h
  · cases h

end TypedTemplate
