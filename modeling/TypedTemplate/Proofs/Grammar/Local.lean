-- SUMMARY: An expression is read from its own lexemes, whatever stands behind the end of it.
import TypedTemplate.Proofs.Grammar.Expression

/-!
# Local reading

The expression parser looks at one lexeme behind what it takes. So what it takes it would take
again in front of anything else, if that begins with the same lexeme, or with a semicolon, or
is nothing at all. An expression is thus an expression by itself. Nor does it matter where the unit
ends, which only the error for a missing token says.
-/

namespace TypedTemplate

/-- A semicolon comes next, if anything does. -/
def AtEnd (given : List Lexeme) : Prop :=
  ∀ lexeme ∈ given.head?, lexeme.token.kind = .semicolon

/-- An expression that ends before the one list also ends before the other. -/
inductive Alike : List Lexeme → List Lexeme → Prop where
  | same {lexeme : Lexeme} {rest tail : List Lexeme} : Alike (lexeme :: rest) (lexeme :: tail)
  | ends {rest tail : List Lexeme} : AtEnd tail → Alike rest tail

section

variable {given mid rest tail : List Lexeme} {lexeme : Lexeme}

theorem AtEnd.forall {P : TokenKind → Prop} (h : AtEnd given) (hP : P .semicolon) :
    ∀ lexeme ∈ given.head?, P lexeme.token.kind :=
  fun lexeme hlexeme => h lexeme hlexeme ▸ hP

/-- What is true of the kind of the next lexeme, if it is also true of a semicolon, stays true. -/
theorem Alike.forall {P : TokenKind → Prop} (h : Alike rest tail) (hP : P .semicolon)
    (hrest : ∀ lexeme ∈ rest.head?, P lexeme.token.kind) :
    ∀ lexeme ∈ tail.head?, P lexeme.token.kind := by
  cases h with
  | same => exact hrest
  | ends htail => exact htail.forall hP

theorem Alike.stops {min : Nat} (h : Alike rest tail) (hrest : Stops min rest) : Stops min tail :=
  h.forall (P := fun kind => ∀ power ∈ kind.power?, power < min)
    (by simp [TokenKind.power?, BinaryOp.ofToken?]) hrest

theorem Alike.append (h : Alike rest tail) (used : List Lexeme) :
    Alike (used ++ rest) (used ++ tail) := by
  cases used with
  | nil => exact h
  | cons lexeme used => exact .same

/-! ## Local relations -/

/-- The relation holds of the two lists through the lexemes between them only. -/
def Locally (R : List Lexeme → List Lexeme → Prop) (given rest : List Lexeme) : Prop :=
  ∃ used, given = used ++ rest ∧ ∀ tail, Alike rest tail → R (used ++ tail) tail

namespace Locally

variable {R S T : List Lexeme → List Lexeme → Prop}

theorem refl (h : ∀ tail, Alike given tail → R tail tail) : Locally R given given :=
  ⟨[], rfl, h⟩

theorem cons (h : Locally R given rest)
    (hstep : ∀ {given rest}, R given rest → S (lexeme :: given) rest) :
    Locally S (lexeme :: given) rest := by
  obtain ⟨used, rfl, hused⟩ := h
  exact ⟨lexeme :: used, rfl, fun tail htail => hstep (hused tail htail)⟩

theorem trans (h : Locally R given mid) (h' : Locally S mid rest)
    (hstep : ∀ {given mid rest}, R given mid → S mid rest → T given rest) :
    Locally T given rest := by
  obtain ⟨used, rfl, hused⟩ := h
  obtain ⟨used', rfl, hused'⟩ := h'
  refine ⟨used ++ used', by simp, fun tail htail => ?_⟩
  rw [List.append_assoc]
  exact hstep (hused _ (htail.append used')) (hused' tail htail)

theorem imp (h : Locally R given rest) (hstep : ∀ {given rest}, R given rest → S given rest) :
    Locally S given rest := by
  obtain ⟨used, hgiven, hused⟩ := h
  exact ⟨used, hgiven, fun tail htail => hstep (hused tail htail)⟩

end Locally

end

namespace Grammar

variable {g k : Grammar} {finish : Place}

theorem local_ident (finish' : Place) {given rest : List Lexeme} {x : Ident}
    (h : Parse.ident.Yields finish given x rest) :
    Locally (fun given rest => Parse.ident.Yields finish' given x rest) given rest := by
  obtain ⟨lexeme, rfl, hkind, hx⟩ := Parse.yields_ident.1 h
  refine (Locally.refl (R := Eq) fun tail _ => rfl).cons ?_
  rintro given _ rfl
  exact Parse.yields_ident.2 ⟨lexeme, rfl, hkind, hx⟩

theorem local_expect (finish' : Place) {given rest : List Lexeme} {kind : TokenKind}
    {token : Token} (hkind : kind ≠ .eof) (h : (Parse.expect kind).Yields finish given token rest) :
    Locally (fun given rest => (Parse.expect kind).Yields finish' given token rest) given rest := by
  obtain ⟨lexeme, rfl, htoken, hlexeme⟩ := (Parse.yields_expect hkind).1 h
  refine (Locally.refl (R := Eq) fun tail _ => rfl).cons ?_
  rintro given _ rfl
  exact (Parse.yields_expect hkind).2 ⟨lexeme, rfl, htoken, hlexeme⟩

/-- The operand that a token makes does not depend on where the unit ends. -/
theorem atom?_congr (hg : k.interpolate = g.interpolate) (token : Token) :
    k.atom? token = g.atom? token := by
  unfold atom?
  rw [hg]

/-- The arguments of a call are read up to the parenthesis that closes, which is needed here, since
there may be none of them. -/
def ReadsArguments (g : Grammar) (args : List Expr) (close : Token) (given rest : List Lexeme) :
    Prop :=
  ∃ mid, (g.arguments given).Yields args mid ∧
    (Parse.expect .rightParen).Yields g.finish mid close rest

mutual

theorem local_expr (hg : k.interpolate = g.interpolate) {given rest : List Lexeme} {min : Nat}
    {e : Expr} (h : (g.expr min given).Yields e rest) :
    Locally (fun given rest => (k.expr min given).Yields e rest) given rest := by
  obtain ⟨lhs, mid, hoperand, hclimb⟩ := yields_expr.1 h
  have hle := hoperand.length_le
  exact (local_operand hg hoperand).trans (local_climb hg hclimb) expr_of_operand
termination_by 6 * given.length + 3

theorem local_operand (hg : k.interpolate = g.interpolate) {given rest : List Lexeme} {e : Expr}
    (h : (g.operand given).Yields e rest) :
    Locally (fun given rest => (k.operand given).Yields e rest) given rest := by
  cases yields_operand.1 h with
  | unary hmark he => exact (local_expr hg he).cons fun he => yields_operand.2 (.unary hmark he)
  | atom hnone hatom =>
    refine (Locally.refl (R := Eq) fun tail _ => rfl).cons ?_
    rintro given _ rfl
    exact yields_operand.2 (.atom hnone ((atom?_congr hg _).trans hatom))
  | paren hopen he hclose =>
    have hclosing := local_expect k.finish (by decide) hclose
    refine ((local_expr hg he).trans hclosing ?_).cons fun h => h
    exact fun he hclose => yields_operand.2 (.paren hopen he hclose)
termination_by 6 * given.length + 1
decreasing_by all_goals subst_vars; simp only [List.length_cons]; omega

theorem local_climb (hg : k.interpolate = g.interpolate) {given rest : List Lexeme} {min : Nat}
    {lhs e : Expr} (h : (g.climb min lhs given).Yields e rest) :
    Locally (fun given rest => (k.climb min lhs given).Yields e rest) given rest := by
  rcases climb_yields h with ⟨hstops, rfl, rfl⟩ | ⟨lhs', mid, hstep, hrest⟩
  · -- Nothing is taken, for what comes next binds no stronger than `min`: so it is before `tail`.
    refine Locally.refl fun tail htail => ?_
    rw [climb_of_stops _ (htail.stops hstops)]
    exact Reply.yields_ok.2 ⟨rfl, rfl⟩
  · have hlt := hstep.length_lt
    exact (local_extends hg hstep).trans (local_climb hg hrest) Extends.climb
termination_by 6 * given.length + 2

theorem local_extends (hg : k.interpolate = g.interpolate) {given rest : List Lexeme} {min : Nat}
    {lhs e : Expr} (h : g.Extends min lhs given e rest) :
    Locally (fun given rest => k.Extends min lhs given e rest) given rest := by
  cases h with
  | @member dot given mid rest field hdot hmin hfield hcall =>
    have hle := hfield.length_le
    refine ((local_ident k.finish hfield).trans (local_arguments? hg hcall) ?_).cons fun h => h
    exact Extends.member hdot hmin
  | @call dot given mid rest method args closing hdot hmin hmethod hcall =>
    have hle := hmethod.length_le
    refine ((local_ident k.finish hmethod).trans (local_arguments? hg hcall) ?_).cons fun h => h
    exact Extends.call hdot hmin
  | @ternary question given mid mid' rest colon t f hquestion hmin ht hcolon hf =>
    have hle := Nat.le_trans hcolon.length_le ht.length_le
    have hbranch := (local_expect k.finish (by decide) hcolon).trans (local_expr hg hf)
      (T := fun given rest => ∃ mid, (Parse.expect .colon).Yields k.finish given colon mid ∧
        (k.expr ternaryPower mid).Yields f rest) fun hcolon hf => ⟨_, hcolon, hf⟩
    refine ((local_expr hg ht).trans hbranch ?_).cons fun h => h
    rintro given mid rest ht ⟨mid', hcolon, hf⟩
    exact Extends.ternary hquestion hmin ht hcolon hf
  | @binary mark given rest op rhs hmark hmin hrhs =>
    exact (local_expr hg hrhs).cons (Extends.binary hmark hmin)
termination_by 6 * given.length + 1
decreasing_by all_goals subst_vars; simp only [List.length_cons]; omega

theorem local_arguments? (hg : k.interpolate = g.interpolate) {given rest : List Lexeme}
    {call : Option (List Expr × Span)} (h : (g.arguments? given).Yields call rest) :
    Locally (fun given rest => (k.arguments? given).Yields call rest) given rest := by
  cases yields_arguments?.1 h with
  | none hclosed =>
    refine Locally.refl fun tail htail => yields_arguments?.2 (.none ?_)
    exact htail.forall (P := (· ≠ .leftParen)) (by decide) hclosed
  | some hopen hargs hclose =>
    refine (local_arguments hg ⟨_, hargs, hclose⟩).cons ?_
    rintro given rest ⟨mid, hargs, hclose⟩
    exact yields_arguments?.2 (.some hopen hargs hclose)
termination_by 6 * given.length
decreasing_by all_goals subst_vars; simp only [List.length_cons]; omega

theorem local_arguments (hg : k.interpolate = g.interpolate) {given rest : List Lexeme}
    {args : List Expr} {close : Token} (h : g.ReadsArguments args close given rest) :
    Locally (k.ReadsArguments args close) given rest := by
  obtain ⟨mid, hargs, hclose⟩ := h
  cases yields_arguments.1 hargs with
  | none =>
    refine (local_expect k.finish (by decide) hclose).imp ?_
    intro given rest hclose
    refine ⟨given, yields_arguments.2 (.none ?_), hclose⟩
    obtain ⟨lexeme, rfl, rfl, hkind⟩ := (Parse.yields_expect (by decide)).1 hclose
    simpa using hkind
  | some hargs =>
    refine (local_argumentsOnto hg hargs).trans (local_expect k.finish (by decide) hclose) ?_
    exact fun hargs hclose => ⟨_, yields_arguments.2 (.some hargs), hclose⟩
termination_by 6 * given.length + 5

theorem local_argumentsOnto (hg : k.interpolate = g.interpolate) {given rest : List Lexeme}
    {out args : List Expr} (h : (g.argumentsOnto out given).Yields args rest) :
    Locally (fun given rest => (k.argumentsOnto out given).Yields args rest) given rest := by
  cases yields_argumentsOnto.1 h with
  | last harg hrest =>
    obtain ⟨used, hgiven, hused⟩ := local_expr hg harg
    refine ⟨used, hgiven, fun tail htail => yields_argumentsOnto.2 (.last (hused tail htail) ?_)⟩
    exact htail.forall (P := (· ≠ .comma)) (by decide) hrest
  | @more mid _ comma arg _ harg hcomma hmore =>
    have hlt : mid.length < given.length := harg.length_le
    have hmore : Locally (fun given rest => ∃ mid, given = comma :: mid ∧
        (k.argumentsOnto (arg :: out) mid).Yields args rest) (comma :: mid) rest :=
      (local_argumentsOnto hg hmore).cons fun h => ⟨_, rfl, h⟩
    refine (local_expr hg harg).trans hmore ?_
    rintro given _ rest harg ⟨mid, rfl, hmore⟩
    exact yields_argumentsOnto.2 (.more harg hcomma hmore)
termination_by 6 * given.length + 4

end

/-- What is read as an expression is read as it by itself. -/
theorem exists_expr_alone (hg : k.interpolate = g.interpolate) {given rest : List Lexeme}
    {min : Nat} {e : Expr} (h : (g.expr min given).Yields e rest) :
    ∃ used, given = used ++ rest ∧ (k.expr min used).Yields e [] := by
  obtain ⟨used, hgiven, hused⟩ := local_expr hg h
  have halone := hused [] (.ends (by simp [AtEnd]))
  rw [List.append_nil] at halone
  exact ⟨used, hgiven, halone⟩

/-- Lexemes that are an expression by themselves are read as it before a semicolon. -/
theorem expr_of_semicolon {used : List Lexeme} {close : Lexeme} {e : Expr}
    (hclose : close.token.kind = .semicolon) (h : (g.expr 0 used).Yields e [])
    (rest : List Lexeme) :
    (g.expr 0 (used ++ close :: rest)).Yields e (close :: rest) := by
  obtain ⟨used', hused', hlocal⟩ := local_expr (k := g) rfl h
  rw [List.append_nil] at hused'
  subst hused'
  exact hlocal _ (.ends (by simpa [AtEnd] using hclose))

end Grammar

end TypedTemplate
