-- SUMMARY: The lexemes of an expression, cut into those of its parts, each of them read by itself.
import TypedTemplate.Proofs.Grammar.Local
import TypedTemplate.Proofs.Token.Line

/-!
# Parts of expressions

The climb asks less and less of the operators that come next the further out it is, and what it
has on its left is an expression that has been read. So every part of an expression is read as it is
from its own lexemes, whatever was asked of it inside the whole. How the lexemes of the whole are
made up of those of the parts depends on the kind of the expression only.
-/

namespace TypedTemplate

/-- The expressions that an expression is made of, in the order of the text. -/
def Expr.children : Expr → List Expr
  | .literal _ _             => []
  | .name _                  => []
  | .member object _ _       => [object]
  | .call receiver _ args _  => receiver :: args
  | .unary _ e _             => [e]
  | .binary _ left right _   => [left, right]
  | .ternary e t f _         => [e, t, f]
  | .interpolated segments _ => segments.flatMap fun
    | .text _     => []
    | .hole e _ _ => [e]
  | .paren e _               => [e]

namespace Grammar

variable {g k : Grammar} {given mid rest own : List Lexeme} {e lhs : Expr}

/-! ## Expressions by themselves -/

/-- The lexemes are the expression, all of them and by themselves. -/
def Alone (g : Grammar) (own : List Lexeme) (e : Expr) : Prop := (g.expr 0 own).Yields e []

theorem Extends.zero {min : Nat} {lhs' : Expr} (h : g.Extends min lhs given lhs' mid) :
    g.Extends 0 lhs given lhs' mid := by
  cases h with
  | member hdot _ hfield hcall => exact .member hdot (Nat.zero_le _) hfield hcall
  | call hdot _ hmethod hcall => exact .call hdot (Nat.zero_le _) hmethod hcall
  | ternary hquestion _ ht hcolon hf => exact .ternary hquestion (Nat.zero_le _) ht hcolon hf
  | binary hmark _ hrhs => exact .binary hmark (Nat.zero_le _) hrhs

/-- At the end of the lexemes it does not matter how tightly operators had to bind. -/
theorem climb_zero {min : Nat} {given : List Lexeme} {lhs : Expr}
    (h : (g.climb min lhs given).Yields e []) :
    (g.climb 0 lhs given).Yields e [] := by
  rcases climb_yields h with ⟨-, rfl, rfl⟩ | ⟨lhs', mid, hstep, hrest⟩
  · rw [climb_of_stops lhs stops_nil]
    exact Reply.yields_ok.2 ⟨rfl, rfl⟩
  · have hlt := hstep.length_lt
    exact hstep.zero.climb (climb_zero hrest)
termination_by given.length

/-- What is read as an operand for some operator is an expression by itself. -/
theorem exists_alone (hg : k.interpolate = g.interpolate) {min : Nat}
    (h : (g.expr min given).Yields e rest) : ∃ own, given = own ++ rest ∧ k.Alone own e := by
  obtain ⟨own, hgiven, hown⟩ := exists_expr_alone hg h
  obtain ⟨lhs, mid, hlhs, hclimb⟩ := yields_expr.1 hown
  exact ⟨own, hgiven, expr_of_operand hlhs (climb_zero hclimb)⟩

/-- It does not matter where the unit ends. -/
theorem Alone.congr (hg : k.interpolate = g.interpolate) (h : g.Alone own e) : k.Alone own e := by
  obtain ⟨own', hown, h'⟩ := exists_alone hg h
  rw [List.append_nil] at hown
  exact hown ▸ h'

/-- Only the tokens count, not what was skipped before them. -/
theorem Alone.of_token {lexeme lexeme' : Lexeme} (h : g.Alone (lexeme :: own) e)
    (htoken : lexeme'.token = lexeme.token) : g.Alone (lexeme' :: own) e := by
  obtain ⟨lhs, mid, hlhs, hclimb⟩ := yields_expr.1 h
  refine expr_of_operand (yields_operand.2 ?_) hclimb
  cases yields_operand.1 hlhs with
  | unary hmark he =>
    rw [← htoken] at hmark ⊢
    exact .unary hmark he
  | atom hnone hatom =>
    rw [← htoken] at hnone hatom
    exact .atom hnone hatom
  | paren hopen he hclose =>
    rw [← htoken] at hopen ⊢
    exact .paren hopen he hclose

theorem Alone.ne_nil (h : g.Alone own e) : own ≠ [] := by
  rintro rfl
  obtain ⟨lhs, mid, hlhs, -⟩ := yields_expr.1 h
  cases yields_operand.1 hlhs

/-! ## How an expression is made of its parts -/

/-- Somewhere among the lexemes are those of the expression. -/
def Has (g : Grammar) (given : List Lexeme) (e : Expr) : Prop :=
  ∃ before own after, given = before ++ own ++ after ∧ g.Alone own e

theorem Alone.has (h : g.Alone own e) (before after : List Lexeme) :
    g.Has (before ++ own ++ after) e :=
  ⟨before, own, after, rfl, h⟩

theorem Has.append (h : g.Has given e) (before after : List Lexeme) :
    g.Has (before ++ given ++ after) e := by
  obtain ⟨before', own, after', rfl, hown⟩ := h
  exact ⟨before ++ before', own, after' ++ after, by simp, hown⟩

/-- The lexemes are the expression, and those of its parts are among them. -/
inductive Made (g : Grammar) : (own : List Lexeme) → (e : Expr) → Prop where
  | atom {lexeme : Lexeme} {e : Expr} :
      g.atom? lexeme.token = some (.ok (e, [])) → Made g [lexeme] e
  | unary {mark : Lexeme} {part : List Lexeme} {op : UnaryOp} {e : Expr} :
      g.Alone part e → Made g (mark :: part) (.unary op e (mark.token.span.merge e.span))
  | paren {opening closing : Lexeme} {part : List Lexeme} {e : Expr} :
      g.Alone part e → Made g (opening :: part ++ [closing])
        (.paren e (opening.token.span.merge closing.token.span))
  | member {dot name : Lexeme} {part : List Lexeme} {object : Expr} {x : String} :
      g.Alone part object → Made g (part ++ [dot, name])
        (.member object ⟨x, name.token.span⟩ (object.span.merge name.token.span))
  | call {part between : List Lexeme} {closing : Lexeme} {receiver : Expr} {method : Ident}
      {args : List Expr} :
      g.Alone part receiver → (∀ arg ∈ args, g.Has between arg) →
        Made g (part ++ between ++ [closing])
          (.call receiver method args (receiver.span.merge closing.token.span))
  | ternary {question colon : Lexeme} {part part' part'' : List Lexeme} {e t f : Expr} :
      g.Alone part e → g.Alone part' t → g.Alone part'' f →
        Made g (part ++ (question :: part' ++ [colon]) ++ part'')
          (.ternary e t f (e.span.merge f.span))
  | binary {mark : Lexeme} {part part' : List Lexeme} {op : BinaryOp} {left right : Expr} :
      g.Alone part left → g.Alone part' right → Made g (part ++ [mark] ++ part')
        (.binary op left right (left.span.merge right.span))

theorem operand_made (h : (g.operand given).Yields e rest) :
    ∃ own, given = own ++ rest ∧ g.Made own e := by
  cases yields_operand.1 h with
  | @unary mark _ _ _ _ _ he =>
    obtain ⟨part, rfl, hpart⟩ := exists_alone rfl he
    exact ⟨mark :: part, rfl, .unary hpart⟩
  | @atom lexeme _ _ _ hatom => exact ⟨[lexeme], rfl, .atom hatom⟩
  | @paren opening _ _ _ _ _ _ he hclose =>
    obtain ⟨closing, rfl, rfl, -⟩ := (Parse.yields_expect (by decide)).1 hclose
    obtain ⟨part, rfl, hpart⟩ := exists_alone rfl he
    exact ⟨opening :: part ++ [closing], by simp, .paren hpart⟩

theorem argumentsOnto_has {out args : List Expr} {given rest : List Lexeme}
    (h : (g.argumentsOnto out given).Yields args rest) :
    ∃ used more, given = used ++ rest ∧ args = out.reverse ++ more ∧
      ∀ arg ∈ more, g.Has used arg := by
  cases yields_argumentsOnto.1 h with
  | @last _ arg harg =>
    obtain ⟨own, rfl, hown⟩ := exists_alone (k := g) rfl harg
    exact ⟨own, [arg], rfl, by simp, by simpa using hown.has [] []⟩
  | @more mid _ comma arg _ harg hcomma hmore =>
    have hlt : mid.length < given.length := harg.length_le
    obtain ⟨own, rfl, hown⟩ := exists_alone (k := g) rfl harg
    obtain ⟨used, more, rfl, rfl, hhas⟩ := argumentsOnto_has hmore
    refine ⟨own ++ [comma] ++ used, arg :: more, by simp, by simp, ?_⟩
    refine List.forall_mem_cons.2 ⟨by simpa using hown.has [] (comma :: used), ?_⟩
    intro ark hark
    simpa using (hhas ark hark).append (own ++ [comma]) []
termination_by given.length

theorem arguments?_has {args : List Expr} {close : Span}
    (h : (g.arguments? given).Yields (some (args, close)) rest) :
    ∃ between closing, given = between ++ closing :: rest ∧ close = closing.token.span ∧
      ∀ arg ∈ args, g.Has between arg := by
  cases yields_arguments?.1 h with
  | @some opening _ _ _ args close hopen hargs hclose =>
    obtain ⟨closing, rfl, rfl, -⟩ := (Parse.yields_expect (by decide)).1 hclose
    cases yields_arguments.1 hargs with
    | none => exact ⟨[opening], closing, rfl, rfl, by simp⟩
    | some hargs =>
      obtain ⟨used, more, rfl, rfl, hmore⟩ := argumentsOnto_has hargs
      refine ⟨opening :: used, closing, rfl, rfl, fun arg harg => ?_⟩
      simpa using (hmore arg (by simpa using harg)).append [opening] []

/-! ## Climbing -/

/-- The lexemes `seen` have been read as `lhs`, from which the climb goes on before `given` and
before whatever begins alike. -/
def Sees (g : Grammar) (seen : List Lexeme) (lhs : Expr) (given : List Lexeme) : Prop :=
  ∀ tail, Alike given tail → ∀ out rest,
    (g.climb 0 lhs tail).Yields out rest → (g.expr 0 (seen ++ tail)).Yields out rest

/-- What has been read is an expression by itself. -/
theorem Sees.alone {seen : List Lexeme} (h : g.Sees seen lhs given) : g.Alone seen lhs := by
  have halone := h [] (.ends (by simp [AtEnd])) lhs []
  rw [List.append_nil, climb_of_stops lhs stops_nil] at halone
  exact halone (Reply.yields_ok.2 ⟨rfl, rfl⟩)

/-- One step of the climb makes an expression of what has been read and the lexemes of the step. -/
theorem Extends.made {min : Nat} {seen : List Lexeme} {lhs' : Expr} (hseen : g.Alone seen lhs)
    (h : g.Extends min lhs given lhs' mid) :
    ∃ used, given = used ++ mid ∧ g.Made (seen ++ used) lhs' := by
  cases h with
  | @member dot _ _ _ field _ _ hfield hcall =>
    obtain ⟨name, rfl, -, rfl⟩ := Parse.yields_ident.1 hfield
    cases yields_arguments?.1 hcall
    exact ⟨[dot, name], rfl, .member hseen⟩
  | @call dot _ _ _ method args closing _ _ hmethod hcall =>
    obtain ⟨name, rfl, -, rfl⟩ := Parse.yields_ident.1 hmethod
    obtain ⟨between, closing, rfl, rfl, hargs⟩ := arguments?_has hcall
    refine ⟨dot :: name :: between ++ [closing], by simp, ?_⟩
    rw [← List.append_assoc]
    refine .call hseen fun arg harg => ?_
    simpa using (hargs arg harg).append [dot, name] []
  | @ternary question _ _ _ _ colon t f _ _ ht hcolon hf =>
    obtain ⟨part', rfl, hpart'⟩ := exists_alone (k := g) rfl ht
    obtain ⟨colon, rfl, -, -⟩ := (Parse.yields_expect (by decide)).1 hcolon
    obtain ⟨part'', rfl, hpart''⟩ := exists_alone (k := g) rfl hf
    refine ⟨question :: part' ++ [colon] ++ part'', by simp, ?_⟩
    rw [← List.append_assoc]
    exact .ternary hseen hpart' hpart''
  | @binary mark _ _ op rhs _ _ hrhs =>
    obtain ⟨part', rfl, hpart'⟩ := exists_alone (k := g) rfl hrhs
    refine ⟨[mark] ++ part', rfl, ?_⟩
    rw [← List.append_assoc]
    exact .binary hseen hpart'

theorem Sees.step {seen : List Lexeme} {lhs' : Expr} (h : g.Sees seen lhs given)
    (hstep : g.Extends 0 lhs given lhs' mid) :
    ∃ used, given = used ++ mid ∧ g.Sees (seen ++ used) lhs' mid ∧ g.Made (seen ++ used) lhs' := by
  obtain ⟨used, rfl, hmade⟩ := hstep.made h.alone
  obtain ⟨used', hused, hlocal⟩ := local_extends (k := g) rfl hstep
  obtain rfl : used = used' := List.append_cancel_right hused
  refine ⟨used, rfl, fun tail htail out rest hout => ?_, hmade⟩
  rw [List.append_assoc]
  exact h (used ++ tail) (htail.append used) out rest ((hlocal tail htail).climb hout)

theorem climb_made {seen given : List Lexeme} {lhs : Expr} (hseen : g.Sees seen lhs given)
    (hmade : g.Made seen lhs) (h : (g.climb 0 lhs given).Yields e rest) :
    ∃ used, given = used ++ rest ∧ g.Made (seen ++ used) e := by
  rcases climb_yields h with ⟨-, rfl, rfl⟩ | ⟨lhs', mid, hstep, hrest⟩
  · exact ⟨[], rfl, by rwa [List.append_nil]⟩
  · have hlt := hstep.length_lt
    obtain ⟨used, rfl, hsees, hmade⟩ := hseen.step hstep
    obtain ⟨used', rfl, hmade⟩ := climb_made hsees hmade hrest
    exact ⟨used ++ used', by simp, by rwa [← List.append_assoc]⟩
termination_by given.length

/-- The lexemes of an expression are those of its parts and the marks between these. -/
theorem Alone.made (h : g.Alone own e) : g.Made own e := by
  obtain ⟨lhs, mid, hlhs, hclimb⟩ := yields_expr.1 h
  obtain ⟨seen, rfl, hmade⟩ := operand_made hlhs
  obtain ⟨seen', hseen, hlocal⟩ := local_operand (k := g) rfl hlhs
  obtain rfl : seen = seen' := List.append_cancel_right hseen
  obtain ⟨used, hused, hmade⟩ := climb_made
    (fun tail htail _ _ hout => expr_of_operand (hlocal tail htail) hout) hmade hclimb
  rw [List.append_nil] at hused
  exact hused ▸ hmade

/-! ## Children -/

/-- The lexeme is an interpolated string, read without errors as the expression. -/
structure ReadsString (g : Grammar) (lexeme : Lexeme) (e : Expr) : Prop where
  kind : lexeme.token.kind = .interpolatedString
  eq : e = .interpolated (g.interpolate lexeme.token).segments lexeme.token.span
  errors : (g.interpolate lexeme.token).errors = []

/-- One token makes an operand that has its span and, unless it is an interpolated string, no parts.
-/
theorem atom?_leaf {lexeme : Lexeme} (h : g.atom? lexeme.token = some (.ok (e, []))) :
    e.span = lexeme.token.span ∧ (e.children = [] ∨ g.ReadsString lexeme e) := by
  unfold atom? at h
  split at h
  case h_1 =>
    cases hvalue : intLiteral lexeme.token with
    | error e => simp [hvalue, Except.map] at h
    | ok value =>
      obtain rfl : Expr.literal value lexeme.token.span = e := by
        simpa [hvalue, Except.map] using h
      exact ⟨rfl, .inl rfl⟩
  case h_8 hkind =>
    obtain ⟨rfl, herrors⟩ : Expr.interpolated (g.interpolate lexeme.token).segments
        lexeme.token.span = e ∧ (g.interpolate lexeme.token).errors = [] := by simpa using h
    exact ⟨rfl, .inr ⟨hkind, rfl, herrors⟩⟩
  case h_10 => cases h
  all_goals
    simp only [Option.some.injEq, Except.ok.injEq, Prod.mk.injEq, and_true] at h
    exact h ▸ ⟨rfl, .inl rfl⟩

/-- The parts of an expression are read from its lexemes, or are the holes of a string. -/
theorem Made.child (h : g.Made own e) {c : Expr} (hc : c ∈ e.children) :
    g.Has own c ∨ ∃ lexeme, own = [lexeme] ∧ g.ReadsString lexeme e := by
  cases h with
  | @atom lexeme _ hatom =>
    rcases (atom?_leaf hatom).2 with hnone | hstring
    · simp [hnone] at hc
    · exact .inr ⟨lexeme, rfl, hstring⟩
  | @unary mark _ _ _ hpart =>
    obtain rfl := List.mem_singleton.1 hc
    exact .inl (by simpa using hpart.has [mark] [])
  | @paren opening closing _ _ hpart =>
    obtain rfl := List.mem_singleton.1 hc
    exact .inl (by simpa using hpart.has [opening] [closing])
  | @member dot name _ _ _ hpart =>
    obtain rfl := List.mem_singleton.1 hc
    exact .inl (hpart.has [] [dot, name])
  | @call part between closing _ _ _ hpart hargs =>
    rcases List.mem_cons.1 hc with rfl | harg
    · exact .inl (by simpa using hpart.has [] (between ++ [closing]))
    · exact .inl ((hargs c harg).append part [closing])
  | @ternary question colon part part' part'' _ _ _ he ht hf =>
    simp only [Expr.children, List.mem_cons, List.not_mem_nil, or_false] at hc
    rcases hc with rfl | rfl | rfl
    · exact .inl (by simpa using he.has [] (question :: part' ++ [colon] ++ part''))
    · exact .inl (by simpa using ht.has (part ++ [question]) ([colon] ++ part''))
    · exact .inl (by simpa using hf.has (part ++ (question :: part' ++ [colon])) [])
  | @binary mark part part' _ _ _ hleft hright =>
    simp only [Expr.children, List.mem_cons, List.not_mem_nil, or_false] at hc
    rcases hc with rfl | rfl
    · exact .inl (by simpa using hleft.has [] ([mark] ++ part'))
    · exact .inl (by simpa using hright.has (part ++ [mark]) [])

end Grammar

/-! ## Spans -/

namespace Grammar

variable {g : Grammar}

/-- The span of an expression goes from its first lexeme to its last one. -/
theorem Alone.over {own : List Lexeme} {e : Expr} (h : g.Alone own e) (hline : InLine own) :
    e.span.Over own := by
  have hsub {part : List Lexeme} (hpart : part.Sublist own) : InLine part := hline.sublist hpart
  cases h.made with
  | @atom lexeme _ hatom =>
    rw [(atom?_leaf hatom).1]
    exact Span.over_singleton lexeme
  | @unary mark part _ _ hpart =>
    have hover := hpart.over (hsub (List.sublist_cons_self mark part))
    exact (Span.over_singleton mark).merge [] hover hline
  | @paren opening closing part _ hpart =>
    exact (Span.over_singleton opening).merge part (Span.over_singleton closing) hline
  | @member dot name part _ _ hpart =>
    have hover := hpart.over (hsub (List.sublist_append_left _ _))
    have hmerge := hover.merge [dot] (Span.over_singleton name) (by simpa using hline)
    rw [List.append_assoc] at hmerge
    exact hmerge
  | @call part between closing _ _ _ hpart hargs =>
    have hover := hpart.over (hsub (by simp))
    exact hover.merge between (Span.over_singleton closing) hline
  | @ternary question colon part part' part'' _ _ _ he ht hf =>
    have hover := he.over (hsub (by simp))
    have hover' := hf.over (hsub (List.sublist_append_right _ _))
    exact hover.merge _ hover' hline
  | @binary mark part part' _ _ _ hleft hright =>
    have hover := hleft.over (hsub (by simp))
    have hover' := hright.over (hsub (List.sublist_append_right _ _))
    exact hover.merge _ hover' hline
termination_by own.length
decreasing_by all_goals simp_all <;> omega

end Grammar

end TypedTemplate
