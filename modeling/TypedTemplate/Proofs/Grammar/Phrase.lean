-- SUMMARY: The grammar of expressions, and expressions printed back as terminals.
import TypedTemplate.Grammar.Expr

/-!
# Phrases

The grammar of expressions has one nonterminal for each strength of binding, from
`expr` down to `primary`. `Derives` is derivation in that grammar, with the tree
that belongs to it. On the other side stands printing: any tree can be written out as
terminals, and a tree is grouped when no child binds looser than its position asks.
Derivation is printing of grouped trees.
-/

namespace TypedTemplate

/-- A token without its place: a literal by its value, a name, or any other token by its kind. -/
inductive Terminal where
  | literal (value : Literal)
  | name (x : String)
  | mark (kind : TokenKind)

/-- An integer literal out of range has no value. -/
def Token.terminal (token : Token) : Terminal :=
  match token.kind with
  | .intLiteral    =>
    match Grammar.intLiteral token with
    | .ok value => .literal value
    | .error _  => .mark .intLiteral
  | .floatLiteral  => .literal (.float (Number.readFloat token.lexeme.toList))
  | .stringLiteral => .literal (.str (String.ofList (unescape (Grammar.stringBody token))))
  | .trueWord      => .literal (.bool true)
  | .falseWord     => .literal (.bool false)
  | .nullWord      => .literal .null
  | .identifier    => .name token.lexeme
  | kind           => .mark kind

def BinaryOp.mark : BinaryOp → TokenKind
  | .add      => .plus
  | .sub      => .minus
  | .mul      => .star
  | .equal    => .equalEqual
  | .notEqual => .bangEqual
  | .coalesce => .questionQuestion

def UnaryOp.mark : UnaryOp → TokenKind
  | .not => .bang
  | .neg => .minus

/-! ## The grammar -/

/-- The nonterminals of the grammar, the loosest first. -/
inductive Level where
  | expr
  | coalesce
  | equality
  | additive
  | mult
  | unary
  | postfixed
  | primary
deriving DecidableEq, Repr

/-- The nonterminal of the operands that a nonterminal chains. -/
def Level.next : Level → Level
  | .expr      => .coalesce
  | .coalesce  => .equality
  | .equality  => .additive
  | .additive  => .mult
  | .mult      => .unary
  | .unary     => .postfixed
  | .postfixed => .primary
  | .primary   => .primary

/-- The nonterminal that chains operands with the operator. -/
def BinaryOp.level : BinaryOp → Level
  | .coalesce          => .coalesce
  | .equal | .notEqual => .equality
  | .add | .sub        => .additive
  | .mul               => .mult

mutual

/-- The terminals derive from the nonterminal, and the tree is that of the derivation. Its spans are
left open, so they are all the same. -/
inductive Derives : Level → List Terminal → Expr → Prop where
  | next {level : Level} {ws : List Terminal} {t : Expr} :
      Derives level.next ws t → Derives level ws t
  | ternary {us vs ws : List Terminal} {condition whenTrue whenFalse : Expr} :
      Derives .coalesce us condition → Derives .expr vs whenTrue → Derives .expr ws whenFalse →
        Derives .expr (us ++ .mark .question :: vs ++ .mark .colon :: ws)
          (.ternary condition whenTrue whenFalse .nowhere)
  | binary {op : BinaryOp} {us vs : List Terminal} {left right : Expr} :
      Derives op.level us left → Derives op.level.next vs right →
        Derives op.level (us ++ .mark op.mark :: vs) (.binary op left right .nowhere)
  | unary {op : UnaryOp} {ws : List Terminal} {operand : Expr} :
      Derives .unary ws operand →
        Derives .unary (.mark op.mark :: ws) (.unary op operand .nowhere)
  | member {ws : List Terminal} {object : Expr} {field : String} :
      Derives .postfixed ws object →
        Derives .postfixed (ws ++ [.mark .dot, .name field])
          (.member object ⟨field, .nowhere⟩ .nowhere)
  | call {us vs : List Terminal} {receiver : Expr} {method : String} {args : List Expr} :
      Derives .postfixed us receiver → DerivesArgs vs args →
        Derives .postfixed
          (us ++ .mark .dot :: .name method :: .mark .leftParen :: vs ++ [.mark .rightParen])
          (.call receiver ⟨method, .nowhere⟩ args .nowhere)
  | literal {value : Literal} : Derives .primary [.literal value] (.literal value .nowhere)
  | name {x : String} : Derives .primary [.name x] (.name ⟨x, .nowhere⟩)
  | paren {ws : List Terminal} {inner : Expr} :
      Derives .expr ws inner →
        Derives .primary (.mark .leftParen :: ws ++ [.mark .rightParen]) (.paren inner .nowhere)

/-- The terminals are expressions separated by commas, or nothing. -/
inductive DerivesArgs : List Terminal → List Expr → Prop where
  | none : DerivesArgs [] []
  | one {ws : List Terminal} {arg : Expr} : Derives .expr ws arg → DerivesArgs ws [arg]
  | more {us vs : List Terminal} {arg next : Expr} {args : List Expr} :
      Derives .expr us arg → DerivesArgs vs (next :: args) →
        DerivesArgs (us ++ .mark .comma :: vs) (arg :: next :: args)

end

/-! ## Printing -/

mutual

/-- An expression without the places of its parts. -/
def Expr.bare : Expr → Expr
  | .literal value _            => .literal value .nowhere
  | .name x                     => .name ⟨x.name, .nowhere⟩
  | .member object field _      => .member object.bare ⟨field.name, .nowhere⟩ .nowhere
  | .call receiver method args _ =>
    .call receiver.bare ⟨method.name, .nowhere⟩ (Expr.bareArgs args) .nowhere
  | .unary op e _               => .unary op e.bare .nowhere
  | .binary op left right _     => .binary op left.bare right.bare .nowhere
  | .ternary e t f _            => .ternary e.bare t.bare f.bare .nowhere
  | .interpolated segments _    => .interpolated (Segment.bareAll segments) .nowhere
  | .paren e _                  => .paren e.bare .nowhere

def Expr.bareArgs : List Expr → List Expr
  | []       => []
  | e :: es  => e.bare :: Expr.bareArgs es

def Segment.bare : Segment → Segment
  | .text s          => .text s
  | .hole e format _ => .hole e.bare (format.map fun spec => ⟨spec.kind, .nowhere⟩) .nowhere

def Segment.bareAll : List Segment → List Segment
  | []      => []
  | s :: ss => s.bare :: Segment.bareAll ss

end

mutual

/-- The terminals of an expression. An interpolated string is one token. -/
def Expr.terminals : Expr → List Terminal
  | .literal value _       => [.literal value]
  | .name x                => [.name x.name]
  | .member object field _ => object.terminals ++ [.mark .dot, .name field.name]
  | .call receiver method args _ =>
    receiver.terminals ++ .mark .dot :: .name method.name :: .mark .leftParen ::
      Expr.argTerminals args ++ [.mark .rightParen]
  | .unary op e _           => .mark op.mark :: e.terminals
  | .binary op left right _ => left.terminals ++ .mark op.mark :: right.terminals
  | .ternary e t f _        =>
    e.terminals ++ .mark .question :: t.terminals ++ .mark .colon :: f.terminals
  | .interpolated _ _       => [.mark .interpolatedString]
  | .paren e _              => .mark .leftParen :: e.terminals ++ [.mark .rightParen]

/-- The terminals of arguments, with commas between them. -/
def Expr.argTerminals : List Expr → List Terminal
  | []            => []
  | [e]           => e.terminals
  | e :: e' :: es => e.terminals ++ .mark .comma :: Expr.argTerminals (e' :: es)

end

/-- The kinds of tokens that stand in expressions besides literals and names. -/
def TokenKind.exprMarks : List TokenKind :=
  [.dot, .comma, .leftParen, .rightParen, .question, .colon, .bang, .minus, .plus, .star,
   .equalEqual, .bangEqual, .questionQuestion, .interpolatedString]

theorem UnaryOp.mark_mem (op : UnaryOp) : op.mark ∈ TokenKind.exprMarks := by
  cases op <;> decide

theorem BinaryOp.mark_mem (op : BinaryOp) : op.mark ∈ TokenKind.exprMarks := by
  cases op <;> decide

mutual

theorem Expr.mem_exprMarks {kind : TokenKind} {e : Expr} (h : .mark kind ∈ e.terminals) :
    kind ∈ TokenKind.exprMarks := by
  cases e with
  | literal value span => simp [Expr.terminals] at h
  | name x => simp [Expr.terminals] at h
  | interpolated segments span =>
    obtain rfl : kind = .interpolatedString := by simpa [Expr.terminals] using h
    decide
  | member object field span =>
    simp only [Expr.terminals, List.mem_append, List.mem_cons, List.not_mem_nil, reduceCtorEq,
      Terminal.mark.injEq, or_false] at h
    rcases h with h | rfl
    · exact Expr.mem_exprMarks h
    · decide
  | call receiver method args span =>
    simp only [Expr.terminals, List.mem_append, List.mem_cons, List.not_mem_nil, reduceCtorEq,
      Terminal.mark.injEq, or_false, false_or] at h
    rcases h with (h | rfl | rfl | h) | rfl
    · exact Expr.mem_exprMarks h
    · decide
    · decide
    · exact Expr.mem_exprMarks_args h
    · decide
  | unary op e span =>
    simp only [Expr.terminals, List.mem_cons, Terminal.mark.injEq] at h
    rcases h with rfl | h
    · exact op.mark_mem
    · exact Expr.mem_exprMarks h
  | binary op left right span =>
    simp only [Expr.terminals, List.mem_append, List.mem_cons, Terminal.mark.injEq] at h
    rcases h with h | rfl | h
    · exact Expr.mem_exprMarks h
    · exact op.mark_mem
    · exact Expr.mem_exprMarks h
  | ternary e t f span =>
    simp only [Expr.terminals, List.mem_append, List.mem_cons, Terminal.mark.injEq] at h
    rcases h with (h | rfl | h) | rfl | h
    · exact Expr.mem_exprMarks h
    · decide
    · exact Expr.mem_exprMarks h
    · decide
    · exact Expr.mem_exprMarks h
  | paren e span =>
    simp only [Expr.terminals, List.mem_append, List.mem_cons, List.not_mem_nil,
      Terminal.mark.injEq, or_false] at h
    rcases h with (rfl | h) | rfl
    · decide
    · exact Expr.mem_exprMarks h
    · decide

theorem Expr.mem_exprMarks_args {kind : TokenKind} {args : List Expr}
    (h : .mark kind ∈ Expr.argTerminals args) : kind ∈ TokenKind.exprMarks := by
  match args with
  | [] => simp [Expr.argTerminals] at h
  | [e] => exact Expr.mem_exprMarks (e := e) h
  | e :: e' :: es =>
    simp only [Expr.argTerminals, List.mem_append, List.mem_cons, Terminal.mark.injEq] at h
    rcases h with h | rfl | h
    · exact Expr.mem_exprMarks h
    · decide
    · exact Expr.mem_exprMarks_args h

end

/-- The tightest nonterminal that an expression can come from. -/
def Expr.level : Expr → Level
  | .literal _ _ | .name _ | .interpolated _ _ | .paren _ _ => .primary
  | .member _ _ _ | .call _ _ _ _                           => .postfixed
  | .unary _ _ _                                            => .unary
  | .binary op _ _ _                                        => op.level
  | .ternary _ _ _ _                                        => .expr

/-- The place of a nonterminal in the grammar, counted from the loosest. -/
def Level.rank : Level → Nat
  | .expr      => 0
  | .coalesce  => 1
  | .equality  => 2
  | .additive  => 3
  | .mult      => 4
  | .unary     => 5
  | .postfixed => 6
  | .primary   => 7

instance : LE Level := ⟨fun a b => a.rank ≤ b.rank⟩

instance (a b : Level) : Decidable (a ≤ b) := inferInstanceAs (Decidable (a.rank ≤ b.rank))

theorem Expr.le_level (e : Expr) : .expr ≤ e.level := by
  cases e.level <;> decide

mutual

/-- No child binds looser than its position asks. -/
def Expr.Grouped : Expr → Prop
  | .literal _ _ | .name _ | .interpolated _ _ => True
  | .member object _ _      => object.Grouped ∧ .postfixed ≤ object.level
  | .call receiver _ args _ =>
    receiver.Grouped ∧ .postfixed ≤ receiver.level ∧ Expr.AllGrouped args
  | .unary _ e _            => e.Grouped ∧ .unary ≤ e.level
  | .binary op left right _ =>
    left.Grouped ∧ op.level ≤ left.level ∧ right.Grouped ∧ op.level.next ≤ right.level
  | .ternary e t f _        => e.Grouped ∧ .coalesce ≤ e.level ∧ t.Grouped ∧ f.Grouped
  | .paren e _              => e.Grouped

def Expr.AllGrouped : List Expr → Prop
  | []      => True
  | e :: es => e.Grouped ∧ Expr.AllGrouped es

end

/-! ## Derivations are printings -/

theorem Level.next_le {m l : Level} (h : m ≤ l) (hne : m ≠ l) :
    m.rank < m.next.rank ∧ m.next ≤ l := by
  revert h hne
  cases m <;> cases l <;> decide

/-- What derives from a nonterminal derives from all looser ones. -/
theorem Derives.loosen {l m : Level} {ws : List Terminal} {t : Expr} (hm : m ≤ l)
    (h : Derives l ws t) : Derives m ws t := by
  by_cases heq : m = l
  · rwa [heq]
  · obtain ⟨hlt, hle⟩ := Level.next_le hm heq
    exact .next (h.loosen hle)
termination_by l.rank - m.rank
decreasing_by
  have : m.next.rank ≤ l.rank := hle
  omega

mutual

theorem Derives.printed {l : Level} {ws : List Terminal} {t : Expr} :
    Derives l ws t → ws = t.terminals ∧ t.bare = t ∧ t.Grouped ∧ l ≤ t.level
  | @Derives.next level _ _ h => by
    obtain ⟨hws, hbare, hgrouped, hlevel⟩ := h.printed
    refine ⟨hws, hbare, hgrouped, Nat.le_trans ?_ hlevel⟩
    cases level <;> decide
  | .ternary he ht hf => by
    obtain ⟨rfl, hbe, hge, hle⟩ := he.printed
    obtain ⟨rfl, hbt, hgt, -⟩ := ht.printed
    obtain ⟨rfl, hbf, hgf, -⟩ := hf.printed
    exact ⟨by simp [Expr.terminals], by simp [Expr.bare, hbe, hbt, hbf], ⟨hge, hle, hgt, hgf⟩,
      Nat.le_refl _⟩
  | .binary hl hr => by
    obtain ⟨rfl, hbl, hgl, hll⟩ := hl.printed
    obtain ⟨rfl, hbr, hgr, hlr⟩ := hr.printed
    exact ⟨by simp [Expr.terminals], by simp [Expr.bare, hbl, hbr], ⟨hgl, hll, hgr, hlr⟩,
      Nat.le_refl _⟩
  | .unary h => by
    obtain ⟨rfl, hb, hg, hl⟩ := h.printed
    exact ⟨by simp [Expr.terminals], by simp [Expr.bare, hb], ⟨hg, hl⟩, Nat.le_refl _⟩
  | .member h => by
    obtain ⟨rfl, hb, hg, hl⟩ := h.printed
    exact ⟨by simp [Expr.terminals], by simp [Expr.bare, hb], ⟨hg, hl⟩, Nat.le_refl _⟩
  | .call h hargs => by
    obtain ⟨rfl, hb, hg, hl⟩ := h.printed
    obtain ⟨rfl, hbargs, hgargs⟩ := hargs.printed
    exact ⟨by simp [Expr.terminals], by simp [Expr.bare, hb, hbargs], ⟨hg, hl, hgargs⟩,
      Nat.le_refl _⟩
  | .literal => ⟨rfl, rfl, trivial, Nat.le_refl _⟩
  | .name => ⟨rfl, rfl, trivial, Nat.le_refl _⟩
  | .paren h => by
    obtain ⟨rfl, hb, hg, -⟩ := h.printed
    exact ⟨by simp [Expr.terminals], by simp [Expr.bare, hb], hg, Nat.le_refl _⟩

theorem DerivesArgs.printed {ws : List Terminal} {args : List Expr} :
    DerivesArgs ws args →
      ws = Expr.argTerminals args ∧ Expr.bareArgs args = args ∧ Expr.AllGrouped args
  | .none => ⟨rfl, rfl, trivial⟩
  | .one h => by
    obtain ⟨rfl, hb, hg, -⟩ := h.printed
    exact ⟨rfl, by simp [Expr.bareArgs, hb], hg, trivial⟩
  | .more h hargs => by
    obtain ⟨rfl, hb, hg, -⟩ := h.printed
    obtain ⟨rfl, hbargs, hgargs⟩ := hargs.printed
    exact ⟨by simp [Expr.argTerminals], by rw [Expr.bareArgs, hb, hbargs], hg, hgargs⟩

end

mutual

/-- A grouped tree without interpolated strings is the tree of a derivation, from any nonterminal
that is no tighter than the tree. -/
theorem Expr.Grouped.derives {e : Expr} {l : Level} (hg : e.Grouped) (hl : l ≤ e.level)
    (hplain : .mark .interpolatedString ∉ e.terminals) : Derives l e.terminals e.bare := by
  refine Derives.loosen hl ?_
  cases e with
  | literal value span => exact .literal
  | name x => exact .name
  | member object field span =>
    simp only [Expr.terminals, List.mem_append, not_or] at hplain
    exact .member (hg.1.derives hg.2 hplain.1)
  | call receiver method args span =>
    simp only [Expr.terminals, List.mem_append, List.mem_cons, not_or] at hplain
    have hreceiver := hg.1.derives hg.2.1 hplain.1.1
    have hargs := Expr.AllGrouped.derives hg.2.2 hplain.1.2.2.2.2
    exact .call hreceiver hargs
  | unary op e span =>
    simp only [Expr.terminals, List.mem_cons, not_or] at hplain
    exact .unary (hg.1.derives hg.2 hplain.2)
  | binary op left right span =>
    simp only [Expr.terminals, List.mem_append, List.mem_cons, not_or] at hplain
    exact .binary (hg.1.derives hg.2.1 hplain.1) (hg.2.2.1.derives hg.2.2.2 hplain.2.2)
  | ternary e t f span =>
    simp only [Expr.terminals, List.mem_append, List.mem_cons, not_or] at hplain
    exact .ternary (hg.1.derives hg.2.1 hplain.1.1)
      (hg.2.2.1.derives (Expr.le_level t) hplain.1.2.2)
      (hg.2.2.2.derives (Expr.le_level f) hplain.2.2)
  | interpolated segments span => simp [Expr.terminals] at hplain
  | paren e span =>
    simp only [Expr.terminals, List.mem_append, List.mem_cons, not_or] at hplain
    exact .paren (Expr.Grouped.derives hg (Expr.le_level e) hplain.1.2)

theorem Expr.AllGrouped.derives {args : List Expr} (hg : Expr.AllGrouped args)
    (hplain : .mark .interpolatedString ∉ Expr.argTerminals args) :
    DerivesArgs (Expr.argTerminals args) (Expr.bareArgs args) := by
  match args with
  | [] => exact .none
  | [e] => exact .one (hg.1.derives (Expr.le_level e) hplain)
  | e :: e' :: es =>
    simp only [Expr.argTerminals, List.mem_append, List.mem_cons, not_or] at hplain
    exact .more (hg.1.derives (Expr.le_level e) hplain.1) (Expr.AllGrouped.derives hg.2 hplain.2.2)

end

/-- The trees that derive from `expr` are the grouped ones. -/
theorem derives_expr_iff {ws : List Terminal} {t : Expr}
    (hplain : .mark .interpolatedString ∉ ws) :
    Derives .expr ws t ↔ ws = t.terminals ∧ t.bare = t ∧ t.Grouped := by
  constructor
  · intro h
    obtain ⟨hws, hbare, hgrouped, -⟩ := h.printed
    exact ⟨hws, hbare, hgrouped⟩
  · rintro ⟨rfl, hbare, hgrouped⟩
    have h := hgrouped.derives (Expr.le_level t) hplain
    rwa [hbare] at h

end TypedTemplate
