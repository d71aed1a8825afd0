-- SUMMARY: How a type with arguments is written, cut into tokens and parsed.
import TypedTemplate.Proofs.Template.Written
import TypedTemplate.Proofs.Token.Stretch

/-!
# Texts of types

The spelling of a type whose names are identifiers cuts into the tokens of the type, wherever
no word goes on behind it. The parser takes these tokens for a type with the same spelling,
unless `::` or a bracket goes on. In the other direction, all names of a type that was parsed are
words of the text and none of them is a keyword.
-/

namespace TypedTemplate

open Grammar

namespace TypeRef

/-! ## Spellings and tokens -/

theorem textList_cons (out : String) (a : TypeRef) (as : List TypeRef) :
    text.textList out (a :: as) = text.textList (out ++ "," ++ a.text) as := rfl

theorem text_nil (p : Path) (span : Span) : (mk p [] span).text = p.text := rfl

theorem text_cons (p : Path) (a : TypeRef) (as : List TypeRef) (span : Span) :
    (mk p (a :: as) span).text = p.text ++ "<" ++ text.textList a.text as ++ ">" := rfl

theorem toList_textList (out : String) (as : List TypeRef) :
    (text.textList out as).toList = out.toList ++ as.flatMap fun a => ',' :: a.text.toList := by
  induction as generalizing out with
  | nil =>
    rw [List.flatMap_nil, List.append_nil]
    rfl
  | cons a as ih =>
    rw [textList_cons, ih]
    simp [String.toList_append]

theorem toList_text_cons (p : Path) (a : TypeRef) (as : List TypeRef) (span : Span) :
    (mk p (a :: as) span).text.toList =
      p.text.toList ++ '<' :: (a.text.toList ++ (as.flatMap (',' :: ·.text.toList) ++ ['>'])) := by
  rw [text_cons]
  simp [String.toList_append, toList_textList]

/-- Types with the same path and arguments of the same spellings are spelled the same. -/
theorem text_congr {p p' : Path} {as as' : List TypeRef} (span span' : Span) (hp : p.text = p'.text)
    (has : as.map text = as'.map text) : (mk p as span).text = (mk p' as' span').text := by
  have hlist : ∀ (as as' : List TypeRef) (out : String), as.map text = as'.map text →
      text.textList out as = text.textList out as' := by
    intro as
    induction as with
    | nil =>
      intro as' out h
      rw [List.map_eq_nil_iff.1 h.symm]
    | cons a as ih =>
      intro as' out h
      obtain ⟨a', as', rfl, ha, has⟩ := List.map_eq_cons_iff.1 h.symm
      rw [textList_cons, textList_cons, ha]
      exact ih as' _ has.symm
  cases as with
  | nil => rw [List.map_eq_nil_iff.1 has.symm, text_nil, text_nil, hp]
  | cons a as =>
    obtain ⟨a', as', rfl, ha, has⟩ := List.map_eq_cons_iff.1 has.symm
    rw [text_cons, text_cons, hp, ha, hlist as as' _ has.symm]

mutual

/-- The tokens of a type. -/
def forms : TypeRef → List Form
  | .mk p [] _        => pathForms (p.segments.map (·.name))
  | .mk p (a :: as) _ =>
    pathForms (p.segments.map (·.name)) ++
      ⟨.less, "<"⟩ :: (a.forms ++ (formsBehind as ++ [⟨.greater, ">"⟩]))

/-- The tokens of further type arguments. -/
def formsBehind : List TypeRef → List Form
  | []      => []
  | a :: as => ⟨.comma, ","⟩ :: (a.forms ++ formsBehind as)

end

theorem plain_formsBehind {as : List TypeRef} (h : ∀ a ∈ as, ∀ f ∈ a.forms, f.Plain) :
    ∀ f ∈ formsBehind as, f.Plain := by
  induction as with
  | nil => simp [formsBehind]
  | cons a as ih =>
    obtain ⟨ha, has⟩ := List.forall_mem_cons.1 h
    intro f hf
    simp only [formsBehind, List.mem_cons, List.mem_append] at hf
    rcases hf with rfl | hf | hf
    · decide
    · exact ha f hf
    · exact ih has f hf

/-- Further type arguments are cut up to the closing bracket when each of them is. -/
theorem cuts_formsBehind {as : List TypeRef} {after : List Char}
    (h : ∀ a ∈ as, ∀ {after : List Char}, (∀ c ∈ after.head?, isWordChar c = false) →
      Cuts (a.text.toList ++ after) a.forms after) :
    Cuts (as.flatMap (',' :: ·.text.toList) ++ '>' :: after) (formsBehind as) ('>' :: after) := by
  induction as with
  | nil => exact .refl _
  | cons a as ih =>
    obtain ⟨ha, has⟩ := List.forall_mem_cons.1 h
    rw [List.flatMap_cons, List.append_assoc, formsBehind]
    refine (Cuts.mark rfl (by simp [pairMark])).trans ((ha ?_).trans (ih has))
    cases as <;> rintro _ ⟨⟩ <;> decide

/-- There are names in the type, and all of them satisfy `P`. -/
inductive AllNames (P : String → Prop) : TypeRef → Prop where
  | mk {p : Path} {args : List TypeRef} {span : Span} {x : String} {xs : List String} :
      p.segments.map (·.name) = x :: xs → (∀ y ∈ x :: xs, P y) → (∀ a ∈ args, AllNames P a) →
        AllNames P (.mk p args span)

namespace AllNames

variable {t : TypeRef} {P : String → Prop}

theorem plain_forms (h : t.AllNames P) : ∀ f ∈ t.forms, f.Plain := by
  induction h with
  | @mk p args span x xs hx _ _ ih =>
    cases args with
    | nil =>
      rw [forms]
      exact plain_pathForms _
    | cons a as =>
      obtain ⟨ha, has⟩ := List.forall_mem_cons.1 ih
      rw [forms]
      intro f hf
      simp only [List.mem_append, List.mem_cons, List.not_mem_nil, or_false] at hf
      rcases hf with hf | rfl | hf | hf | rfl
      · exact plain_pathForms _ f hf
      · decide
      · exact ha f hf
      · exact plain_formsBehind has f hf
      · decide

/-- A type of identifiers is cut into its tokens where no word goes on. -/
theorem cuts (h : t.AllNames IsIdentifier) {after : List Char}
    (hafter : ∀ c ∈ after.head?, isWordChar c = false) :
    Cuts (t.text.toList ++ after) t.forms after := by
  induction h generalizing after with
  | @mk p args span x xs hx hxs _ ih =>
    have hpath {after : List Char} (hafter : ∀ c ∈ after.head?, isWordChar c = false) :
        Cuts (p.text.toList ++ after) (pathForms (p.segments.map (·.name))) after := by
      rw [Path.text, hx]
      exact Cuts.path hxs hafter
    cases args with
    | nil =>
      rw [text_nil, forms]
      exact hpath hafter
    | cons a as =>
      obtain ⟨ha, has⟩ := List.forall_mem_cons.1 ih
      rw [toList_text_cons, forms]
      simp only [List.append_assoc, List.cons_append, List.nil_append]
      refine (hpath (by rintro _ ⟨⟩; decide)).trans ?_
      refine (Cuts.mark rfl (by simp [pairMark])).trans ((ha ?_).trans ?_)
      · cases as <;> rintro _ ⟨⟩ <;> decide
      · exact (cuts_formsBehind has).trans (Cuts.mark rfl (by simp [pairMark]))

end AllNames

/-! ## Parsing -/

/-- The parser takes the tokens of the type for one with the same spelling, unless the type goes on
behind them. -/
def Taken (t : TypeRef) : Prop :=
  ∀ {I fs}, EndsPath fs → Parse.Takes (fun finish given => typeRef finish given) I (t.forms ++ fs)
    (·.text = t.text) fs

theorem takes_typeArgsOnto {I : Token → Prop} {a : TypeRef} {as : List TypeRef} {fs : List Form}
    (h : ∀ b ∈ a :: as, b.Taken) (out : List TypeRef) :
    Parse.Takes (fun finish given => typeArgsOnto finish out given) I
      (a.forms ++ (formsBehind as ++ ⟨.greater, ">"⟩ :: fs))
      (fun ts => ts.map text = out.reverse.map text ++ (a :: as).map text)
      (⟨.greater, ">"⟩ :: fs) := by
  intro finish given hgiven
  have hends : EndsPath (formsBehind as ++ ⟨.greater, ">"⟩ :: fs) := by
    cases as <;> rintro _ ⟨⟩ <;> simp
  obtain ⟨t, rest, ht, hrest, htext⟩ := h a List.mem_cons_self hends finish given hgiven
  have htext : t.text = a.text := htext
  cases as with
  | nil =>
    obtain ⟨close, left, rfl, hclose, -, -⟩ := hrest.exists_cons
    have hkind : close.token.kind = .greater := congrArg Form.kind hclose
    refine ⟨(t :: out).reverse, _, ?_, hrest, by simp [htext]⟩
    change (typeArgsOnto finish out given).Yields _ _
    rw [typeArgsOnto]
    refine Reply.Yields.andThen ht ?_
    simp only [hkind, reduceCtorEq, if_false]
    exact Reply.yields_ok.2 ⟨rfl, rfl⟩
  | cons b bs =>
    rw [formsBehind, List.cons_append, List.append_assoc] at hrest
    obtain ⟨comma, left, rfl, hcomma, -, hleft⟩ := hrest.exists_cons
    have hkind : comma.token.kind = .comma := congrArg Form.kind hcomma
    obtain ⟨ts, rest', hts, hrest', htexts⟩ :=
      takes_typeArgsOnto (fun c hc => h c (List.mem_cons_of_mem a hc)) (t :: out) finish left hleft
    refine ⟨ts, rest', ?_, hrest', ?_⟩
    · change (typeArgsOnto finish out given).Yields _ _
      rw [typeArgsOnto]
      refine Reply.Yields.andThen ht ?_
      simp only [hkind, if_true]
      exact Reply.yields_taking.2 hts
    · exact htexts.trans (by simp [htext])

/-- A path with arguments in brackets is a type. -/
theorem yields_typeRef_args {finish : Place} {given mid rest : List Lexeme} {p : Path}
    {ts : List TypeRef} {opening close : Lexeme}
    (hp : Grammar.path.Yields finish given p (opening :: mid))
    (hopening : opening.token.kind = .less)
    (hts : (typeArgsOnto finish [] mid).Yields ts (close :: rest))
    (hclose : close.token.kind = .greater) :
    (typeRef finish given).Yields (.mk p ts (p.span.merge close.token.span)) rest := by
  obtain ⟨_, _, hfirst, -⟩ := Parse.yields_bind.1 hp
  obtain ⟨lexeme, rfl, hkind, -⟩ := Parse.yields_ident.1 hfirst
  rw [typeRef]
  simp only [List.head?_cons, Option.map_some, Option.getD_some, hkind, ne_eq, not_true_eq_false,
    if_false]
  refine Reply.Yields.andThen hp ?_
  simp only [hopening, if_true]
  refine Reply.yields_taking.2 (Reply.Yields.andThen hts ?_)
  refine Reply.yields_andThen.2 ⟨close.token, rest, Nat.le_succ _, ?_, Reply.yields_ok.2 ⟨rfl, rfl⟩⟩
  exact (Parse.yields_expect (by decide)).2 ⟨close, rfl, rfl, hclose⟩

/-- A type is taken for one with the same spelling. -/
theorem AllNames.taken {t : TypeRef} {P : String → Prop} (h : t.AllNames P) : t.Taken := by
  induction h with
  | @mk p args span x xs hx _ _ ih =>
    intro I fs hend finish given hgiven
    have hpath {q : Path} (hq : q.segments.map (·.name) = x :: xs) : q.text = p.text := by
      rw [Path.text, Path.text, hq, hx]
    cases args with
    | nil =>
      rw [forms, hx] at hgiven
      obtain ⟨t, rest, ht, hrest, hsegments, hargs⟩ :=
        takes_typeRef hend x xs finish given hgiven
      refine ⟨t, rest, ht, hrest, ?_⟩
      obtain ⟨q, args, span'⟩ := t
      obtain rfl : args = [] := hargs
      exact text_congr span' span (hpath hsegments) rfl
    | cons a as =>
      rw [forms, hx] at hgiven
      simp only [List.append_assoc, List.cons_append, List.nil_append] at hgiven
      obtain ⟨q, mid, hq, hmid, hsegments⟩ :=
        takes_path (by rintro _ ⟨⟩; decide) x xs finish given hgiven
      obtain ⟨opening, mid, rfl, hopening, -, hmid⟩ := hmid.exists_cons
      obtain ⟨ts, rest, hts, hrest, htexts⟩ := takes_typeArgsOnto ih [] finish mid hmid
      obtain ⟨close, rest, rfl, hclose, -, hleft⟩ := hrest.exists_cons
      have hless : opening.token.kind = .less := congrArg Form.kind hopening
      have hgreater : close.token.kind = .greater := congrArg Form.kind hclose
      exact ⟨_, rest, yields_typeRef_args hq hless hts hgreater, hleft,
        text_congr _ span (hpath hsegments) (by simpa using htexts)⟩

end TypeRef

namespace Grammar

open Parse

/-! ## Names of parsed types -/

variable {P : String → Prop} {finish : Place} {given rest : List Lexeme}

/-- The identifiers among the lexemes satisfy `P`. -/
def Names (P : String → Prop) (given : List Lexeme) : Prop :=
  ∀ lexeme ∈ given, lexeme.token.kind = .identifier → P lexeme.token.lexeme

theorem Names.of_suffix (h : Names P given) (hrest : rest <:+ given) : Names P rest :=
  fun lexeme hlexeme => h lexeme (hrest.subset hlexeme)

theorem Names.tail {lexeme : Lexeme} (h : Names P (lexeme :: given)) : Names P given :=
  h.of_suffix (List.suffix_cons lexeme given)

theorem Names.ident {x : Ident} (h : Names P given) (hx : ident.Yields finish given x rest) :
    P x.name := by
  obtain ⟨lexeme, rfl, hkind, rfl⟩ := yields_ident.1 hx
  exact h lexeme List.mem_cons_self hkind

theorem Names.segmentsOnto {given rest : List Lexeme} {out xs : List Ident} (h : Names P given)
    (hxs : (segmentsOnto finish out given).Yields xs rest) :
    ∃ more, xs = out.reverse ++ more ∧ ∀ x ∈ more, P x.name := by
  cases given with
  | nil =>
    rw [Grammar.segmentsOnto] at hxs
    obtain ⟨rfl, -⟩ := Reply.yields_ok.1 hxs
    exact ⟨[], by simp, by simp⟩
  | cons lexeme given =>
    rw [Grammar.segmentsOnto] at hxs
    split at hxs
    case isTrue =>
      obtain ⟨x, mid, hle, hx, hxs⟩ := Reply.yields_andThen.1 (Reply.yields_taking.1 hxs)
      have hmid := h.tail.of_suffix (ident_nests 0 hx).suffix
      obtain ⟨more, rfl, hmore⟩ := Names.segmentsOnto hmid hxs
      refine ⟨x :: more, by simp, ?_⟩
      exact List.forall_mem_cons.2 ⟨h.tail.ident hx, hmore⟩
    case isFalse =>
      obtain ⟨rfl, -⟩ := Reply.yields_ok.1 hxs
      exact ⟨[], by simp, by simp⟩
termination_by given.length
decreasing_by subst_vars; simp only [List.length_cons]; omega

theorem Names.path {p : Path} (h : Names P given) (hp : path.Yields finish given p rest) :
    ∃ x xs, p.segments.map (·.name) = x :: xs ∧ ∀ y ∈ x :: xs, P y := by
  obtain ⟨first, mid, hfirst, hp⟩ := yields_bind.1 hp
  obtain ⟨xs, mid', hxs, hp⟩ := yields_bind.1 hp
  obtain ⟨rfl, -⟩ := yields_pure.1 hp
  have hmid := h.of_suffix (ident_nests 0 hfirst).suffix
  obtain ⟨more, rfl, hmore⟩ := hmid.segmentsOnto hxs
  refine ⟨first.name, more.map (·.name), by simp, ?_⟩
  simpa using ⟨h.ident hfirst, hmore⟩

mutual

/-- The names of a type that was parsed are identifiers of the text. -/
theorem Names.typeRef {given rest : List Lexeme} {t : TypeRef} (h : Names P given)
    (ht : (typeRef finish given).Yields t rest) : t.AllNames P := by
  rw [Grammar.typeRef] at ht
  split at ht
  case isTrue => exact absurd ht Reply.yields_fail
  case isFalse =>
    obtain ⟨p, mid, hle, hp, ht⟩ := Reply.yields_andThen.1 ht
    obtain ⟨x, xs, hx, hxs⟩ := h.path hp
    have hmid := h.of_suffix (path_nests 0 hp).suffix
    cases mid with
    | nil =>
      obtain ⟨rfl, -⟩ := Reply.yields_ok.1 ht
      exact .mk hx hxs (by simp)
    | cons opening mid =>
      simp only at ht
      split at ht
      case isTrue =>
        obtain ⟨args, mid', -, hargs, ht⟩ := Reply.yields_andThen.1 (Reply.yields_taking.1 ht)
        obtain ⟨close, mid'', -, hclose, ht⟩ := Reply.yields_andThen.1 ht
        obtain ⟨rfl, -⟩ := Reply.yields_ok.1 ht
        have hlt : mid.length < given.length := hle
        exact .mk hx hxs (Names.typeArgsOnto hmid.tail (by simp) hargs)
      case isFalse =>
        obtain ⟨rfl, -⟩ := Reply.yields_ok.1 ht
        exact .mk hx hxs (by simp)
termination_by 2 * given.length

theorem Names.typeArgsOnto {given rest : List Lexeme} {out ts : List TypeRef} (h : Names P given)
    (hout : ∀ t ∈ out, t.AllNames P) (hts : (typeArgsOnto finish out given).Yields ts rest) :
    ∀ t ∈ ts, t.AllNames P := by
  rw [Grammar.typeArgsOnto] at hts
  obtain ⟨t, mid, hle, ht, hts⟩ := Reply.yields_andThen.1 hts
  have hmid := h.of_suffix (typeRef_nests 1 ht).suffix
  have hall : ∀ t' ∈ t :: out, t'.AllNames P := List.forall_mem_cons.2 ⟨Names.typeRef h ht, hout⟩
  cases mid with
  | nil =>
    obtain ⟨rfl, -⟩ := Reply.yields_ok.1 hts
    exact fun t' ht' => hall t' (List.mem_reverse.1 ht')
  | cons lexeme mid =>
    simp only at hts
    split at hts
    case isTrue => exact Names.typeArgsOnto hmid.tail hall (Reply.yields_taking.1 hts)
    case isFalse =>
      obtain ⟨rfl, -⟩ := Reply.yields_ok.1 hts
      exact fun t' ht' => hall t' (List.mem_reverse.1 ht')
termination_by 2 * given.length + 1

end

/-! ## Names of parsed units -/

theorem Names.param {p : Param} (h : Names P given) (hp : param.Yields finish given p rest) :
    p.type.AllNames P ∧ Names P rest := by
  obtain ⟨x, mid, hx, hp⟩ := yields_bind.1 hp
  obtain ⟨colon, mid', hcolon, hp⟩ := yields_bind.1 hp
  obtain ⟨t, mid'', ht, hp⟩ := yields_bind.1 hp
  obtain ⟨rfl, rfl⟩ := yields_pure.1 hp
  obtain ⟨lexeme, rfl, -, -⟩ := (yields_expect (by decide)).1 hcolon
  have hmid := (h.of_suffix (ident_nests 0 hx).suffix).tail
  exact ⟨Names.typeRef hmid ht, hmid.of_suffix (typeRef_nests 0 ht).suffix⟩

theorem Names.paramsOnto {given rest : List Lexeme} {out ps : List Param} (h : Names P given)
    (hout : ∀ p ∈ out, p.type.AllNames P) (hps : (paramsOnto finish out given).Yields ps rest) :
    ∀ p ∈ ps, p.type.AllNames P := by
  rw [Grammar.paramsOnto] at hps
  obtain ⟨p, mid, hle, hp, hps⟩ := Reply.yields_andThen.1 hps
  obtain ⟨htype, hmid⟩ := h.param hp
  have hall : ∀ p' ∈ p :: out, p'.type.AllNames P := List.forall_mem_cons.2 ⟨htype, hout⟩
  cases mid with
  | nil =>
    obtain ⟨rfl, -⟩ := Reply.yields_ok.1 hps
    exact fun p' hp' => hall p' (List.mem_reverse.1 hp')
  | cons lexeme mid =>
    simp only at hps
    split at hps
    case isTrue => exact Names.paramsOnto hmid.tail hall (Reply.yields_taking.1 hps)
    case isFalse =>
      obtain ⟨rfl, -⟩ := Reply.yields_ok.1 hps
      exact fun p' hp' => hall p' (List.mem_reverse.1 hp')
termination_by given.length

/-- The types of the function's parameters have names with `P` only. -/
def ParamsNamed (P : String → Prop) (f : FunctionDecl) : Prop := ∀ p ∈ f.params, p.type.AllNames P

variable {g : Grammar}

theorem Names.functionDecl {start : Token} {f : FunctionDecl} (h : Names P given)
    (hf : (g.functionDecl start).Yields finish given f rest) : ParamsNamed P f := by
  obtain ⟨x, mid, hx, hf⟩ := yields_bind.1 hf
  obtain ⟨_, mid', hopening, hf⟩ := yields_bind.1 hf
  obtain ⟨ps, mid'', hps, hf⟩ := yields_bind.1 hf
  obtain ⟨_, _, -, hf⟩ := yields_bind.1 hf
  obtain ⟨_, _, -, hf⟩ := yields_bind.1 hf
  obtain ⟨_, _, -, hf⟩ := yields_bind.1 hf
  obtain ⟨_, _, -, hf⟩ := yields_bind.1 hf
  obtain ⟨rfl, -⟩ := yields_pure.1 hf
  obtain ⟨lexeme, rfl, -, -⟩ := (yields_expect (by decide)).1 hopening
  have hmid := (h.of_suffix (ident_nests 0 hx).suffix).tail
  unfold Yields params at hps
  split at hps
  · obtain ⟨rfl, -⟩ := Reply.yields_ok.1 hps
    simp [ParamsNamed]
  · exact Names.paramsOnto hmid (by simp) hps

/-- What each item read from an end of the lexemes satisfies, all items satisfy. -/
theorem forall_mem_of_many {α : Type} {R : α → Prop} {more : TokenKind → Bool}
    {item : Token → Parse α} {as : List α} (hgiven : AllTokens given)
    (hspares : ∀ token, (item token).SparesModules)
    (hitem : ∀ {token given' a mid}, given' <:+ given →
      (item token).Yields finish given' a mid → R a)
    (h : Many more item finish given as rest) : ∀ a ∈ as, R a := by
  induction h with
  | nil => simp
  | @cons lexeme given _ _ _ _ _ ha _ ih =>
    have hmid := (hspares _ _ _ _ _ hgiven.tail ha).suffix
    have htail := List.suffix_cons lexeme given
    refine List.forall_mem_cons.2 ⟨hitem htail ha, ih (hgiven.tail.of_suffix hmid) ?_⟩
    exact fun hsuffix => hitem ((hsuffix.trans hmid).trans htail)

theorem Names.typeDecl {start : Token} {t : TypeDecl} (hgiven : AllTokens given) (h : Names P given)
    (ht : (g.typeDecl start).Yields finish given t rest) : ∀ f ∈ t.functions, ParamsNamed P f := by
  obtain ⟨x, mid, hx, ht⟩ := yields_bind.1 ht
  obtain ⟨_, mid', hbrace, ht⟩ := yields_bind.1 ht
  obtain ⟨fs, _, hfs, ht⟩ := yields_bind.1 ht
  obtain ⟨_, _, -, ht⟩ := yields_bind.1 ht
  obtain ⟨rfl, -⟩ := yields_pure.1 ht
  obtain ⟨lexeme, rfl, -, -⟩ := (yields_expect (by decide)).1 hbrace
  have hsuffix := (List.suffix_cons lexeme mid').trans (ident_nests 0 hx).suffix
  refine forall_mem_of_many (hgiven.of_suffix hsuffix)
    (sparesModules_declaration sparesModules_functionDecl) ?_ (yields_many.1 hfs)
  intro token given' f mid'' hgiven' hf
  exact (h.of_suffix (hgiven'.trans hsuffix)).functionDecl (yields_declaration.1 hf).2

theorem Names.moduleDecl {start : Token} {m : ModuleDecl} (hgiven : AllTokens given)
    (h : Names P given) (hm : (g.moduleDecl start).Yields finish given m rest) :
    ∀ t ∈ m.types, ∀ f ∈ t.functions, ParamsNamed P f := by
  obtain ⟨x, mid, hx, hm⟩ := yields_bind.1 hm
  obtain ⟨_, mid', hbrace, hm⟩ := yields_bind.1 hm
  obtain ⟨ts, _, hts, hm⟩ := yields_bind.1 hm
  obtain ⟨_, _, -, hm⟩ := yields_bind.1 hm
  obtain ⟨rfl, -⟩ := yields_pure.1 hm
  obtain ⟨lexeme, rfl, -, -⟩ := (yields_expect (by decide)).1 hbrace
  have hsuffix := (List.suffix_cons lexeme mid').trans (ident_nests 0 hx).suffix
  refine forall_mem_of_many (hgiven.of_suffix hsuffix)
    (sparesModules_declaration sparesModules_typeDecl) ?_ (yields_many.1 hts)
  intro token given' t mid'' hgiven' ht
  have hends := hgiven'.trans hsuffix
  exact Names.typeDecl (hgiven.of_suffix hends) (h.of_suffix hends) (yields_declaration.1 ht).2

/-- The names of the parameters' types in a unit without errors are identifiers of its text. -/
theorem Names.declarations {e? : Option Edition} {uses : List UseDecl} {ms : List ModuleDecl}
    (hgiven : AllTokens given) (h : Names P given)
    (hd : g.declarations.Yields finish given (e?, uses, ms) rest) :
    ∀ m ∈ ms, ∀ t ∈ m.types, ∀ f ∈ t.functions, ParamsNamed P f := by
  obtain ⟨mid, hspares, hms⟩ := yields_declarations hgiven hd
  refine forall_mem_of_many (hgiven.of_suffix hspares.suffix)
    (sparesModules_declaration sparesModules_moduleDecl) ?_ hms
  intro token given' m mid' hgiven' hm
  have hends := hgiven'.trans hspares.suffix
  exact Names.moduleDecl (hgiven.of_suffix hends) (h.of_suffix hends) (yields_declaration.1 hm).2

end Grammar

end TypedTemplate
