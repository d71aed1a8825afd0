-- SUMMARY: A generated unit parses just when its template does as a literal, and to the same tree, moved.
import TypedTemplate.Proofs.Interpolation.Nested
import TypedTemplate.Proofs.Template.Entry
import TypedTemplate.Proofs.Template.Runs
import TypedTemplate.Proofs.Template.TypeParse
import TypedTemplate.Proofs.Token.Literal

/-!
# Synthesized units

A template is pasted into a fixed unit. If it is one token there, nothing in it can reach the
text around it, and that text is parsed in the same way whatever the template's holes hold. So
the outcome is that of the literal by itself: its tree, or its errors, as many lines and columns
further on as stand before it in the unit.
-/

namespace TypedTemplate

/-! ## Namespaces -/

/-- The text names a namespace: identifiers, none of them a keyword, with `::` between them. -/
def IsNamespace (ns : String) : Prop :=
  ∃ x xs, AreIdentifiers (x :: xs) ∧ ns = "::".intercalate (x :: xs)

theorem IsNamespace.not_mem {ns : String} (h : IsNamespace ns) : '\n' ∉ ns.toList := by
  obtain ⟨x, xs, hxs, rfl⟩ := h
  intro hmem
  rcases hxs.chars _ hmem with hword | hcolon
  · exact absurd hword (by decide)
  · exact absurd hcolon (by decide)

theorem IsNamespace.exists_names {uses : List String} (h : ∀ ns ∈ uses, IsNamespace ns) :
    ∃ nss : List (List String), uses = nss.map ("::".intercalate ·) ∧
      ∀ ns ∈ nss, ns ≠ [] ∧ AreIdentifiers ns := by
  induction uses with
  | nil => exact ⟨[], rfl, by simp⟩
  | cons ns uses ih =>
    obtain ⟨⟨x, xs, hxs, rfl⟩, htail⟩ := List.forall_mem_cons.1 h
    obtain ⟨nss, rfl, hnss⟩ := ih htail
    exact ⟨(x :: xs) :: nss, rfl, List.forall_mem_cons.2 ⟨⟨by simp, hxs⟩, hnss⟩⟩

namespace GeneratedUnit

open Grammar

variable {moduleName typeName modelType body : String} {uses : List String}

/-! ## Before the template -/

/-- The unit up to the line that has the template. -/
def linesBefore (uses : List String) (moduleName typeName modelType : String) : List Char :=
  prologue uses ++ '\n' :: ("module ".toList ++ (moduleName.toList ++ (" \x7b\n    type ".toList ++
    (typeName.toList ++ (" \x7b\n        fn Interpolate(model: ".toList ++ (modelType.toList ++
      ") -> string \x7b".toList))))))

/-- The unit up to the template. -/
def before (uses : List String) (moduleName typeName modelType : String) : List Char :=
  linesBefore uses moduleName typeName modelType ++ '\n' :: "            return ".toList

theorem toList_text_eq_before (uses : List String) (moduleName typeName modelType body : String) :
    (text uses moduleName typeName modelType body).toList =
      before uses moduleName typeName modelType ++ epilogue body := by
  have hresult : ") -> string \x7b\n            return ".toList =
    ") -> string \x7b".toList ++ '\n' :: "            return ".toList := by decide
  rw [toList_text]
  unfold opening
  rw [hresult]
  unfold before linesBefore
  simp only [List.append_assoc, List.cons_append]

theorem count_prologue (h : ∀ ns ∈ uses, IsNamespace ns) :
    (prologue uses).count '\n' = uses.length + 1 := by
  have hprologue : prologue uses = "#![edition = 1]\n".toList ++
      uses.flatMap fun ns => "use ".toList ++ (ns.toList ++ ";\n".toList) := by
    have hone : Number.decimal Options.edition = "1" := by decide +kernel
    simp [prologue, hone, List.flatMap_map, String.toList_append]
  have huses : (uses.flatMap fun ns => "use ".toList ++ (ns.toList ++ ";\n".toList)).count '\n' =
      uses.length := by
    clear hprologue
    induction uses with
    | nil => rfl
    | cons ns uses ih =>
      obtain ⟨hns, htail⟩ := List.forall_mem_cons.1 h
      have hstart : "use ".toList.count '\n' = 0 := by decide
      have hend : ";\n".toList.count '\n' = 1 := by decide
      rw [List.flatMap_cons, List.count_append, List.count_append, List.count_append, ih htail,
        List.count_eq_zero_of_not_mem hns.not_mem, hstart, hend, List.length_cons]
      omega
  have hheader : "#![edition = 1]\n".toList.count '\n' = 1 := by decide
  rw [hprologue, List.count_append, huses, hheader, Nat.add_comm]

/-- The template stands behind the header, the namespaces, an empty line and three openings. -/
theorem after_before (huses : ∀ ns ∈ uses, IsNamespace ns)
    (h : Named moduleName typeName modelType) :
    Place.first.after (before uses moduleName typeName modelType) =
      Place.first.shift (uses.length + 5) 19 := by
  have hword : ∀ {cs : List Char}, (∀ c ∈ cs, isWordChar c = true) → cs.count '\n' = 0 :=
    fun hcs => List.count_eq_zero_of_not_mem fun hmem => absurd (hcs _ hmem) (by decide)
  have hmodel : modelType.toList.count '\n' = 0 :=
    List.count_eq_zero_of_not_mem fun hmem => absurd (h.modelChars _ hmem) (by decide)
  have hmodule : "module ".toList.count '\n' = 0 := by decide
  have htype : " \x7b\n    type ".toList.count '\n' = 1 := by decide
  have hfn : " \x7b\n        fn Interpolate(model: ".toList.count '\n' = 1 := by decide
  have hresult : ") -> string \x7b".toList.count '\n' = 0 := by decide
  have hlines : (linesBefore uses moduleName typeName modelType).count '\n' = uses.length + 4 := by
    rw [linesBefore]
    simp only [List.count_append, List.count_cons_self, count_prologue huses, hword h.moduleWord,
      hword h.typeWord, hmodel, hmodule, htype, hfn, hresult]
  have hreturn : Text.byteSize "            return ".toList = 19 := by decide
  rw [before, Place.after_line (by decide), hlines, hreturn]
  simp only [Place.first, Place.shift, Place.mk.injEq, and_true]
  omega

/-! ## The template's token -/

/-- The template is the only interpolated string of its unit. -/
theorem eq_literalToken {nss : List (List String)} {ts : List Form}
    (hnss : ∀ ns ∈ nss, ns ≠ [] ∧ AreIdentifiers ns) (h : Named moduleName typeName modelType)
    (htype : ∀ after : List Char, (∀ c ∈ after.head?, isWordChar c = false) →
      Cuts (modelType.toList ++ after) ts after)
    (hts : ∀ f ∈ ts, f.Plain) (hbody : FillsLiteral body.toList) {token : Token}
    (hmem : token ∈ tokensOf .first
      (text (nss.map ("::".intercalate ·)) moduleName typeName modelType body).toList)
    (hkind : token.kind = .interpolatedString) :
    token = literalToken (Place.first.after
      (before (nss.map ("::".intercalate ·)) moduleName typeName modelType)) body.toList := by
  have hplain : ¬ token.form.Plain := fun hplain => hplain.2 hkind
  obtain ⟨start, htext, hcut⟩ := cuts_before hnss h htype body
  obtain rfl := List.append_cancel_right (htext.symm.trans (toList_text_eq_before ..))
  obtain ⟨tokens, hforms, htokens⟩ := hcut .first
  -- The tokens on either side of the template are plain.
  rw [htokens, epilogue_eq, hbody.tokensOf, List.mem_append, List.mem_cons] at hmem
  rcases hmem with hmem | rfl | hmem
  · refine absurd (plain_formsBefore nss moduleName typeName hts _ ?_) hplain
    rw [← hforms]
    exact List.mem_map_of_mem hmem
  · rfl
  · refine absurd (plain_closingForms _ ?_) hplain
    rw [← cuts_closing.forms_eq, formsOf_ofChars]
    exact List.mem_map_of_mem hmem

/-- The function takes a model of the type `modelType` and returns `e`. -/
structure Renders (modelType : String) (e : Expr) (f : FunctionDecl) : Prop where
  name : f.name.name = entryPoint
  params : ∃ p, f.params = [p] ∧ p.name.name = "model" ∧ p.type.text = modelType
  result : IsPath ["string"] f.returnType
  body : ∃ span, f.body.stmts = [.ret e span]

/-- The function of a unit is taken whatever its template's holes hold: their errors are the only
ones. -/
theorem takes_renders {g : Grammar} {t : TypeRef} (ht : t.AllNames IsIdentifier) {place : Place}
    {body : List Char} {i : Interpolation} (hi : g.interpolate (literalToken place body) = i)
    (start : Token) :
    (g.functionDecl start).Takes
      (fun token => token.kind = .interpolatedString → token = literalToken place body)
      (⟨.identifier, entryPoint⟩ :: ⟨.leftParen, "("⟩ :: ⟨.identifier, "model"⟩ :: ⟨.colon, ":"⟩ ::
        (t.forms ++ (resultForms ++ ⟨.interpolatedString, literalLexeme body⟩ :: closingForms)))
      (Renders t.text (.interpolated i.segments (literalToken place body).span))
      [⟨.rightBrace, "\x7d"⟩, ⟨.rightBrace, "\x7d"⟩] i.errors := by
  refine (takes_function start entryPoint
    (takes_param_alone "model" (ht.taken (by rintro _ ⟨⟩; decide)))
    (takes_typeRef (by rintro _ ⟨⟩; decide) "string" [])
    (takes_block_ret (takes_ret_atom
      (E := (· = .interpolated i.segments (literalToken place body).span)) ?_))).imp ?_
  · intro token hI hform
    have hkind : token.kind = .interpolatedString := congrArg Form.kind hform
    obtain rfl := hI hkind
    obtain ⟨hunary, hatom⟩ := atom?_interpolated (g := g) hkind
    rw [hi] at hatom
    exact ⟨hunary, _, hatom, rfl⟩
  · rintro f ⟨hname, ⟨p, hp, hparam, htype⟩, hresult, s, hs, e, span, rfl, rfl⟩
    exact ⟨hname, ⟨p, hp, hparam, htype⟩, hresult, span, hs⟩

/-! ## Parsing -/

/-- The unit's text is parsed as the literal of its template is alone, moved to its place. -/
theorem parse_text {nss : List (List String)} {t : TypeRef}
    (hnss : ∀ ns ∈ nss, ns ≠ [] ∧ AreIdentifiers ns) (ht : t.AllNames IsIdentifier)
    (h : Named moduleName typeName t.text) (hbody : FillsLiteral body.toList)
    (hline : ∀ c ∈ body.toList, c ≠ '\n') {lines cols : Nat}
    (hplace : Place.first.after (before (nss.map ("::".intercalate ·)) moduleName typeName t.text) =
      Place.first.shift lines cols) :
    (∀ e, Expr.parse (literalLexeme body.toList) = .ok e →
      ∃ u, SourceUnit.parse
          (text (nss.map ("::".intercalate ·)) moduleName typeName t.text body) = .ok u ∧
        Declares 1 (nss.map ("::".intercalate ·))
          (Encloses moduleName typeName (Renders t.text (e.shift lines cols)))
          (u.edition, u.uses, u.modules)) ∧
    ∀ es, Expr.parse (literalLexeme body.toList) = .error es →
      SourceUnit.parse (text (nss.map ("::".intercalate ·)) moduleName typeName t.text body) =
        .error (es.map (.shift lines cols)) := by
  have hcuts := cuts_text hnss h (fun _ => ht.cuts) hbody
  have hI : ∀ token ∈ tokensOf .first
      (text (nss.map ("::".intercalate ·)) moduleName typeName t.text body).toList,
      token.kind = .interpolatedString →
        token = literalToken (Place.first.shift lines cols) body.toList := by
    rw [← hplace]
    exact fun _ => eq_literalToken hnss h (fun _ => ht.cuts) ht.plain_forms hbody
  -- The unit reads the literal with a greater depth than the literal alone has. Both are enough.
  have hlength : (literalLexeme body.toList).length ≤
      (text (nss.map ("::".intercalate ·)) moduleName typeName t.text body).length + 1 := by
    rw [← String.length_toList (s := text _ _ _ _ _), toList_text_eq_before, epilogue_eq,
      literalLexeme]
    simp only [String.length_ofList, List.length_append, List.length_cons, List.length_nil]
    omega
  generalize text _ _ _ _ _ = source at *
  obtain ⟨i, hi⟩ : ∃ i, interpolation ((literalLexeme body.toList).length + 1)
    (literalToken .first body.toList) = i := ⟨_, rfl⟩
  have hread : (ofText source.length (Lexemes.ofChars .first source.toList).finish).interpolate
      (literalToken (Place.first.shift lines cols) body.toList) = i.shift lines cols := by
    have hmoved : literalToken (Place.first.shift lines cols) body.toList =
        (literalToken .first body.toList).shift lines cols := rfl
    rw [hmoved, ← hi]
    refine interpolation_shift ?_ (Nat.le_succ _) hlength
    rw [literalToken, String.toList_ofList]
    exact ne_lineFeed_literal hline
  obtain ⟨hok, herror⟩ := SourceUnit.parse_of_cuts hcuts
    (kinds_forms nss moduleName typeName ht.plain_forms body.toList) hI
    (takes_forms (fun ns hns => (hnss ns hns).1) moduleName typeName (takes_renders ht hread))
  have hliteral : Expr.parse (literalLexeme body.toList) = _ := hbody.parse hi
  rw [hliteral]
  -- All errors of either text are those of the holes.
  cases herrors : i.errors with
  | nil =>
    obtain ⟨u, hu, hdeclares⟩ := hok (by rw [Interpolation.shift, herrors]; rfl)
    constructor
    · rintro e ⟨⟩
      exact ⟨u, hu, hdeclares⟩
    · rintro es ⟨⟩
  | cons e es =>
    have hsource := herror (by rw [Interpolation.shift, herrors]; simp)
    constructor
    · rintro e ⟨⟩
    · rintro es' ⟨⟩
      rw [hsource, Interpolation.shift, herrors, ParseError.inOrder_shift]

/-! ## Synthesis -/

/-- The template as a literal by itself. -/
def literal (template : String) : String := "$\"" ++ Embed.embed template ++ "\""

theorem literal_eq (template : String) :
    literal template = literalLexeme (Embed.embed template).toList := by
  rw [← String.toList_inj, literalLexeme, String.toList_ofList, literal]
  simp

/-- Synthesis embeds a template that is one token between its quotes. The unit is parsed just when
the template's literal is, and it has the namespaces, each once, and one function, which returns
the literal's tree, moved to its place. If the literal is not parsed, the unit has its errors, moved
alike. -/
theorem parse_synthesize {namespaces extra : List String} {id template modelType : String}
    {model : Shape} (hid : id ≠ "") (hmodel : model.typeName = some modelType)
    (htype : Spelling.IsType modelType) (hnamespaces : ∀ ns ∈ namespaces ++ extra, IsNamespace ns)
    (htemplate : IsLiteral (literal template)) :
    ∃ g before after, synthesize namespaces extra id template model = .ok g ∧
      g.source = before ++ literal template ++ after ∧
      Place.first.after before.toList =
        Place.first.shift ((namespaces ++ extra).eraseDups.length + 5) 19 ∧
      ((∃ u, SourceUnit.parse g.source = .ok u) ↔ ∃ e, Expr.parse (literal template) = .ok e) ∧
      (∀ e, Expr.parse (literal template) = .ok e → ∃ u, SourceUnit.parse g.source = .ok u ∧
        Declares Options.edition (namespaces ++ extra).eraseDups
          (Encloses g.moduleName g.typeName (Renders modelType
            (e.shift ((namespaces ++ extra).eraseDups.length + 5) 19)))
          (u.edition, u.uses, u.modules)) ∧
      ∀ es, Expr.parse (literal template) = .error es → SourceUnit.parse g.source =
        .error (es.map (.shift ((namespaces ++ extra).eraseDups.length + 5) 19)) := by
  obtain ⟨g, hg⟩ : ∃ g, synthesize namespaces extra id template model = .ok g := by
    simp [synthesize, hmodel, ModuleName.ofId, hid]
  obtain ⟨_, hmodel', -, hnamed, hsource⟩ := synthesize_eq_ok hg
  obtain rfl := Option.some.inj (hmodel.symm.trans hmodel')
  obtain ⟨t, ht, rfl⟩ := Spelling.exists_typeRef hmodel ((Spelling.isType_iff hmodel).1 htype)
  have huses : ∀ ns ∈ (namespaces ++ extra).eraseDups, IsNamespace ns :=
    fun ns hns => hnamespaces ns (List.mem_eraseDups.1 hns)
  obtain ⟨nss, hnames, hnss⟩ := IsNamespace.exists_names huses
  have hline : ∀ c ∈ (Embed.embed template).toList, c ≠ '\n' :=
    fun c hc hfeed => Embed.not_mem_embed template (hfeed ▸ hc)
  rw [literal_eq] at htemplate ⊢
  have hplace := after_before huses hnamed
  generalize (namespaces ++ extra).eraseDups = uses at *
  subst hnames
  obtain ⟨hok, herror⟩ := parse_text hnss ht hnamed (htemplate.fillsLiteral hline) hline hplace
  rw [← hsource] at hok herror
  refine ⟨g, String.ofList (before (nss.map ("::".intercalate ·)) g.moduleName g.typeName t.text),
    String.ofList closing, hg, ?_, ?_, ?_, hok, herror⟩
  · rw [hsource, ← String.toList_inj, toList_text_eq_before, epilogue_eq]
    simp [literalLexeme]
  · rw [String.toList_ofList, hplace]
  · constructor
    · rintro ⟨u, hu⟩
      cases hliteral : Expr.parse (literalLexeme (Embed.embed template).toList) with
      | ok e => exact ⟨e, rfl⟩
      | error es =>
        rw [herror es hliteral] at hu
        cases hu
    · rintro ⟨e, he⟩
      obtain ⟨u, hu, -⟩ := hok e he
      exact ⟨u, hu⟩

theorem parse_synthesize_box :
    ∃ g u e, synthesize ["std"] ["demo::ui", "std"] "mail/hi" "Hi, \"\x7bmodel.Name\x7d\"\n"
        ⟨"app::Box<app::Item>", []⟩ = .ok g ∧
      Expr.parse "$\"Hi, \\\"\x7bmodel.Name\x7d\\\"\"" = .ok e ∧
      SourceUnit.parse g.source = .ok u ∧
      Declares 1 ["std", "demo::ui"] (Encloses g.moduleName g.typeName
        (Renders "app::Box<app::Item>" (e.shift 7 19))) (u.edition, u.uses, u.modules) := by
  have hid : "mail/hi" ≠ "" := by decide
  have hmodel : (⟨"app::Box<app::Item>", []⟩ : Shape).typeName = some "app::Box<app::Item>" := by
    decide +kernel
  have htype : Spelling.IsType "app::Box<app::Item>" :=
    (Spelling.isType_iff hmodel).2 (by decide +kernel)
  have hstd : IsIdentifier "std" := ⟨⟨'s', rfl, by decide⟩, by decide, by decide⟩
  have hdemo : IsIdentifier "demo" := ⟨⟨'d', rfl, by decide⟩, by decide, by decide⟩
  have hui : IsIdentifier "ui" := ⟨⟨'u', rfl, by decide⟩, by decide, by decide⟩
  have hnamespaces : ∀ ns ∈ ["std"] ++ ["demo::ui", "std"], IsNamespace ns := by
    have hone : IsNamespace "std" := ⟨"std", [], by simpa [AreIdentifiers] using hstd, by decide⟩
    have htwo : IsNamespace "demo::ui" :=
      ⟨"demo", ["ui"], by simp [AreIdentifiers, hdemo, hui], by decide⟩
    simp [hone, htwo]
  have htemplate : IsLiteral (literal "Hi, \"\x7bmodel.Name\x7d\"\n") := by decide +kernel
  obtain ⟨g, _, _, hg, -, -, -, hok, -⟩ :=
    parse_synthesize hid hmodel htype hnamespaces htemplate
  have hliteral : literal "Hi, \"\x7bmodel.Name\x7d\"\n" = "$\"Hi, \\\"\x7bmodel.Name\x7d\\\"\"" := by
    decide +kernel
  have hisOk : (Expr.parse "$\"Hi, \\\"\x7bmodel.Name\x7d\\\"\"").isOk = true := by decide +kernel
  cases he : Expr.parse "$\"Hi, \\\"\x7bmodel.Name\x7d\\\"\"" with
  | error es => simp [he, Except.isOk, Except.toBool] at hisOk
  | ok e =>
    obtain ⟨u, hu, hdeclares⟩ := hok e (by rw [hliteral, he])
    exact ⟨g, u, e, hg, rfl, hu, hdeclares⟩

end GeneratedUnit

end TypedTemplate
