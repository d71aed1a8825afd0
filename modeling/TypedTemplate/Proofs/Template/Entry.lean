-- SUMMARY: A generated unit that compiles has its entry point, whatever the template and the namespaces.
import TypedTemplate.Proofs.Compile.Declaration
import TypedTemplate.Proofs.Grammar.Opening
import TypedTemplate.Proofs.Template.Generated
import TypedTemplate.Template.Invoke

/-!
# Entry points

A template can close its literal and a namespace can be any text, so either may add
declarations of its own. But the unit's module starts on a line of its own, and no
parse without errors can miss it, nor its first type and function. Names are
distinct where there are no errors, so the function found is the one written.
-/

namespace TypedTemplate

open Diagnostics

variable {u : SourceUnit} {r : Registry} {o : Options} {a : Artifact}
  {moduleName typeName modelType body : String}

namespace GeneratedUnit

/-! ## The module of a generated unit -/

/-- The lexemes of a generated unit have its module's keyword and, from there on, known tokens. -/
theorem exists_opening (h : Named moduleName typeName modelType) (uses : List String)
    (body : String) :
    ∃ start rest fs more,
      start :: rest <:+
        (Lexemes.ofChars .first (text uses moduleName typeName modelType body).toList).lexemes ∧
      start.token.form :: formsOf rest =
        openingForms moduleName typeName ++ (fs ++ resultForms) ++ more ∧
      (∀ f ∈ fs, f.kind ≠ .rightParen) ∧ CommasNested 0 (fs.map (·.kind)) := by
  obtain ⟨fs, hfs, hparen, hnested⟩ := exists_cuts_opening h body
  obtain ⟨before, place, hbefore⟩ :=
    exists_forms_newline (prologue uses) (opening moduleName typeName modelType body) .first
  obtain ⟨place', hplace'⟩ := hfs.exists_formsOf place
  rw [hplace', ← toList_text] at hbefore
  obtain ⟨ls, ls', hlexemes, -, hls'⟩ := List.map_eq_append_iff.1 hbefore
  obtain ⟨start, rest, rfl, hstart, hrest⟩ := formsOf_eq_cons hls'
  refine ⟨start, rest, fs, formsOf (Lexemes.ofChars place' (epilogue body)).lexemes, ?_, ?_, hparen,
    hnested⟩
  · rw [hlexemes]
    exact List.suffix_append ls (start :: rest)
  · rw [hstart, hrest]
    rfl

/-- A generated unit that is parsed has its module, whose first type has the entry point as its first
function. -/
theorem exists_module {uses : List String} (h : Named moduleName typeName modelType)
    (hu : SourceUnit.parse (text uses moduleName typeName modelType body) = .ok u) :
    (∀ m ∈ u.modules, ':' ∉ m.name.name.toList) ∧
      ∃ m ∈ u.modules, m.name.name = moduleName ∧
        Grammar.Starts (Grammar.IsUnary entryPoint "string") typeName m := by
  refine ⟨SourceUnit.colon_not_mem_of_parse hu, ?_⟩
  obtain ⟨⟨rest, hyields⟩, herrors⟩ := SourceUnit.parse_eq_ok.1 ⟨u.span, hu⟩
  have hgiven := AllTokens.ofChars herrors
  obtain ⟨mid, hspares, hmany⟩ := Grammar.yields_declarations hgiven hyields
  have hmid := hgiven.of_suffix hspares.suffix
  obtain ⟨start, body, fs, more, hsuffix, hforms, hparen, hnested⟩ := exists_opening h uses body
  simp only [openingForms, resultForms, List.cons_append, List.nil_append, List.append_assoc] at hforms
  obtain ⟨hstart, hbody⟩ := List.cons.inj hforms
  have hstart : start.token.kind = .moduleWord := congrArg Form.kind hstart
  obtain ⟨m, hm, rest', hmodule⟩ :=
    Grammar.exists_module hstart hmid (hspares.keeps hstart hsuffix) hmany
  refine ⟨m, hm, Grammar.moduleDecl_of_forms hmodule rfl rfl hbody ?_⟩
  intro start given f rest hgiven hfunction
  exact Grammar.functionDecl_of_forms hfunction (by decide) rfl hparen hnested rfl hgiven

/-! ## The entry point of an artifact -/

end GeneratedUnit

/-- The type called `string` is the built-in one. -/
theorem Check.declares_string {uses : List String} {t : TypeRef}
    (ht : Grammar.IsPath ["string"] t) : Declares r uses t ⟨.str, .str⟩ := by
  have htext : t.path.text = "string" := by rw [Path.text, ht.segments]; rfl
  have hsimple : t.path.isSimple = true := by
    have hlength := congrArg List.length ht.segments
    simpa [Path.isSimple] using hlength
  refine ⟨?_, rfl⟩
  simp only [resolve, hsimple, ht.args, htext]
  rfl

theorem Check.Declares.unique {uses : List String} {t : TypeRef} {d d' : DeclaredType}
    (h : Declares r uses t d) (h' : Declares r uses t d') : d = d' := by
  obtain ⟨hresolve, hvalue⟩ := h
  obtain ⟨hresolve', hvalue'⟩ := h'
  have htype : d.type = d'.type := Except.ok.inj (hresolve.symm.trans hresolve')
  rw [htype, hvalue'] at hvalue
  exact (DeclaredType.mk.injEq _ _ _ _).mpr ⟨htype, (Option.some.inj hvalue).symm⟩

/-- A function with one parameter and the result `string` is compiled to one that a caller sees so. -/
theorem Compilation.Makes.unary {uses : List String} {x : String} {Q : Pool} {f : FunctionDecl}
    {s : Signature} {c : CompiledFunction} (hf : Grammar.IsUnary x "string" f)
    (hs : Check.Signs r uses f s) (hc : Makes r o Q s c) :
    (∃ p, c.params = [p]) ∧ c.result = .str := by
  obtain ⟨p, hp⟩ := hf.params
  have hparams := hs.params
  rw [hp] at hparams
  constructor
  · obtain ⟨d, ds, -, hds, hparams⟩ := List.forall₂_cons_left_iff.1 hparams
    rw [List.forall₂_nil_left_iff.1 hds] at hparams
    exact ⟨d.valueType, by rw [hc.params, hparams]; rfl⟩
  · rw [hc.result]
    rw [hs.result.unique (Check.declares_string hf.result)]

namespace GeneratedUnit

/-- The names that a unit is written with. -/
theorem synthesize_eq_ok {namespaces extra : List String} {id template : String} {model : Shape}
    {g : GeneratedUnit} (h : synthesize namespaces extra id template model = .ok g) :
    ∃ modelType, model.typeName = some modelType ∧ ModuleName.ofId id = .ok g.moduleName ∧
      Named g.moduleName g.typeName modelType ∧
      g.source = text (namespaces ++ extra).eraseDups g.moduleName g.typeName modelType
        (Embed.embed template) := by
  unfold synthesize at h
  split at h
  · cases h
  · rename_i modelType hmodel
    split at h
    · cases h
    · rename_i moduleName hname
      cases h
      obtain ⟨hchars, hpath⟩ := Spelling.normalize_eq_some hmodel
      refine ⟨modelType, hmodel, hname, ?_, rfl⟩
      unfold ModuleName.ofId at hname
      split at hname
      · cases hname
      · cases hname
        refine ⟨?_, ?_, rfl, hchars, hpath⟩
        · rw [String.toList_ofList]
          rfl
        · rw [String.toList_ofList]
          exact ModuleName.isWordChar_encode id.toList

/-- A generated unit that compiles has its entry point, with one parameter and the result `string`. So
no model fails to find it. -/
theorem exists_entryPoint {namespaces extra : List String} {id template : String} {model : Shape}
    {g : GeneratedUnit} (h : synthesize namespaces extra id template model = .ok g)
    (hcompile : compile r o g.source = .ok a) :
    ∃ path t f p, ModuleName.typePathOfId id = .ok path ∧ a.type? path = some t ∧
      t.function? entryPoint = some f ∧ f.params = [p] ∧ f.result = .str ∧
      ∀ object e, Invoker.standard.invoke a id object = .error e →
        (∀ name, e ≠ .typeNotFound name) ∧ ∀ name x, e ≠ .entryPointNotFound name x := by
  obtain ⟨modelType, -, hname, hnamed, hsource⟩ := synthesize_eq_ok h
  unfold compile at hcompile
  split at hcompile
  case h_2 => cases hcompile
  rename_i u hparse
  rw [hsource] at hparse
  obtain ⟨hcolon, m, hm, hmodule, t, ts, f, fs, htypes, htype, hfunctions, hf⟩ :=
    exists_module hnamed hparse
  have hsignatures : hasErrors (u.signatures r).2 = false := by
    rw [← hasErrors_reverse]
    exact Compilation.hasErrors_of_after (SourceUnit.compile_eq_ok hcompile).1
  obtain ⟨uses, s, hs, hsigns⟩ := SourceUnit.exists_signature?_of_mem hsignatures hcolon hm
    (t := t) (f := f) (by simp [htypes]) (by simp [hfunctions])
  rw [hmodule, htype, hf.name] at hs
  obtain ⟨c, hc, hmakes⟩ := SourceUnit.exists_function hcompile hs
  obtain ⟨t', ht', hc⟩ := Option.bind_eq_some_iff.1 hc
  obtain ⟨⟨p, hp⟩, hresult⟩ := hmakes.unary hf hsigns
  have hpath : ModuleName.typePathOfId id = .ok (g.moduleName ++ "::" ++ g.typeName) := by
    rw [ModuleName.typePathOfId, hname, hnamed.typeName]
    rfl
  refine ⟨_, t', c, p, hpath, ht', hc, hp, hresult, ?_⟩
  intro object e he
  simp only [Invoker.invoke, hpath, Invoker.invokeType, ht'] at he
  have hentry : t'.function? Invoker.standard.entryPoint = some c := hc
  simp only [hentry] at he
  split at he <;> cases he <;> simp

/-- A template that closes its literal, its function and its type, and opens another of each. -/
def detaching : String :=
  "\x7b1\x7d\"\";\x7d\x7d type U \x7bfn Interpolate() -> string \x7breturn $\"\"\x7b0\x7d"

theorem exists_entryPoint_detaching :
    ∃ shape r g a, synthesize ["std"] [] "t" detaching shape = .ok g ∧
      compile r ⟨true, .debug⟩ g.source = .ok a ∧
      ∃ path t f p, ModuleName.typePathOfId "t" = .ok path ∧ a.type? path = some t ∧
        t.function? entryPoint = some f ∧ f.params = [p] ∧ f.result = .str ∧
        ∀ object e, Invoker.standard.invoke a "t" object = .error e →
          (∀ name, e ≠ .typeNotFound name) ∧ ∀ name x, e ≠ .entryPointNotFound name x := by
  let shape : Shape := ⟨"app::P", []⟩
  let r : Registry := ⟨#[], ["std"], #[⟨"app::P", shape, shape.typeHash⟩]⟩
  have hname : ModuleName.ofId "t" = .ok "Stencil_t" := by decide +kernel
  have hmodel : shape.typeName = some "app::P" := by decide +kernel
  have hchars : detaching.toList = _ := toList_of_eq_ofList rfl
  let source := text ["std"] "Stencil_t" "Stencil_tTemplateGenerator" "app::P"
    (Embed.embed detaching)
  have hg : synthesize ["std"] [] "t" detaching shape =
      .ok ⟨"t", "Stencil_t", "Stencil_tTemplateGenerator", source, shape⟩ := by
    simp only [synthesize, hmodel, hname]
    rfl
  have hok : (compile r ⟨true, .debug⟩ source).isOk = true := by
    have htext : source.toList = _ := toList_text _ _ _ _ _
    unfold opening at htext
    rw [epilogue, Embed.embed, String.toList_ofList, hchars] at htext
    rw [compile, SourceUnit.parse, ← String.length_toList (s := source), htext]
    decide +kernel
  cases hcompile : compile r ⟨true, .debug⟩ source with
  | error ds =>
    rw [hcompile] at hok
    cases hok
  | ok a => exact ⟨shape, r, _, a, hg, hcompile, exists_entryPoint hg hcompile⟩

end GeneratedUnit

end TypedTemplate
