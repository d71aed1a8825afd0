-- SUMMARY: The unit of a template compiles, and its function renders what the template shows.
import TypedTemplate.Proofs.Template.Entry
import TypedTemplate.Proofs.Template.Filled
import TypedTemplate.Proofs.Template.Written
import TypedTemplate.Template.Engine

/-!
# Compiled templates

With the default namespaces, and a flat model whose type units can name, a template made
of texts, braces and holes has an artifact. Its function takes the models of the type, and
renders each as the parts of the template do.
-/

namespace TypedTemplate

/-! ## The registry of a template -/

/-- Units can name the shape's type, which is no built-in one, and no field holds a model. -/
structure Shape.Plain (s : Shape) : Prop where
  path : ∃ x xs, AreIdentifiers (x :: xs) ∧ s.hostName = "::".intercalate (x :: xs)
  foreign : Ty.builtin? s.hostName = none
  flat : s.Flat

theorem Shape.Plain.typeName {s : Shape} (h : s.Plain) : s.typeName = some s.hostName := by
  obtain ⟨x, xs, hxs, hpath⟩ := h.path
  rw [Shape.typeName, hpath]
  exact Spelling.normalize_path hxs

theorem Shape.Flat.nested_eq_nil {s : Shape} (h : s.Flat) : s.nested = [] := by
  refine List.filterMap_eq_nil_iff.2 fun f hf => ?_
  split
  · rename_i i hi
    exact absurd hi (h f hf i)
  · rfl

namespace Registry

variable {r : Registry} {s : Shape}

/-- The type of the shape is the only one, and the standard namespace is known. -/
structure Knows (r : Registry) (s : Shape) : Prop where
  shapes : r.shapes = #[⟨s.hostName, s, s.typeHash⟩]
  standard : r.hasNamespace standardNamespace = true

theorem Knows.shape? (h : r.Knows s) : r.shape? 0 = some ⟨s.hostName, s, s.typeHash⟩ := by
  rw [Registry.shape?, h.shapes]
  rfl

theorem Knows.lookup (h : r.Knows s) : r.lookup s.hostName = some 0 := by
  rw [Registry.lookup, h.shapes]
  simp

theorem hasNamespace_addNamespace {ns : String} (h : r.hasNamespace ns = true) (ns' : String) :
    (r.addNamespace ns').hasNamespace ns = true := by
  unfold addNamespace
  split
  · exact h
  · simp only [hasNamespace, List.contains_append, Bool.or_eq_true]
    exact .inl h

theorem hasNamespace_foldl {ns : String} (h : r.hasNamespace ns = true) (nss : List String) :
    (nss.foldl addNamespace r).hasNamespace ns = true := by
  induction nss generalizing r with
  | nil => exact h
  | cons ns' nss ih => exact ih (hasNamespace_addNamespace h ns')

theorem hasNamespace_enter (r : Registry) (name : String) (s : Shape) (ns : String) :
    (r.enter name s).hasNamespace ns =
      ((QualifiedName.parse name).enclosing.foldl addNamespace r).hasNamespace ns := by
  simp only [enter, hasNamespace]

theorem shapes_foldl (r : Registry) (nss : List String) :
    (nss.foldl addNamespace r).shapes = r.shapes := by
  induction nss generalizing r with
  | nil => rfl
  | cons ns nss ih =>
    rw [List.foldl_cons, ih, addNamespace]
    split <;> rfl

/-- Registering a flat shape that units can name enters just its type. -/
theorem exists_registry (h : s.Plain) (o : Options) (catalog : Catalog) :
    ∃ r, (Engine.ofOptions o).registry catalog s = .ok r ∧ r.Knows s := by
  have hstart : (Engine.ofOptions o).namespaces.foldl addNamespace (.empty catalog) = .empty catalog := rfl
  have hregister : (Registry.empty catalog).register s =
      (.ok 0, (Registry.empty catalog).enter s.hostName s) := by
    have hlookup : (Registry.empty catalog).lookup s.hostName = none := by
      simp [Registry.lookup, Registry.empty]
    rw [register, registerTo]
    simp only [h.typeName, hlookup, h.flat.nested_eq_nil, registerAllTo]
    rfl
  refine ⟨_, by rw [Engine.registry, hstart, hregister], ?_, ?_⟩
  · simp only [enter, shapes_foldl, empty]
    rfl
  · have hstandard : (Registry.empty catalog).hasNamespace standardNamespace = true := rfl
    rw [hasNamespace_enter]
    exact hasNamespace_foldl hstandard _

end Registry

/-! ## Signatures -/

namespace Check

variable {r : Registry} {s : Shape} {t : TypeRef}

theorem text_of_isPath {xs : List String} (ht : Grammar.IsPath xs t) : t.text = "::".intercalate xs := by
  obtain ⟨p, args, span⟩ := t
  obtain ⟨hsegments, rfl⟩ : p.segments.map (·.name) = xs ∧ args = [] := ⟨ht.segments, ht.args⟩
  rw [TypeRef.text, Path.text, hsegments]

/-- The path that spells the shape's type is declared as that type. -/
theorem declares_model (hr : r.Knows s) (hs : s.Plain) {xs : List String}
    (hxs : s.hostName = "::".intercalate xs) (ht : Grammar.IsPath xs t) (uses : List String) :
    Declares r uses t ⟨.model 0, .model s.hostName s.typeHash⟩ := by
  have htext : t.text = s.hostName := (text_of_isPath ht).trans hxs.symm
  have hpath : t.path.text = s.hostName := by rw [Path.text, ht.segments, hxs]
  have hmodel : r.resolve s.hostName uses = some 0 := by simp [Registry.resolve, hr.lookup]
  constructor
  · simp only [resolve, htext, hpath, hs.foreign, hmodel]
    split <;> rfl
  · simp [Ty.valueType?, Ty.model, hr.shape?]

end Check

/-- The declarations of a unit of one function pass where its header and the function do. -/
theorem SourceUnit.signatures_eq_singleton {u : SourceUnit} {r : Registry} {m : ModuleDecl}
    {t : TypeDecl} {f : FunctionDecl} {s : Signature} {uses : List String}
    (hedition : Check.Passes (Check.edition u.edition) ⟨⟩)
    (huses : Check.Passes (Check.namespacesOnto r [] u.uses) uses) (hm : u.modules = [m])
    (ht : m.types = [t]) (hf : t.functions = [f]) (hs : Check.Signs r uses f s) :
    u.signatures r = ([⟨m.name.name ++ "::" ++ t.name.name, [s]⟩], []) := by
  have htype : Check.SignsType r uses m t ⟨m.name.name ++ "::" ++ t.name.name, [s]⟩ := by
    refine ⟨rfl, by simp [hf], ?_⟩
    rw [hf]
    exact .cons hs .nil
  have hunit : Check.SignsUnit r u uses [[⟨m.name.name ++ "::" ++ t.name.name, [s]⟩]] := by
    refine ⟨hedition, huses, by simp [hm], ?_⟩
    rw [hm]
    refine .cons ⟨by simp [ht], ?_⟩ .nil
    rw [ht]
    exact .cons htype .nil
  exact (Check.passes_unit.2 ⟨_, _, hunit, rfl⟩).collect

/-- A single parameter is the first slot of the function. -/
theorem Scope.ofParams_singleton (p : Param) (d : DeclaredType) :
    Scope.empty.ofParams [] [(p, d)] = (⟨#[⟨p.name.name, d.type, p.name.span⟩], []⟩, []) := by
  have hdeclare : Scope.empty.declare p.name.name d.type p.name.span =
      .ok (0, ⟨#[⟨p.name.name, d.type, p.name.span⟩], []⟩) := by
    simp [Scope.declare, Scope.isKnown, Scope.slot?, Scope.isPoisoned, Scope.empty, Scope.frameSize,
      Scope.maxLocals]
  rw [Scope.ofParams]
  simp only [hdeclare, Scope.ofParams]

/-- A function that returns a string gives the value of the `return`. -/
theorem Signature.eval_ret_str {r : Registry} {s : Signature} {value : Expr} {span : Span}
    (hstmts : s.decl.body.stmts = [.ret value span]) (hresult : s.result = ⟨.str, .str⟩)
    (checked : Bool) (args : List Value) :
    s.eval r checked args =
      value.eval r checked (Env.ofParams [] (s.decl.params.zip s.params) args) := by
  have hconvert (k : TyKind) (v : Value) : v.convert k Ty.str.kind = v := by
    simp [Value.convert, Ty.str]
  rw [eval, evalWith, hstmts, Stmt.evalAll, hresult]
  simp only [hconvert]
  exact bind_pure _

/-- The signature is that of the function that renders models of the shape by segments with `P`. -/
structure Signature.Renders (shape : Shape) (P : List Segment → Prop) (s : Signature) : Prop where
  name : s.decl.name.name = GeneratedUnit.entryPoint
  model : ∃ p, s.decl.params = [p] ∧ p.name.name = "model"
  body : ∃ stmt, s.decl.body.stmts = [stmt] ∧ Grammar.ReturnsString P stmt
  params : s.params = [⟨.model 0, .model shape.hostName shape.typeHash⟩]
  result : s.result = ⟨.str, .str⟩

/-- The declarations of a written unit pass, and its only signature is that of its function. -/
theorem GeneratedUnit.Written.exists_signature {moduleName typeName : String} {xs : List String}
    {P : List Segment → Prop} {u : SourceUnit} {r : Registry} {s : Shape}
    (hu : Written moduleName typeName xs P u) (hr : r.Knows s) (hs : s.Plain)
    (hxs : s.hostName = "::".intercalate xs) :
    ∃ sig, u.signatures r = ([⟨moduleName ++ "::" ++ typeName, [sig]⟩], []) ∧ sig.Renders s P := by
  obtain ⟨⟨e, he, hversion⟩, huses, m, hm, hmodule⟩ := hu
  obtain ⟨d, hd, hns⟩ := List.map_eq_singleton_iff.1 huses
  have he : u.edition = some e := he
  have hd : u.uses = [d] := hd
  have hm : u.modules = [m] := hm
  obtain ⟨t, f, htypes, htype, hfunctions, hf⟩ := hmodule.types
  obtain ⟨p, hp, hparam⟩ := hf.params
  let sig : Signature := ⟨f, [⟨.model 0, .model s.hostName s.typeHash⟩], ⟨.str, .str⟩⟩
  have hsigns : Check.Signs r [Registry.standardNamespace] f sig := by
    refine ⟨rfl, ?_, Check.declares_string hf.result⟩
    rw [hp]
    exact .cons (Check.declares_model hr hs hxs hparam.type _) .nil
  have hedition : Check.Passes (Check.edition u.edition) ⟨⟩ := by
    simp only [he, Check.edition, hversion]
    exact Check.passes_pure.2 rfl
  have huses : Check.Passes (Check.namespacesOnto r [] u.uses) [Registry.standardNamespace] := by
    simp only [hd, Check.namespacesOnto, hns, hr.standard]
    exact Check.passes_pure.2 rfl
  have hsignatures := SourceUnit.signatures_eq_singleton hedition huses hm htypes hfunctions hsigns
  rw [hmodule.name, htype] at hsignatures
  exact ⟨sig, hsignatures, hf.name, ⟨p, hp, hparam.name⟩, hf.body, rfl, rfl⟩

/-! ## Artifacts -/

namespace Signature.Renders

variable {r : Registry} {o : Options} {shape : Shape} {contents : List TemplateContent}
  {P : List Segment → Prop} {s : Signature}

theorem exists_scope (h : s.Renders shape P) :
    ∃ scope, Scope.empty.ofParams [] (s.decl.params.zip s.params) = (scope, []) ∧
      ∃ slot l, scope.get? "model" = some (slot, l) ∧ l.type = .model 0 := by
  obtain ⟨p, hp, hname⟩ := h.model
  refine ⟨_, by rw [hp, h.params]; exact Scope.ofParams_singleton p _, 0,
    ⟨"model", .model 0, p.name.span⟩, ?_, rfl⟩
  simp [Scope.get?, Scope.slot?, hname]

/-- The `return` of a template with fewer than 32768 contents compiles. -/
theorem exists_ret (h : s.Renders shape (List.Forall₂ TemplateContent.Spells contents))
    (hr : r.Knows shape) (hflat : shape.Flat)
    (hcontents : ∀ h, .hole h ∈ contents → h.Valid shape ∧ h.InReach shape)
    (hlength : contents.length < 32768) (o : Options) :
    ∃ scope value span code P,
      Scope.empty.ofParams [] (s.decl.params.zip s.params) = (scope, []) ∧
        s.decl.body.stmts = [.ret value span] ∧
        Body.ret ⟨r, o, scope⟩ s.result.type value span .empty = ⟨.ok ⟨⟩, code, P⟩ := by
  obtain ⟨scope, hscope, hmodel⟩ := h.exists_scope
  obtain ⟨stmt, hstmts, segments, span, span', rfl, hspells⟩ := h.body
  have hmodels : Context.Models ⟨r, o, scope⟩ shape := ⟨hmodel, ⟨_, hr.shape?, rfl⟩, hflat⟩
  have hroom : 2 * contents.length + 2 ≤ UInt16.size := by
    have hsize : UInt16.size = 2 * 32767 + 2 := rfl
    omega
  obtain ⟨code, P, hok⟩ := Body.exists_ret_str (Context.affords_interpolated hmodels hspells hcontents
    (Nat.lt_trans hlength (by decide)) span) hroom span'
  exact ⟨scope, _, span', code, P, hscope, hstmts, by rw [h.result]; exact hok⟩

/-- The function's result is what the contents show. -/
theorem eval_eq (h : s.Renders shape (List.Forall₂ TemplateContent.Spells contents))
    (hr : r.Knows shape) (hcontents : ∀ h, .hole h ∈ contents → h.Valid shape) {m : Instance}
    (hm : shape.Fills m) (checked : Bool) :
    s.eval r checked [.object m] = .ok (.str (String.join (contents.map (·.render shape m)))) := by
  obtain ⟨p, hp, hname⟩ := h.model
  obtain ⟨stmt, hstmts, segments, span, span', rfl, hspells⟩ := h.body
  have henv : Env.ofParams [] (s.decl.params.zip s.params) [.object m] = Env.ofModel m := by
    rw [hp, h.params, List.zip_cons_cons, List.zip_nil_right, Env.ofParams, hname]
    rfl
  have hsegments : Segment.evalAll r checked (Env.ofModel m) segments =
      .ok (String.join (contents.map (·.render shape m))) :=
    evalAll_segments hr.shape? hm hspells hcontents
  rw [eval_ret_str hstmts h.result, henv, Expr.eval, hsegments]
  rfl

theorem accepts (h : s.Renders shape P) {Q : Pool} {f : CompiledFunction}
    (hf : Compilation.Makes r o Q s f) {m : Instance} (hm : shape.Fills m) :
    f.Accepts [.object m] := by
  have hhash : m.typeHash = shape.typeHash := congrArg TypeHash.ofName hm.typeName
  refine hf.accepts_iff.2 ⟨by rw [h.params]; rfl, ?_⟩
  simp [h.params, CompiledFunction.firstMismatch?, ValueType.accepts, hhash]

/-- A unit with this signature only has an artifact, whose function renders the models. -/
theorem exists_artifact (h : s.Renders shape (List.Forall₂ TemplateContent.Spells contents))
    (hr : r.Knows shape) (hflat : shape.Flat)
    (hcontents : ∀ h, .hole h ∈ contents → h.Valid shape ∧ h.InReach shape)
    (hlength : contents.length < 32768) {u : SourceUnit} {q : String}
    (hu : u.signatures r = ([⟨q, [s]⟩], [])) (o : Options) :
    ∃ a f, u.compile r o = .ok a ∧ a.function? q GeneratedUnit.entryPoint = some f ∧
      ∀ m, shape.Fills m → f.call a.pool [.object m] =
        .ok (.str (String.join (contents.map (·.render shape m)))) := by
  obtain ⟨scope, value, span, code, P, hscope, hstmts, hret⟩ :=
    h.exists_ret hr hflat hcontents hlength o
  obtain ⟨a, f, ha, hf, hmakes⟩ := SourceUnit.exists_function_of_ret hu hscope hstmts hret
  rw [h.name] at hf
  refine ⟨a, f, ha, hf, fun m hm => ?_⟩
  obtain ⟨-, hpool, -⟩ := SourceUnit.compile_eq_ok ha
  obtain ⟨stmt, hbody, segments, span', span'', rfl, hspells⟩ := h.body
  have hself : s.namesItself = false := by
    rw [Signature.namesItself, hbody]
    rfl
  have hfloat : s.decl.body.stmts.any Stmt.hasFloat = false := by
    rw [hbody, List.any_cons, List.any_nil, Bool.or_false]
    exact TemplateContent.leavesAll_of_spells hspells
  have hkeeps : Build.Keeps ⟨o.folds, a.pool.readFloat⟩ (Stmt.loads o.folds s.decl.body.stmts) := by
    rw [stmts_loads_eq_nil hfloat]
    intro x hx
    cases hx
  rw [hmakes.call_eq_eval hpool hself hkeeps (h.accepts hmakes hm)]
  exact h.eval_eq hr (fun h hh => (hcontents h hh).1) hm o.overflowChecks

end Signature.Renders

/-! ## Templates -/

/-- A template for models of the shape: its parts are valid, its texts stand apart, and the unit has
room for its contents. -/
structure TemplatePart.WellFormed (shape : Shape) (parts : List TemplatePart) : Prop where
  valid : ∀ p ∈ parts, p.Valid shape
  textsApart : TemplatePart.textsApart parts = true
  short : parts.length < 32768
  inReach : ∀ h, .hole h ∈ parts → h.InReach shape

variable {shape : Shape} {parts : List TemplatePart} {id : String}

/-- The unit of a template is parsed, as one that renders the template's contents. -/
theorem GeneratedUnit.exists_written (hshape : shape.Plain) (hid : id ≠ "")
    (hvalid : ∀ p ∈ parts, p.Valid shape) (hapart : TemplatePart.textsApart parts = true) :
    ∃ g u xs, synthesize [Registry.standardNamespace] [] id (TemplatePart.template parts) shape = .ok g ∧
      g.model = shape ∧ ModuleName.typePathOfId id = .ok (g.moduleName ++ "::" ++ g.typeName) ∧
      shape.hostName = "::".intercalate xs ∧ SourceUnit.parse g.source = .ok u ∧
      Written g.moduleName g.typeName xs
        (List.Forall₂ TemplateContent.Spells (TemplatePart.contents [] parts)) u := by
  obtain ⟨x, xs, hxs, hpath⟩ := hshape.path
  have hname : ModuleName.ofId id = .ok (String.ofList (ModuleName.encode id.toList)) := by
    simp [ModuleName.ofId, hid]
  obtain ⟨g, hg, hmodel⟩ : ∃ g, synthesize [Registry.standardNamespace] [] id
      (TemplatePart.template parts) shape = .ok g ∧ g.model = shape := by
    simp [synthesize, hshape.typeName, hname]
  obtain ⟨modelType, htype, hmodule, hnamed, hsource⟩ := synthesize_eq_ok hg
  obtain rfl : shape.hostName = modelType := Option.some.inj (hshape.typeName.symm.trans htype)
  have hbody : (Embed.embed (TemplatePart.template parts)).toList =
      parts.flatMap TemplatePart.embedded := by
    rw [Embed.embed, TemplatePart.template, String.toList_ofList, String.toList_ofList]
    exact TemplatePart.embedChars_source hvalid hapart
  rw [hpath] at hnamed hsource
  obtain ⟨u, hu, hwritten⟩ := exists_parse hxs hnamed hvalid hbody
  refine ⟨g, u, x :: xs, hg, hmodel, ?_, hpath, ?_, hwritten⟩
  · rw [ModuleName.typePathOfId, hmodule, hnamed.typeName]
    rfl
  · rw [hsource]
    exact hu

/-- A template compiles when its unit is written, parsed and compiled. -/
theorem Engine.compileTemplate_eq_ok {e : Engine} {catalog : Catalog} {template : String}
    {extra : List String} {a : Artifact} :
    e.compileTemplate catalog id template shape extra = .ok a ↔
      ∃ g r u, GeneratedUnit.synthesize e.namespaces extra id template shape = .ok g ∧
        e.registry catalog g.model = .ok r ∧ SourceUnit.parse g.source = .ok u ∧
          u.compile r e.options = .ok a := by
  unfold compileTemplate compileUnit compile
  constructor
  · intro h
    cases hg : GeneratedUnit.synthesize e.namespaces extra id template shape with
    | error err => simp [hg] at h
    | ok g =>
      cases hr : e.registry catalog g.model with
      | error err => simp [hg, hr] at h
      | ok r =>
        cases hu : SourceUnit.parse g.source with
        | error errors => simp [hg, hr, hu] at h
        | ok u =>
          cases ha : u.compile r e.options with
          | error ds => simp [hg, hr, hu, ha] at h
          | ok a' => exact ⟨g, r, u, rfl, hr, hu, by simpa [hg, hr, hu, ha] using h⟩
  · rintro ⟨g, r, u, hg, hr, hu, ha⟩
    simp [hg, hr, hu, ha]

/-- A template has an artifact, which renders every model of the shape. -/
theorem Engine.exists_artifact (hshape : shape.Plain) (hid : id ≠ "")
    (hparts : TemplatePart.WellFormed shape parts) (o : Options) (catalog : Catalog) :
    ∃ a, (ofOptions o).compileTemplate catalog id (TemplatePart.template parts) shape [] = .ok a ∧
      ∀ m, shape.Fills m → Invoker.standard.invoke a id m = .ok (TemplatePart.renderAll shape m parts) := by
  obtain ⟨g, u, xs, hg, hmodel, htypePath, hxs, hparse, hwritten⟩ :=
    GeneratedUnit.exists_written hshape hid hparts.valid hparts.textsApart
  obtain ⟨r, hregistry, hr⟩ := Registry.exists_registry hshape o catalog
  obtain ⟨s, hsignatures, hs⟩ := hwritten.exists_signature hr hshape hxs
  have hcontents : ∀ h, .hole h ∈ TemplatePart.contents [] parts → h.Valid shape ∧ h.InReach shape :=
    fun h hh =>
      ⟨hparts.valid _ (TemplatePart.mem_contents hh), hparts.inReach h (TemplatePart.mem_contents hh)⟩
  have hlength := Nat.lt_of_le_of_lt (TemplatePart.length_contents parts) hparts.short
  obtain ⟨a, f, ha, hf, hcall⟩ :=
    hs.exists_artifact hr hshape.flat hcontents hlength hsignatures o
  refine ⟨a, ?_, fun m hm => ?_⟩
  · exact compileTemplate_eq_ok.2 ⟨g, r, u, hg, hmodel ▸ hregistry, hparse, ha⟩
  obtain ⟨t, ht, hentry⟩ := Option.bind_eq_some_iff.1 hf
  have hstandard : t.function? Invoker.standard.entryPoint = some f := hentry
  have hjoin := TemplatePart.join_contents shape m parts []
  rw [String.ofList_nil, String.empty_append] at hjoin
  simp only [Invoker.invoke, htypePath, Invoker.invokeType, ht, hstandard, hcall m hm, hjoin]

end TypedTemplate
