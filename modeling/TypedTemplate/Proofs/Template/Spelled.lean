-- SUMMARY: Which of the accepted host types a unit can name.
import TypedTemplate.Proofs.Template.Registered
import TypedTemplate.Proofs.Template.Spelling

/-!
# Types that units can name

A host name that is accepted is to be the name of a type in the units written for it. The
smallest such unit has one function, which takes a value of the type. It is parsed, and its
parameter is the registered type, just when the spelling is clear and no built-in type has it;
then every call with an instance of the type succeeds.
-/

namespace TypedTemplate

open Grammar

namespace Spelling

/-- The unit whose one function takes a value of the type called `name`. -/
def unitFor (name : String) : String :=
  "module M \x7b type T \x7b fn F(x: " ++ name ++ ") -> string \x7b return \"\"; \x7d \x7d \x7d"

/-- The tokens of such a unit up to the name of the type. -/
def openingForms : List Form :=
  [⟨.moduleWord, "module"⟩, ⟨.identifier, "M"⟩, ⟨.leftBrace, "\x7b"⟩, ⟨.typeWord, "type"⟩,
   ⟨.identifier, "T"⟩, ⟨.leftBrace, "\x7b"⟩, ⟨.fnWord, "fn"⟩, ⟨.identifier, "F"⟩,
   ⟨.leftParen, "("⟩, ⟨.identifier, "x"⟩, ⟨.colon, ":"⟩]

/-- The token of the empty string. -/
def emptyForm : Form := ⟨.stringLiteral, "\"\""⟩

/-- The tokens of the unit for a type with the tokens `ts`. -/
def unitForms (ts : List Form) : List Form :=
  openingForms ++ (ts ++ (GeneratedUnit.resultForms ++ emptyForm :: GeneratedUnit.closingForms))

/-! ## Parsing -/

theorem cuts_unitFor {t : TypeRef} (ht : t.AllNames IsIdentifier) :
    Cuts (unitFor t.text).toList (unitForms t.forms) [] := by
  have hend : ") -> string \x7b return \"\"; \x7d \x7d \x7d" =
    ") -> string \x7b return " ++ ("\"\"" ++ ("; \x7d \x7d " ++ "\x7d")) := rfl
  have hquotes : "\"\"".toList = ['"', '"'] := rfl
  have hbrace : "\x7d".toList = ['\x7d'] := rfl
  have htext : (unitFor t.text).toList = "module M \x7b type T \x7b fn F(x: ".toList ++
      (t.text.toList ++ (") -> string \x7b return ".toList ++
        '"' :: '"' :: ("; \x7d \x7d ".toList ++ ['\x7d']))) := by
    unfold unitFor
    simp only [hend, String.toList_append, List.append_assoc, hquotes, hbrace, List.cons_append,
      List.nil_append]
  rw [htext, unitForms]
  refine (Cuts.fixed openingForms (by decide +kernel) _).trans ((ht.cuts ?_).trans ?_)
  · rintro _ ⟨⟩
    decide
  refine (Cuts.fixed GeneratedUnit.resultForms (by decide +kernel) _).trans ?_
  have hempty (rest : List Char) : Cuts ('"' :: '"' :: rest) [emptyForm] rest :=
    Cuts.scan (by decide) fun _ => ⟨rfl, rfl⟩
  refine (hempty _).trans ?_
  exact (Cuts.fixed [⟨.semicolon, ";"⟩, ⟨.rightBrace, "\x7d"⟩, ⟨.rightBrace, "\x7d"⟩]
    (by decide +kernel) _).trans (Cuts.mark rfl (by simp))

/-- The function takes a value of the type that reads `type`, and returns the empty string. -/
structure TakesOne (type : String) (f : FunctionDecl) : Prop where
  name : f.name.name = "F"
  param : ∃ p, f.params = [p] ∧ p.name.name = "x" ∧ p.type.text = type
  result : IsPath ["string"] f.returnType
  body : ∃ span span', f.body.stmts = [.ret (.literal (.str "") span) span']

/-- The unit has one such function. -/
structure IsUnitFor (type : String) (u : SourceUnit) : Prop where
  edition : u.edition = none
  uses : u.uses = []
  modules : ∃ m, u.modules = [m] ∧ Encloses "M" "T" (TakesOne type) m

theorem takes_unitForms (g : Grammar) {I : Token → Prop} {t : TypeRef}
    (ht : t.AllNames IsIdentifier) :
    g.declarations.Takes I (unitForms t.forms)
      (fun d => d.1 = none ∧ d.2.1 = [] ∧ ∃ m, d.2.2 = [m] ∧ Encloses "M" "T" (TakesOne t.text) m)
      [] := by
  refine takes_declarations_module fun start => takes_moduleDecl start "M" "T" fun start => ?_
  have hempty (token : Token) (_ : I token) (htoken : token.form = emptyForm) :
      UnaryOp.ofToken? token.kind = none ∧
        ∃ e, g.atom? token = some (.ok (e, [])) ∧ ∃ span, e = .literal (.str "") span := by
    have hkind : token.kind = .stringLiteral := congrArg Form.kind htoken
    have hlexeme : token.lexeme = "\"\"" := congrArg Form.lexeme htoken
    refine ⟨by simp [hkind, UnaryOp.ofToken?], .literal (.str "") token.span, ?_, token.span, rfl⟩
    simp [atom?, hkind, stringBody, hlexeme]
    rfl
  refine (takes_function start "F" (takes_param_alone "x" (ht.taken (by rintro _ ⟨⟩; decide)))
    (takes_typeRef (by rintro _ ⟨⟩; decide) "string" [])
    (takes_block_ret (takes_ret_atom hempty))).imp ?_
  rintro f ⟨hname, hparam, hresult, s, hs, e, span, rfl, span', rfl⟩
  exact ⟨hname, hparam, hresult, span', span, hs⟩

/-- The unit for the text of a type is parsed. -/
theorem exists_parse {t : TypeRef} (ht : t.AllNames IsIdentifier) :
    ∃ u, SourceUnit.parse (unitFor t.text) = .ok u ∧ IsUnitFor t.text u := by
  have hplain : ∀ f ∈ unitForms t.forms, f.Plain := by
    intro f hf
    simp only [unitForms, List.mem_append, List.mem_cons] at hf
    rcases hf with hf | hf | hf | rfl | hf
    · exact (by decide : ∀ f ∈ openingForms, f.Plain) f hf
    · exact ht.plain_forms f hf
    · exact (by decide : ∀ f ∈ GeneratedUnit.resultForms, f.Plain) f hf
    · decide
    · exact GeneratedUnit.plain_closingForms f hf
  obtain ⟨u, hparse, hedition, huses, hmodules⟩ :=
    SourceUnit.exists_parse_of_cuts (cuts_unitFor ht)
      (fun f hf => (hplain f hf).1) (takes_unitForms _ ht)
  exact ⟨u, hparse, hedition, huses, hmodules⟩

end Spelling

/-! ## Compiling -/

/-- The parameters of all functions of the unit. -/
def SourceUnit.params (u : SourceUnit) : List Param :=
  u.modules.flatMap fun m => m.types.flatMap fun t => t.functions.flatMap (·.params)

/-- The signature takes `p`, declared as `d`, and returns the empty string. -/
structure Signature.ReturnsEmpty (p : Param) (d : DeclaredType) (s : Signature) : Prop where
  name : s.decl.name.name = "F"
  param : s.decl.params = [p]
  declared : s.params = [d]
  result : s.result = ⟨.str, .str⟩
  body : ∃ span span', s.decl.body.stmts = [.ret (.literal (.str "") span) span']

variable {u : SourceUnit} {r : Registry} {p : Param} {d : DeclaredType} {type : String}

namespace Spelling.IsUnitFor

theorem exists_param (hu : IsUnitFor type u) : ∃ p, u.params = [p] ∧ p.type.text = type := by
  obtain ⟨m, hm, hmodule⟩ := hu.modules
  obtain ⟨t, f, htypes, -, hfunctions, hf⟩ := hmodule.types
  obtain ⟨p, hp, -, htype⟩ := hf.param
  exact ⟨p, by simp [SourceUnit.params, hm, htypes, hfunctions, hp], htype⟩

/-- Where the parameter's type can be declared, the declarations pass. -/
theorem exists_signature (hu : IsUnitFor type u) (hp : u.params = [p])
    (hd : Check.Declares r [] p.type d) :
    ∃ s, u.signatures r = ([⟨"M::T", [s]⟩], []) ∧ s.ReturnsEmpty p d := by
  obtain ⟨m, hm, hmodule⟩ := hu.modules
  obtain ⟨t, f, htypes, htype, hfunctions, hf⟩ := hmodule.types
  obtain ⟨p', hp', -, -⟩ := hf.param
  obtain rfl : p' = p := by simpa [SourceUnit.params, hm, htypes, hfunctions, hp'] using hp
  let s : Signature := ⟨f, [d], ⟨.str, .str⟩⟩
  have hsigns : Check.Signs r [] f s := by
    refine ⟨rfl, ?_, Check.declares_string hf.result⟩
    rw [hp']
    exact .cons hd .nil
  have hedition : Check.Passes (Check.edition u.edition) ⟨⟩ := by
    rw [hu.edition]
    exact Check.passes_pure.2 rfl
  have huses : Check.Passes (Check.namespacesOnto r [] u.uses) [] := by
    rw [hu.uses]
    exact Check.passes_pure.2 rfl
  have hsignatures := SourceUnit.signatures_eq_singleton hedition huses hm htypes hfunctions hsigns
  rw [hmodule.name, htype] at hsignatures
  exact ⟨s, hsignatures, hf.name, hp', rfl, rfl, hf.body⟩

end Spelling.IsUnitFor

namespace Signature.ReturnsEmpty

variable {s : Signature} {o : Options}

theorem exists_ret (h : s.ReturnsEmpty p d) (r : Registry) (o : Options) :
    ∃ scope value span code P,
      Scope.empty.ofParams [] (s.decl.params.zip s.params) = (scope, []) ∧
        s.decl.body.stmts = [.ret value span] ∧
        Body.ret ⟨r, o, scope⟩ s.result.type value span .empty = ⟨.ok ⟨⟩, code, P⟩ := by
  obtain ⟨span, span', hbody⟩ := h.body
  have hvalue (c : Context) : (c.infer (.literal (.str "") span)).Affords 1 fun t _ => t = .str :=
    (Emit.affords_constant _).bind fun _ _ _ => Emit.affords_pure rfl
  obtain ⟨code, P, hok⟩ := Body.exists_ret_str (hvalue ⟨r, o, _⟩) (by decide) span'
  refine ⟨_, _, span', code, P, ?_, hbody, by rw [h.result]; exact hok⟩
  rw [h.param, h.declared]
  exact Scope.ofParams_singleton p d

/-- A unit with this signature only has an artifact, whose function takes all values of the type. -/
theorem exists_artifact (h : s.ReturnsEmpty p d) (hu : u.signatures r = ([⟨"M::T", [s]⟩], []))
    (o : Options) :
    ∃ a f, u.compile r o = .ok a ∧ a.function? "M::T" "F" = some f ∧
      ∀ v, d.valueType.accepts v = true → f.call a.pool [v] = .ok (.str "") := by
  obtain ⟨scope, value, span, code, P, hscope, hstmts, hret⟩ := h.exists_ret r o
  obtain ⟨a, f, ha, hf, hmakes⟩ := SourceUnit.exists_function_of_ret hu hscope hstmts hret
  rw [h.name] at hf
  refine ⟨a, f, ha, hf, fun v hv => ?_⟩
  obtain ⟨-, hpool, -⟩ := SourceUnit.compile_eq_ok ha
  obtain ⟨span', span'', hbody⟩ := h.body
  have hself : s.namesItself = false := by
    rw [Signature.namesItself, hbody]
    rfl
  have hkeeps : Build.Keeps ⟨o.folds, a.pool.readFloat⟩ (Stmt.loads o.folds s.decl.body.stmts) := by
    rw [hbody]
    intro x hx
    cases hx
  have haccepts : f.Accepts [v] := by
    refine hmakes.accepts_iff.2 ⟨by rw [h.declared]; rfl, ?_⟩
    simp [h.declared, CompiledFunction.firstMismatch?, hv]
  rw [hmakes.call_eq_eval hpool hself hkeeps haccepts, Signature.eval_ret_str hbody h.result,
    Expr.eval]
  rfl

end Signature.ReturnsEmpty

/-! ## Accepted types -/

/-- The unit names the type registered at `id`: its only parameter reads like the type and resolves
to it, and the function built of the unit, whatever the options, takes every instance. -/
structure SourceUnit.Names (u : SourceUnit) (r : Registry) (id : ShapeId) (s : RegisteredShape) :
    Prop where
  param : ∃ p, u.params = [p] ∧ p.type.text = s.name ∧ Check.resolve r [] p.type = .ok (.model id)
  call : ∀ o : Options, ∃ a f, u.compile r o = .ok a ∧ a.function? "M::T" "F" = some f ∧
    ∀ m : Instance, m.typeName = s.shape.hostName → f.call a.pool [.object m] = .ok (.str "")

namespace Spelling

variable {raw name : String} {id : ShapeId} {s : RegisteredShape}

theorem allNames_params (hu : SourceUnit.parse name = .ok u) :
    ∀ p ∈ u.params, p.type.AllNames IsWord := by
  intro p hp
  simp only [SourceUnit.params, List.mem_flatMap] at hp
  obtain ⟨m, hm, t, ht, f, hf, hp⟩ := hp
  exact SourceUnit.namesWords hu m hm t ht f hf p hp

/-- The unit for the text of a registered type that is no built-in one names it. -/
theorem exists_names {t : TypeRef} (ht : t.AllNames IsIdentifier) (hr : r.Sound)
    (hs : r.shape? id = some s) (hname : t.text = s.name) (hforeign : Ty.builtin? s.name = none) :
    ∃ u, SourceUnit.parse (unitFor s.name) = .ok u ∧ u.Names r id s := by
  obtain ⟨u, hu, hunit⟩ := exists_parse ht
  rw [hname] at hu hunit
  obtain ⟨p, hp, htext⟩ := hunit.exists_param
  have hwords := allNames_params hu p (by simp [hp])
  have hresolve := (Check.resolve_eq_model hr hs hwords htext []).2 hforeign
  have hdeclares := Check.declares_registered hr hs hresolve
  obtain ⟨sig, hsignatures, hsig⟩ := hunit.exists_signature hp hdeclares
  refine ⟨u, hu, ⟨p, hp, htext, hresolve⟩, fun o => ?_⟩
  obtain ⟨a, f, ha, hf, hcall⟩ := hsig.exists_artifact hsignatures o
  refine ⟨a, f, ha, hf, fun m hm => hcall _ ?_⟩
  have hhash : m.typeHash = s.shape.typeHash := congrArg TypeHash.ofName hm
  simp [ValueType.accepts, hhash]

/-- Of the types that are accepted, units can name just those with a clear spelling that is not the
name of a built-in type. -/
theorem exists_names_iff (hname : normalize raw = some name) (hr : r.Built)
    (hs : r.shape? id = some s) (hraw : s.shape.hostName = raw) :
    (∃ u, SourceUnit.parse (unitFor name) = .ok u ∧ u.Names r id s) ↔
      Clear name.toList ∧ Ty.builtin? name = none := by
  have hsound := hr.sound
  obtain rfl : name = s.name := by
    have htypeName := hsound.typeName hs
    rw [Shape.typeName, hraw, hname] at htypeName
    exact Option.some.inj htypeName
  constructor
  · rintro ⟨u, hu, ⟨p, hp, htext, hresolve⟩, -⟩
    have hwords := allNames_params hu p (by simp [hp])
    have hclear : Clear (p.type.text.toList ++ []) := clear_text hwords (by simp) clear_nil
    rw [List.append_nil, htext] at hclear
    exact ⟨hclear, (Check.resolve_eq_model hsound hs hwords htext []).1 hresolve⟩
  · rintro ⟨hclear, hforeign⟩
    obtain ⟨t, ht, htext⟩ := exists_typeRef hname hclear
    exact exists_names ht hsound hs htext hforeign

/-- A type with two arguments, registered under its spelling without blanks, is named by its unit. -/
theorem exists_names_pair :
    normalize "app::Pair<app::A, app::B>" = some "app::Pair<app::A,app::B>" ∧
      ∃ (r : Registry) (s : RegisteredShape), r.Built ∧ r.shape? 0 = some s ∧
        s.shape.hostName = "app::Pair<app::A, app::B>" ∧
        ∃ u, SourceUnit.parse (unitFor "app::Pair<app::A,app::B>") = .ok u ∧ u.Names r 0 s := by
  have hname : normalize "app::Pair<app::A, app::B>" = some "app::Pair<app::A,app::B>" := by
    decide +kernel
  have hclear : Clear "app::Pair<app::A,app::B>".toList := by decide +kernel
  let shape : Shape := ⟨"app::Pair<app::A, app::B>", []⟩
  have hr : ((Registry.empty #[]).register shape).2.Built := .register shape (.empty #[])
  have hregister : ((Registry.empty #[]).register shape).2 =
      (Registry.empty #[]).enter "app::Pair<app::A,app::B>" shape := by
    have htypeName : shape.typeName = some "app::Pair<app::A,app::B>" := hname
    have hlookup : (Registry.empty #[]).lookup "app::Pair<app::A,app::B>" = none := by
      simp [Registry.lookup, Registry.empty]
    have hnested : shape.nested = [] := rfl
    rw [Registry.register, Registry.registerTo]
    simp only [htypeName, hlookup, hnested, Registry.registerAllTo]
  have hs : ((Registry.empty #[]).register shape).2.shape? 0 =
      some ⟨"app::Pair<app::A,app::B>", shape, shape.typeHash⟩ := by
    rw [hregister, Registry.shape?, Registry.shapes_enter]
    rfl
  exact ⟨hname, _, _, hr, hs, rfl, (exists_names_iff hname hr hs rfl).2 ⟨hclear, rfl⟩⟩

/-- A keyword among the segments is accepted, and the unit for the type is refused. -/
theorem not_parse_unitFor_keyword :
    normalize "app::module::P" = some "app::module::P" ∧
      ¬ ∃ u, SourceUnit.parse (unitFor "app::module::P") = .ok u := by
  have hrefused : (SourceUnit.parse (unitFor "app::module::P")).isOk = false := by decide +kernel
  refine ⟨by decide +kernel, ?_⟩
  rintro ⟨u, hu⟩
  rw [hu] at hrefused
  cases hrefused

end Spelling

end TypedTemplate
