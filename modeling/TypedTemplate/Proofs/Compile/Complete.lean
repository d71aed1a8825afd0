-- SUMMARY: A unit that compiles has exactly the functions it declares, with the types it declares.
import TypedTemplate.Proofs.Compile.Chunk
import TypedTemplate.Proofs.Compile.Declaration
import TypedTemplate.Proofs.Grammar.Opening

/-!
# What an artifact has

Every declaration that is passed over leaves an error behind. So a unit that compiles
has no two declarations of one name in one place, and its artifact has each of its
types and functions, those only, and with the parameters and results declared.
-/

namespace TypedTemplate

open Diagnostics

/-! ## Declared types -/

/-- The built-in types as a unit spells them. -/
def ValueType.builtins : List (String × ValueType) :=
  [("string", .str), ("int", .int), ("float", .float), ("bool", .bool)]

/-- What stands for a type in a unit that uses `uses`: a built-in type under its own name, or else
the model that is registered under the name, or behind the first namespace where there is one. -/
inductive TypeRef.Denotes (r : Registry) (uses : List String) (t : TypeRef) : ValueType → Prop
  | builtin {x : String} {v : ValueType} (hx : (x, v) ∈ ValueType.builtins)
      (ht : Grammar.IsPath [x] t) : Denotes r uses t v
  | model {id : ShapeId} {s : RegisteredShape}
      (ht : ∀ x v, (x, v) ∈ ValueType.builtins → ¬Grammar.IsPath [x] t)
      (hid : r.resolve t.text uses = some id) (hs : r.shape? id = some s) :
      Denotes r uses t (.model s.name s.hash)

namespace Check

variable {r : Registry} {uses uses' : List String} {t : TypeRef} {d : DeclaredType}

theorem isPath_iff {x : String} :
    Grammar.IsPath [x] t ↔ (t.path.isSimple && t.args.isEmpty) = true ∧ t.path.text = x := by
  rw [Bool.and_eq_true, List.isEmpty_iff, Path.isSimple, beq_iff_eq, Path.text]
  constructor
  · intro h
    have hlength := congrArg List.length h.segments
    exact ⟨⟨by simpa using hlength, h.args⟩, by rw [h.segments]; rfl⟩
  · rintro ⟨⟨hlength, hargs⟩, rfl⟩
    obtain ⟨x, hx⟩ := List.length_eq_one_iff.1 hlength
    exact ⟨by rw [hx]; rfl, hargs⟩

theorem builtin?_eq_some {x : String} {ty : Ty} (h : Ty.builtin? x = some ty) :
    ∃ v, (x, v) ∈ ValueType.builtins ∧ ty.valueType? r = some v := by
  unfold Ty.builtin? at h
  split at h
  · cases h
    exact ⟨.str, by decide, rfl⟩
  · cases h
    exact ⟨.int, by decide, rfl⟩
  · cases h
    exact ⟨.float, by decide, rfl⟩
  · cases h
    exact ⟨.bool, by decide, rfl⟩
  · cases h

theorem isSome_builtin? {x : String} {v : ValueType} (h : (x, v) ∈ ValueType.builtins) :
    (Ty.builtin? x).isSome = true := by
  simp only [ValueType.builtins, List.mem_cons, Prod.mk.injEq, List.not_mem_nil, or_false] at h
  rcases h with ⟨rfl, -⟩ | ⟨rfl, -⟩ | ⟨rfl, -⟩ | ⟨rfl, -⟩ <;> rfl

/-- A type that can be declared denotes the type that a caller sees. -/
theorem Declares.denotes (h : Declares r uses t d) : t.Denotes r uses d.valueType := by
  obtain ⟨hresolve, hvalue⟩ := h
  obtain ⟨hsimple, hbuiltin⟩ | ⟨hbuiltin, id, hid, htype⟩ := resolve_eq_ok hresolve
  · obtain ⟨v, hv, htype⟩ := builtin?_eq_some (r := r) hbuiltin
    obtain rfl : v = d.valueType := Option.some.inj (htype.symm.trans hvalue)
    exact .builtin hv (isPath_iff.2 ⟨hsimple, rfl⟩)
  · rw [htype] at hvalue
    obtain ⟨s, hs, hv⟩ := Option.map_eq_some_iff.1 hvalue
    rw [← hv]
    refine .model (fun x v hx ht => ?_) hid hs
    obtain ⟨hsimple, rfl⟩ := isPath_iff.1 ht
    have hsome := isSome_builtin? hx
    rw [hbuiltin hsimple] at hsome
    cases hsome

/-- A namespace used again finds nothing that it did not find before. -/
theorem Passes.findSome? {β : Type} {f : String → Option β} {ds : List UseDecl}
    (h : Passes (namespacesOnto r uses ds) uses') :
    uses'.findSome? f = (uses ++ ds.map (·.path.text)).findSome? f := by
  induction ds generalizing uses with
  | nil =>
    obtain rfl := passes_pure.1 h
    simp
  | cons d ds ih =>
    unfold namespacesOnto at h
    simp only at h
    split at h
    · rw [ih h]
      split
      case isTrue hused =>
        have hmem : d.path.text ∈ uses := by simpa using hused
        simp only [List.map_cons, List.findSome?_append, List.findSome?_cons]
        cases hfound : uses.findSome? f with
        | some b => rfl
        | none => rw [List.findSome?_eq_none_iff.1 hfound _ hmem]
      case isFalse => simp
    · obtain ⟨_, hreport, -⟩ := (passes_bind fun _ => reports_namespacesOnto uses ds).1 h
      exact absurd hreport not_passes_report

theorem Passes.denotes {ds : List UseDecl} {v : ValueType}
    (h : Passes (namespacesOnto r [] ds) uses) (ht : t.Denotes r uses v) :
    t.Denotes r (ds.map (·.path.text)) v := by
  have hresolve : r.resolve t.text uses = r.resolve t.text (ds.map (·.path.text)) := by
    simp only [Registry.resolve, h.findSome?, List.nil_append]
  cases ht with
  | builtin hx ht => exact .builtin hx ht
  | model hother hid hs => exact .model hother (hresolve ▸ hid) hs

end Check

/-! ## Parameters -/

namespace Scope

variable {s : Scope} {ds : Diagnostics}

/-- Parameters declared without errors have names of their own. -/
theorem nodup_ofParams {params : List (Param × DeclaredType)}
    (h : hasErrors (s.ofParams ds params).2 = false) :
    (params.map (·.1.name.name)).Nodup ∧ ∀ p ∈ params, s.get? p.1.name.name = none := by
  induction params generalizing s ds with
  | nil => simp
  | cons p rest ih =>
    obtain ⟨p, d⟩ := p
    unfold ofParams at h
    split at h
    case h_1 slot s' hdeclare =>
      obtain ⟨hnodup, hnone⟩ := ih h
      have hnew : s'.get? p.name.name = some (slot, ⟨p.name.name, d.type, p.name.span⟩) := by
        rw [get?_declare hdeclare, if_pos rfl]
      have hne : ∀ p' ∈ rest, p.name.name ≠ p'.1.name.name := by
        intro p' hp' heq
        have hnone := hnone p' hp'
        rw [← heq, hnew] at hnone
        cases hnone
      refine ⟨List.nodup_cons.2 ⟨?_, hnodup⟩, ?_⟩
      · intro hmem
        obtain ⟨p', hp', heq⟩ := List.mem_map.1 hmem
        exact hne p' hp' heq.symm
      · intro p' hp'
        rcases List.mem_cons.1 hp' with rfl | hp'
        · simp [get?, (declare_eq_ok hdeclare).1]
        · rw [← hnone p' hp', get?_declare hdeclare, if_neg (hne p' hp')]
    case h_2 e hdeclare =>
      rw [hasErrors_of_suffix (suffix_ofParams rest) (by simp)] at h
      cases h

end Scope

/-- A function compiled without errors has no two parameters of one name. -/
theorem Compilation.Makes.nodup_params {r : Registry} {o : Options} {Q : Pool} {uses : List String}
    {f : FunctionDecl} {s : Signature} {c : CompiledFunction} (h : Makes r o Q s c)
    (hs : Check.Signs r uses f s) : (f.params.map (·.name.name)).Nodup := by
  obtain ⟨pool, ds, -, -, herrors⟩ := h
  have hnodup := (Scope.nodup_ofParams (Signature.hasErrors_params herrors)).1
  have hlength := hs.params.length_eq
  rw [List.length_map] at hlength
  have hnames : (s.decl.params.zip s.params).map (·.1.name.name) = f.params.map (·.name.name) := by
    have hzip : (f.params.zip s.params).map Prod.fst = f.params :=
      List.map_fst_zip (Nat.le_of_eq hlength)
    calc (s.decl.params.zip s.params).map (·.1.name.name)
        = ((f.params.zip s.params).map Prod.fst).map (·.name.name) := by
          rw [hs.decl, List.map_map]
          rfl
      _ = f.params.map (·.name.name) := by rw [hzip]
  rwa [hnames] at hnodup

/-! ## Artifacts -/

/-- The compiled function takes values of the parameters' types, in order, and has the result type
declared. -/
structure CompiledFunction.Realizes (r : Registry) (uses : List String) (f : FunctionDecl)
    (c : CompiledFunction) : Prop where
  name : c.name = f.name.name
  params : List.Forall₂ (TypeRef.Denotes r uses) (f.params.map (·.type)) c.params
  result : f.returnType.Denotes r uses c.result

/-- No two declarations in one place have one name. -/
structure SourceUnit.Distinct (u : SourceUnit) : Prop where
  modules : (u.modules.map (·.name.name)).Nodup
  types : ∀ m ∈ u.modules, (m.types.map (·.name.name)).Nodup
  functions : ∀ m ∈ u.modules, ∀ t ∈ m.types, (t.functions.map (·.name.name)).Nodup
  params : ∀ m ∈ u.modules, ∀ t ∈ m.types, ∀ f ∈ t.functions, (f.params.map (·.name.name)).Nodup

/-- The artifact has the types and functions of the unit and no others. -/
structure Artifact.Presents (a : Artifact) (r : Registry) (u : SourceUnit) : Prop where
  types : ∀ q, (a.type? q).isSome = true ↔
    ∃ m ∈ u.modules, ∃ t ∈ m.types, q = m.name.name ++ "::" ++ t.name.name
  functions : ∀ m ∈ u.modules, ∀ t ∈ m.types, ∀ x,
    (a.function? (m.name.name ++ "::" ++ t.name.name) x).isSome = true ↔
      ∃ f ∈ t.functions, f.name.name = x
  realizes : ∀ m ∈ u.modules, ∀ t ∈ m.types, ∀ f ∈ t.functions,
    ∃ c, a.function? (m.name.name ++ "::" ++ t.name.name) f.name.name = some c ∧
      c.Realizes r (u.uses.map (·.path.text)) f

section

variable {α β : Type} {R : α → β → Prop} {as : List α} {bs : List β}

theorem isSome_of_rel {x : Option α} {y : Option β} (h : Option.Rel R x y) :
    x.isSome = y.isSome := by
  cases h <;> rfl

theorem exists_of_mem_left {a : α} (h : List.Forall₂ R as bs) (ha : a ∈ as) : ∃ b ∈ bs, R a b :=
  exists_of_mem_right h.flip ha

/-- Members that go with each other answer the same question alike. -/
theorem exists_mem_iff {p : α → Prop} {q : β → Prop} (h : List.Forall₂ R as bs)
    (hpq : ∀ a b, R a b → (p a ↔ q b)) : (∃ b ∈ bs, q b) ↔ ∃ a ∈ as, p a := by
  constructor
  · rintro ⟨b, hb, hq⟩
    obtain ⟨a, ha, hab⟩ := exists_of_mem_right h hb
    exact ⟨a, ha, (hpq a b hab).2 hq⟩
  · rintro ⟨a, ha, hp⟩
    obtain ⟨b, hb, hab⟩ := exists_of_mem_left h ha
    exact ⟨b, hb, (hpq a b hab).1 hp⟩

end

/-- A function is compiled to one with the types that its signature has. -/
theorem Compilation.Makes.realizes {r : Registry} {o : Options} {Q : Pool} {uses : List String}
    {ds : List UseDecl} {f : FunctionDecl} {s : Signature} {c : CompiledFunction}
    (h : Makes r o Q s c) (huses : Check.Passes (Check.namespacesOnto r [] ds) uses)
    (hs : Check.Signs r uses f s) : c.Realizes r (ds.map (·.path.text)) f where
  name := by rw [← h.name, hs.decl]
  params := by
    rw [h.params, List.forall₂_map_right_iff]
    exact hs.params.imp fun t d hd => huses.denotes hd.denotes
  result := by
    rw [h.result]
    exact huses.denotes hs.result.denotes

namespace SourceUnit

variable {u : SourceUnit} {r : Registry} {o : Options} {a : Artifact}

/-- The declarations of a unit that compiles are in order. -/
theorem exists_signsUnit (h : u.compile r o = .ok a) :
    ∃ uses sss, Check.SignsUnit r u uses sss ∧ sss.flatten = (u.signatures r).1 := by
  have hsignatures : hasErrors (u.signatures r).2 = false := by
    rw [← hasErrors_reverse]
    exact Compilation.hasErrors_of_after (compile_eq_ok h).1
  exact Check.passes_unit.1 (Check.passes_of_collect (Check.reports_unit u) hsignatures)

/-- The artifact has a type under each qualified name that the unit declares, and no other type. -/
theorem isSome_type?_iff (h : u.compile r o = .ok a) (q : String) :
    (a.type? q).isSome = true ↔
      ∃ m ∈ u.modules, ∃ t ∈ m.types, q = m.name.name ++ "::" ++ t.name.name := by
  obtain ⟨uses, sss, hunit, hflatten⟩ := exists_signsUnit h
  obtain ⟨-, -, htypes⟩ := compile_eq_ok h
  rw [← hflatten] at htypes
  have hcompiled : (∃ c ∈ a.types, c.qualifiedName = q) ↔ ∃ s ∈ sss.flatten, s.qualifiedName = q :=
    exists_mem_iff htypes fun s c hc => by rw [hc.1]
  have hmodules : (∃ ss ∈ sss, ∃ s ∈ ss, s.qualifiedName = q) ↔
      ∃ m ∈ u.modules, ∃ t ∈ m.types, q = m.name.name ++ "::" ++ t.name.name := by
    refine exists_mem_iff hunit.modules fun m ss hm =>
      (exists_mem_iff hm.types fun t s ht => ?_).symm
    rw [ht.qualifiedName, eq_comm]
  rw [Artifact.type?, List.find?_isSome]
  simp only [beq_iff_eq]
  rw [hcompiled, ← hmodules]
  simp only [List.mem_flatten]
  constructor
  · rintro ⟨s, ⟨ss, hss, hs⟩, hq⟩
    exact ⟨ss, hss, s, hs, hq⟩
  · rintro ⟨ss, hss, s, hs, hq⟩
    exact ⟨s, ⟨ss, hss, hs⟩, hq⟩

/-- A unit that compiles has no two declarations of one name in one place. -/
theorem distinct_of_compile (h : u.compile r o = .ok a) : u.Distinct := by
  obtain ⟨uses, sss, hunit, hflatten⟩ := exists_signsUnit h
  obtain ⟨-, -, htypes⟩ := compile_eq_ok h
  have hmodule : ∀ m ∈ u.modules, ∃ ss ∈ sss, Check.SignsModule r uses m ss :=
    fun m hm => exists_of_mem_left hunit.modules hm
  have htype : ∀ m ∈ u.modules, ∀ t ∈ m.types, ∃ s ∈ sss.flatten, Check.SignsType r uses m t s := by
    intro m hm t ht
    obtain ⟨ss, hss, hm⟩ := hmodule m hm
    obtain ⟨s, hs, ht⟩ := exists_of_mem_left hm.types ht
    exact ⟨s, List.mem_flatten.2 ⟨ss, hss, hs⟩, ht⟩
  refine ⟨hunit.distinct, ?_, ?_, ?_⟩
  · intro m hm
    obtain ⟨ss, -, hm⟩ := hmodule m hm
    exact hm.distinct
  · intro m hm t ht
    obtain ⟨s, -, ht⟩ := htype m hm t ht
    exact ht.distinct
  · intro m hm t ht f hf
    obtain ⟨s, hs, ht⟩ := htype m hm t ht
    obtain ⟨s', hs', hsigns⟩ := exists_of_mem_left ht.functions hf
    obtain ⟨c, -, hc⟩ := exists_of_mem_left htypes (hflatten ▸ hs)
    obtain ⟨e, -, hmakes⟩ := exists_of_mem_left hc.2 hs'
    exact hmakes.nodup_params hsigns

/-- Where no module has a colon in its name, the artifact of a unit has what the unit declares. -/
theorem presents_of_compile (h : u.compile r o = .ok a)
    (hcolon : ∀ m ∈ u.modules, ':' ∉ m.name.name.toList) : a.Presents r u := by
  obtain ⟨uses, sss, hunit, hflatten⟩ := exists_signsUnit h
  have htype : ∀ m ∈ u.modules, ∀ t ∈ m.types, ∃ s, Check.SignsType r uses m t s ∧
      ∀ x, u.signature? r (m.name.name ++ "::" ++ t.name.name) x =
        s.functions.find? (·.decl.name.name == x) := by
    intro m hm t ht
    obtain ⟨s, hs, hsigns⟩ := hunit.find?_of_mem hcolon hm ht
    refine ⟨s, hsigns, fun x => ?_⟩
    rw [signature?, ← hflatten, hs, Option.bind_some]
  refine ⟨isSome_type?_iff h, ?_, ?_⟩
  · intro m hm t ht x
    obtain ⟨s, hsigns, hsignature⟩ := htype m hm t ht
    have hdeclared : (∃ s' ∈ s.functions, s'.decl.name.name = x) ↔
        ∃ f ∈ t.functions, f.name.name = x :=
      exists_mem_iff hsigns.functions fun f s' hs' => by rw [hs'.decl]
    rw [← isSome_of_rel (function?_makes h _ x), hsignature, List.find?_isSome, ← hdeclared]
    simp only [beq_iff_eq]
  · intro m hm t ht f hf
    obtain ⟨s, hsigns, hsignature⟩ := htype m hm t ht
    obtain ⟨s', hs', hf⟩ := hsigns.find?_of_mem hf
    obtain ⟨c, hc, hmakes⟩ := exists_function h ((hsignature _).trans hs')
    exact ⟨c, hc, hmakes.realizes hunit.namespaces hf⟩

end SourceUnit

/-- **A compilation loses and invents nothing.** An artifact has a type under each qualified name
declared in its text and no other, each type has the functions declared in it and no others, each
function takes and gives the types declared for it, and names are distinct in every declaration. -/
theorem compile_complete {r : Registry} {o : Options} {source : String} {a : Artifact}
    (h : compile r o source = .ok a) :
    ∃ u, SourceUnit.parse source = .ok u ∧ a.Presents r u ∧ u.Distinct := by
  unfold compile at h
  split at h
  · rename_i u hparse
    have hcolon := SourceUnit.colon_not_mem_of_parse hparse
    exact ⟨u, hparse, SourceUnit.presents_of_compile h hcolon, SourceUnit.distinct_of_compile h⟩
  · cases h

set_option maxRecDepth 2000 in
/-- Two modules have a type of one name, and their functions differ in everything but the name. -/
theorem compile_complete_modules :
    let source := "module M \x7b
      type T \x7b fn F(x: int, y: float) -> int \x7b return x; \x7d \x7d \x7d
      module N \x7b type T \x7b fn F() -> bool \x7b return true; \x7d \x7d type U \x7b \x7d \x7d"
    ∃ a u, compile (.empty #[]) .standard source = .ok a ∧ SourceUnit.parse source = .ok u ∧
      u.modules.map (fun m => (m.name.name, m.types.map (·.name.name))) =
        [("M", ["T"]), ("N", ["T", "U"])] ∧
      a.Presents (.empty #[]) u ∧ u.Distinct := by
  intro source
  have hchars : source.toList = _ := toList_of_eq_ofList rfl
  have hok : (compile (.empty #[]) .standard source).isOk = true := by
    rw [compile, SourceUnit.parse, ← String.length_toList, hchars]
    decide +kernel
  have hmodules : (SourceUnit.parse source).toOption.map (·.modules.map fun m =>
      (m.name.name, m.types.map (·.name.name))) = some [("M", ["T"]), ("N", ["T", "U"])] := by
    rw [SourceUnit.parse, ← String.length_toList, hchars]
    decide +kernel
  cases ha : compile (.empty #[]) .standard source with
  | error ds =>
    rw [ha] at hok
    cases hok
  | ok a =>
    obtain ⟨u, hu, hpresents, hdistinct⟩ := compile_complete ha
    rw [hu] at hmodules
    exact ⟨a, u, rfl, hu, Option.some.inj hmodules, hpresents, hdistinct⟩

end TypedTemplate
