-- SUMMARY: A unit whose declarations pass the checks has the signature of each function under its name.
import Mathlib.Data.List.Forall2
import TypedTemplate.Proofs.Compile.Artifact

/-!
# Declarations

A check reports errors only and never takes one back. So where nothing is reported in
the end, each part passed, and the checks say what was declared: names are distinct,
types are known, and every function has a signature that is found under its name.
-/

namespace TypedTemplate

open Diagnostics

namespace Check

variable {α β : Type} {m : Check α} {next : α → Check β} {a : α} {b : β} {r : Registry}
  {uses : List String}

/-! ## Checks that report nothing -/

/-- The check gives `a` and reports nothing. -/
def Passes (m : Check α) (a : α) : Prop := m.run [] = (a, [])

/-- The check keeps what was reported before and puts errors only before it. -/
def Reports (m : Check α) : Prop :=
  ∀ ds, ∃ es, (m.run ds).2 = es ++ ds ∧ ∀ d ∈ es, d.isError = true

theorem reports_pure (a : α) : Reports (pure a) := fun _ => ⟨[], rfl, by simp⟩

theorem reports_report (e : CompilationError) : Reports (report e) :=
  fun _ => ⟨[.ofCompilationError e], rfl, by simp [Diagnostic.ofCompilationError, Diagnostic.isError]⟩

theorem Reports.bind (hm : Reports m) (hnext : ∀ a, Reports (next a)) : Reports (m >>= next) := by
  intro ds
  obtain ⟨es, hes, herrors⟩ := hm ds
  obtain ⟨es', hes', herrors'⟩ := hnext (m.run ds).1 (m.run ds).2
  refine ⟨es' ++ es, ?_, ?_⟩
  · rw [List.append_assoc, ← hes]
    exact hes'
  · intro d hd
    rcases List.mem_append.1 hd with hd | hd
    · exact herrors' d hd
    · exact herrors d hd

theorem Passes.unique {a' : α} (h : Passes m a) (h' : Passes m a') : a = a' :=
  congrArg Prod.fst (h.symm.trans h')

@[simp] theorem passes_pure {a' : α} : Passes (pure a') a ↔ a' = a := by
  constructor
  · exact fun h => congrArg Prod.fst h
  · rintro rfl
    rfl

@[simp] theorem not_passes_report {e : CompilationError} {u : PUnit} : ¬ Passes (report e) u :=
  fun h => List.cons_ne_nil _ _ (congrArg Prod.snd h)

theorem passes_bind (hnext : ∀ a, Reports (next a)) :
    Passes (m >>= next) b ↔ ∃ a, Passes m a ∧ Passes (next a) b := by
  constructor
  · intro h
    obtain ⟨es, hes, -⟩ := hnext (m.run []).1 (m.run []).2
    have hrun : (next (m.run []).1).run (m.run []).2 = (b, []) := h
    have hnil : (m.run []).2 = [] := by
      rw [hrun] at hes
      exact (List.append_eq_nil_iff.1 hes.symm).2
    refine ⟨(m.run []).1, Prod.ext rfl hnil, ?_⟩
    rw [hnil] at hrun
    exact hrun
  · rintro ⟨a, hm, hnext⟩
    have hrun : (m >>= next).run [] = (next (m.run []).1).run (m.run []).2 := rfl
    unfold Passes at hm hnext ⊢
    rw [hrun, hm, hnext]

/-- A check passes when no error is among its diagnostics. -/
theorem passes_of_collect (hm : Reports m) (h : hasErrors m.collect.2 = false) :
    Passes m m.collect.1 := by
  obtain ⟨es, hes, herrors⟩ := hm []
  refine Prod.ext rfl ?_
  rw [hes]
  cases es with
  | nil => rfl
  | cons d es =>
    have hd : d ∈ m.collect.2 := by
      have hcollect : m.collect.2 = (m.run []).2.reverse := rfl
      rw [hcollect, hes]
      simp
    rw [hasErrors_iff.2 ⟨d, hd, herrors d List.mem_cons_self⟩] at h
    cases h

theorem Passes.collect (h : Passes m a) : m.collect = (a, []) := by
  have hcollect : m.collect = ((m.run []).1, (m.run []).2.reverse) := rfl
  rw [hcollect, h]
  rfl

/-! ## Distinct names -/

theorem reports_distinct {name : α → Ident} {visit : α → Check β} (hvisit : ∀ a, Reports (visit a))
    (seen : List String) (as : List α) : Reports (distinct name visit seen as) := by
  induction as generalizing seen with
  | nil => exact reports_pure []
  | cons a as ih =>
    unfold distinct
    simp only
    split
    · exact (reports_report _).bind fun _ => ih seen
    · exact (hvisit a).bind fun b => (ih _).bind fun bs => reports_pure _

/-- Items with distinct names pass when each of them does. -/
theorem passes_distinct {name : α → Ident} {visit : α → Check β}
    (hvisit : ∀ a, Reports (visit a)) {seen : List String} {as : List α} {bs : List β} :
    Passes (distinct name visit seen as) bs ↔
      (∀ a ∈ as, (name a).name ∉ seen) ∧ (as.map fun a => (name a).name).Nodup ∧
        List.Forall₂ (fun a b => Passes (visit a) b) as bs := by
  induction as generalizing seen bs with
  | nil => simp [distinct, eq_comm]
  | cons a as ih =>
    have hreports : ∀ seen, Reports (distinct name visit seen as) :=
      fun seen => reports_distinct hvisit seen as
    unfold distinct
    simp only
    split
    case isTrue hseen =>
      rw [passes_bind fun _ => hreports seen]
      have hmem : (name a).name ∈ seen := by simpa using hseen
      simp [hmem]
    case isFalse hseen =>
      rw [passes_bind fun b => (hreports _).bind fun bs => reports_pure _]
      simp only [passes_bind fun bs => reports_pure _, ih, passes_pure]
      have hmem : (name a).name ∉ seen := by simpa using hseen
      constructor
      · rintro ⟨b, hb, bs', ⟨hnot, hnodup, hall⟩, rfl⟩
        refine ⟨?_, ?_, .cons hb hall⟩
        · intro a' ha'
          rcases List.mem_cons.1 ha' with rfl | ha'
          · exact hmem
          · exact fun h => hnot a' ha' (List.mem_cons_of_mem _ h)
        · refine List.nodup_cons.2 ⟨?_, hnodup⟩
          intro h
          obtain ⟨a', ha', heq⟩ := List.mem_map.1 h
          exact hnot a' ha' (heq ▸ List.mem_cons_self)
      · rintro ⟨hnot, hnodup, hall⟩
        obtain ⟨hhead, hnodup⟩ := List.nodup_cons.1 hnodup
        cases hall with
        | @cons _ b _ bs hb hall =>
          refine ⟨b, hb, bs, ⟨?_, hnodup, hall⟩, rfl⟩
          intro a' ha' h
          rcases List.mem_cons.1 h with h | h
          · exact hhead (List.mem_map.2 ⟨a', ha', h⟩)
          · exact hnot a' (List.mem_cons_of_mem a ha') h

/-! ## Signatures -/

/-- The type named is known and can be declared. -/
def Declares (r : Registry) (uses : List String) (t : TypeRef) (d : DeclaredType) : Prop :=
  resolve r uses t = .ok d.type ∧ d.type.valueType? r = some d.valueType

theorem reports_declared (t : TypeRef) : Reports (declared r uses t) := by
  unfold declared
  split
  · exact (reports_report _).bind fun _ => reports_pure _
  · split
    · exact reports_pure _
    · exact (reports_report _).bind fun _ => reports_pure _

theorem passes_declared {t : TypeRef} {d? : Option DeclaredType} :
    Passes (declared r uses t) d? ↔ ∃ d, d? = some d ∧ Declares r uses t d := by
  unfold declared Declares
  split
  · rename_i hresolve
    rw [passes_bind fun _ => reports_pure _]
    simp [hresolve]
  · rename_i type hresolve
    split
    · rename_i valueType hvalue
      simp only [passes_pure, hresolve, Except.ok.injEq]
      constructor
      · rintro rfl
        exact ⟨_, rfl, rfl, hvalue⟩
      · rintro ⟨⟨type', valueType'⟩, rfl, rfl, hvalue'⟩
        rw [Option.some.inj (hvalue.symm.trans hvalue')]
    · rename_i hvalue
      simp only [passes_bind fun _ => reports_pure _, not_passes_report, false_and, exists_false,
        false_iff, hresolve, Except.ok.injEq]
      rintro ⟨d, -, rfl, hvalue'⟩
      rw [hvalue'] at hvalue
      cases hvalue

theorem reports_declaredAll (ts : List TypeRef) : Reports (declaredAll r uses ts) := by
  induction ts with
  | nil => exact reports_pure []
  | cons t ts ih => exact (reports_declared t).bind fun d => ih.bind fun ds => reports_pure _

theorem passes_declaredAll {ts : List TypeRef} {ds : List (Option DeclaredType)} :
    Passes (declaredAll r uses ts) ds ↔
      ∃ ds', ds = ds'.map some ∧ List.Forall₂ (Declares r uses) ts ds' := by
  induction ts generalizing ds with
  | nil => simp [declaredAll, eq_comm]
  | cons t ts ih =>
    unfold declaredAll
    rw [passes_bind fun d => (reports_declaredAll ts).bind fun ds => reports_pure _]
    simp only [passes_bind fun ds => reports_pure _, passes_declared, ih, passes_pure]
    constructor
    · rintro ⟨_, ⟨d, rfl, hd⟩, _, ⟨ds', rfl, hds'⟩, rfl⟩
      exact ⟨d :: ds', rfl, .cons hd hds'⟩
    · rintro ⟨ds', rfl, hall⟩
      cases hall with
      | @cons _ d _ ds' hd hds' => exact ⟨_, ⟨d, rfl, hd⟩, _, ⟨ds', rfl, hds'⟩, rfl⟩

theorem whole?_map_some (as : List α) : whole? (as.map some) = some as := by
  induction as with
  | nil => rfl
  | cons a as ih => simp [whole?, ih]

/-- The signature is that of the function, whose types are known. -/
structure Signs (r : Registry) (uses : List String) (f : FunctionDecl) (s : Signature) : Prop where
  decl : s.decl = f
  params : List.Forall₂ (Declares r uses) (f.params.map (·.type)) s.params
  result : Declares r uses f.returnType s.result

theorem reports_signature (f : FunctionDecl) : Reports (signature r uses f) := by
  refine (reports_declaredAll _).bind fun params => (reports_declared _).bind fun result => ?_
  split <;> exact reports_pure _

theorem passes_signature {f : FunctionDecl} {s? : Option Signature} :
    Passes (signature r uses f) s? ↔ ∃ s, s? = some s ∧ Signs r uses f s := by
  unfold signature
  refine (passes_bind fun params => (reports_declared _).bind fun result => ?_).trans ?_
  · split <;> exact reports_pure _
  constructor
  · rintro ⟨_, hps, h⟩
    obtain ⟨_, hr, h⟩ := (passes_bind fun result => by split <;> exact reports_pure _).1 h
    obtain ⟨params, rfl, hparams⟩ := passes_declaredAll.1 hps
    obtain ⟨result, rfl, hresult⟩ := passes_declared.1 hr
    rw [whole?_map_some] at h
    obtain rfl := passes_pure.1 h
    exact ⟨_, rfl, rfl, hparams, hresult⟩
  · rintro ⟨⟨_, params, result⟩, rfl, rfl, hparams, hresult⟩
    refine ⟨_, passes_declaredAll.2 ⟨params, rfl, hparams⟩, ?_⟩
    refine (passes_bind fun result => by split <;> exact reports_pure _).2
      ⟨_, passes_declared.2 ⟨result, rfl, hresult⟩, ?_⟩
    rw [whole?_map_some]
    exact passes_pure.2 rfl

/-! ## Types and modules -/

/-- The type signature is that of a type of the module. -/
structure SignsType (r : Registry) (uses : List String) (m : ModuleDecl) (t : TypeDecl)
    (s : TypeSignature) : Prop where
  qualifiedName : s.qualifiedName = m.name.name ++ "::" ++ t.name.name
  distinct : (t.functions.map (·.name.name)).Nodup
  functions : List.Forall₂ (Signs r uses) t.functions s.functions

theorem reports_typeSignature (m : ModuleDecl) (t : TypeDecl) :
    Reports (typeSignature r uses m t) :=
  (reports_distinct (fun f => reports_signature f) _ _).bind fun _ => reports_pure _

theorem forall₂_some {R : α → β → Prop} {as : List α} {bs : List (Option β)} :
    List.Forall₂ (fun a b? => ∃ b, b? = some b ∧ R a b) as bs ↔
      ∃ bs', bs = bs'.map some ∧ List.Forall₂ R as bs' := by
  constructor
  · intro h
    induction h with
    | nil => exact ⟨[], rfl, .nil⟩
    | cons hab _ ih =>
      obtain ⟨b, rfl, hb⟩ := hab
      obtain ⟨bs', rfl, hbs'⟩ := ih
      exact ⟨b :: bs', rfl, .cons hb hbs'⟩
  · rintro ⟨bs', rfl, h⟩
    induction h with
    | nil => exact .nil
    | cons hab _ ih => exact .cons ⟨_, rfl, hab⟩ ih

theorem passes_typeSignature {m : ModuleDecl} {t : TypeDecl} {s : TypeSignature} :
    Passes (typeSignature r uses m t) s ↔ SignsType r uses m t s := by
  unfold typeSignature
  rw [passes_bind fun _ => reports_pure _]
  simp only [passes_distinct fun f => reports_signature f, passes_signature, forall₂_some,
    passes_pure, List.not_mem_nil, not_false_eq_true, implies_true, true_and]
  constructor
  · rintro ⟨_, ⟨hnodup, functions, rfl, hall⟩, rfl⟩
    exact ⟨rfl, hnodup, by simpa [List.filterMap_map] using hall⟩
  · rintro ⟨hname, hnodup, hall⟩
    refine ⟨_, ⟨hnodup, s.functions, rfl, hall⟩, ?_⟩
    rw [← hname]
    simp [List.filterMap_map]

/-- The type signatures are those of the types of the module. -/
structure SignsModule (r : Registry) (uses : List String) (m : ModuleDecl)
    (ss : List TypeSignature) : Prop where
  distinct : (m.types.map (·.name.name)).Nodup
  types : List.Forall₂ (SignsType r uses m) m.types ss

theorem reports_moduleSignatures (m : ModuleDecl) : Reports (moduleSignatures r uses m) :=
  reports_distinct (fun t => reports_typeSignature m t) _ _

theorem passes_moduleSignatures {m : ModuleDecl} {ss : List TypeSignature} :
    Passes (moduleSignatures r uses m) ss ↔ SignsModule r uses m ss := by
  unfold moduleSignatures
  simp only [passes_distinct fun t => reports_typeSignature m t, passes_typeSignature,
    List.not_mem_nil, not_false_eq_true, implies_true, true_and]
  constructor
  · rintro ⟨hnodup, hall⟩
    exact ⟨hnodup, hall⟩
  · rintro ⟨hnodup, hall⟩
    exact ⟨hnodup, hall⟩

theorem reports_edition (e : Option Edition) : Reports (edition e) := by
  unfold edition
  split
  · split
    · exact reports_pure _
    · exact reports_report _
  · exact reports_pure _

theorem reports_namespacesOnto (uses : List String) (ds : List UseDecl) :
    Reports (namespacesOnto r uses ds) := by
  induction ds generalizing uses with
  | nil => exact reports_pure uses
  | cons d ds ih =>
    unfold namespacesOnto
    simp only
    split
    · exact ih _
    · exact (reports_report _).bind fun _ => ih uses

theorem reports_unit (u : SourceUnit) : Reports (unit r u) := by
  refine (reports_edition _).bind fun _ => (reports_namespacesOnto _ _).bind fun uses => ?_
  exact (reports_distinct (fun m => reports_moduleSignatures m) _ _).bind fun _ => reports_pure _

/-- The type signatures are those of a unit whose declarations are in order. -/
structure SignsUnit (r : Registry) (u : SourceUnit) (uses : List String)
    (sss : List (List TypeSignature)) : Prop where
  edition : Passes (edition u.edition) ⟨⟩
  namespaces : Passes (namespacesOnto r [] u.uses) uses
  distinct : (u.modules.map (·.name.name)).Nodup
  modules : List.Forall₂ (SignsModule r uses) u.modules sss

theorem passes_unit {u : SourceUnit} {ss : List TypeSignature} :
    Passes (unit r u) ss ↔ ∃ uses sss, SignsUnit r u uses sss ∧ sss.flatten = ss := by
  unfold unit
  have hmodules : ∀ uses, Reports (distinct (·.name) (moduleSignatures r uses) [] u.modules >>=
      fun types => pure types.flatten) :=
    fun uses => (reports_distinct (fun m => reports_moduleSignatures m) _ _).bind
      fun _ => reports_pure _
  rw [passes_bind fun _ => (reports_namespacesOnto _ _).bind hmodules]
  simp only [passes_bind hmodules, passes_bind fun _ => reports_pure _, passes_pure,
    passes_distinct fun m => reports_moduleSignatures m, passes_moduleSignatures,
    List.not_mem_nil, not_false_eq_true, implies_true, true_and]
  constructor
  · rintro ⟨_, hedition, uses, huses, sss, ⟨hnodup, hall⟩, rfl⟩
    exact ⟨uses, sss, ⟨hedition, huses, hnodup, hall⟩, rfl⟩
  · rintro ⟨uses, sss, ⟨hedition, huses, hnodup, hall⟩, rfl⟩
    exact ⟨_, hedition, uses, huses, sss, ⟨hnodup, hall⟩, rfl⟩

end Check

/-! ## Looking declared functions up -/

section

variable {α β : Type} {R : α → β → Prop} {S : α → List β → Prop} {as : List α} {a : α}
  {key : α → String} {p : β → Bool}

theorem find?_eq_none {bs : List β} (h : List.Forall₂ R as bs) (hp : ∀ a b, R a b → p b = false) :
    bs.find? p = none := by
  induction h with
  | nil => rfl
  | @cons a b as bs hab _ ih => rw [List.find?_cons_of_neg (by simp [hp a b hab]), ih]

/-- Of items with distinct keys, the one found is that of the key. -/
theorem find?_of_nodup {bs : List β} (h : List.Forall₂ R as bs) (hnodup : (as.map key).Nodup)
    (ha : a ∈ as) (hp : ∀ a' b, R a' b → (p b = true ↔ key a' = key a)) :
    ∃ b, bs.find? p = some b ∧ R a b := by
  induction h with
  | nil => simp at ha
  | @cons a' b as bs hab _ ih =>
    obtain ⟨hhead, hnodup⟩ := List.nodup_cons.1 hnodup
    rcases List.mem_cons.1 ha with rfl | ha
    · exact ⟨b, List.find?_cons_of_pos ((hp a b hab).2 rfl), hab⟩
    · obtain ⟨b', hfind, hb'⟩ := ih hnodup ha
      refine ⟨b', ?_, hb'⟩
      rw [List.find?_cons_of_neg, hfind]
      intro hb
      exact hhead (((hp a' b hab).1 hb) ▸ List.mem_map_of_mem ha)

/-- Of groups with distinct keys, what is found is in the group of the key. -/
theorem find?_flatten_of_nodup {bss : List (List β)} (h : List.Forall₂ S as bss)
    (hnodup : (as.map key).Nodup) (ha : a ∈ as)
    (hp : ∀ a' ∈ as, ∀ bs, S a' bs → key a' ≠ key a → bs.find? p = none) :
    ∃ bs, S a bs ∧ ∀ b, bs.find? p = some b → bss.flatten.find? p = some b := by
  induction h with
  | nil => simp at ha
  | @cons a' bs as bss hab _ ih =>
    obtain ⟨hhead, hnodup⟩ := List.nodup_cons.1 hnodup
    rcases List.mem_cons.1 ha with rfl | ha
    · refine ⟨bs, hab, ?_⟩
      intro b hb
      rw [List.flatten_cons, List.find?_append, hb, Option.some_or]
    · obtain ⟨bs', hbs', hfind⟩ := ih hnodup ha fun a' ha' => hp a' (List.mem_cons_of_mem _ ha')
      refine ⟨bs', hbs', ?_⟩
      intro b hb
      have hnone : bs.find? p = none := by
        refine hp a' List.mem_cons_self bs hab ?_
        intro heq
        exact hhead (List.mem_map.2 ⟨a, ha, heq.symm⟩)
      rw [List.flatten_cons, List.find?_append, hnone, Option.none_or]
      exact hfind b hb

end

/-- Names without colons before `::` are equal when the qualified names are. -/
theorem eq_of_qualified {m m' t t' : String} (hm : ':' ∉ m.toList) (hm' : ':' ∉ m'.toList)
    (h : m ++ "::" ++ t = m' ++ "::" ++ t') : m = m' ∧ t = t' := by
  have hsplit : ∀ (cs cs' rest rest' : List Char), ':' ∉ cs → ':' ∉ cs' →
      cs ++ ':' :: rest = cs' ++ ':' :: rest' → cs = cs' ∧ rest = rest' := by
    intro cs
    induction cs with
    | nil =>
      intro cs' rest rest' _ hcs' heq
      cases cs' with
      | nil => exact ⟨rfl, (List.cons.inj heq).2⟩
      | cons c cs' => exact absurd (List.cons.inj heq).1 (by simp at hcs'; exact hcs'.1)
    | cons c cs ih =>
      intro cs' rest rest' hcs hcs' heq
      cases cs' with
      | nil => exact absurd (List.cons.inj heq).1.symm (by simp at hcs; exact hcs.1)
      | cons c' cs' =>
        obtain ⟨rfl, htail⟩ := List.cons.inj heq
        obtain ⟨rfl, hrest⟩ := ih cs' rest rest' (fun h => hcs (List.mem_cons_of_mem _ h))
          (fun h => hcs' (List.mem_cons_of_mem _ h)) htail
        exact ⟨rfl, hrest⟩
  have hlists := congrArg String.toList h
  simp only [String.toList_append, List.append_assoc] at hlists
  obtain ⟨hm, ht⟩ := hsplit _ _ _ _ hm hm' hlists
  exact ⟨String.toList_inj.1 hm, String.toList_inj.1 (List.cons.inj ht).2⟩

variable {u : SourceUnit} {r : Registry} {m : ModuleDecl} {t : TypeDecl} {f : FunctionDecl}

/-- In a unit whose declarations pass, each type has its signatures under its name. -/
theorem Check.SignsUnit.find?_of_mem {uses : List String} {sss : List (List TypeSignature)}
    (h : SignsUnit r u uses sss) (hcolon : ∀ m ∈ u.modules, ':' ∉ m.name.name.toList)
    (hm : m ∈ u.modules) (ht : t ∈ m.types) :
    ∃ s, sss.flatten.find? (·.qualifiedName == m.name.name ++ "::" ++ t.name.name) = some s ∧
      SignsType r uses m t s := by
  have hother : ∀ m' ∈ u.modules, ∀ ss, SignsModule r uses m' ss → m'.name.name ≠ m.name.name →
      ss.find? (·.qualifiedName == m.name.name ++ "::" ++ t.name.name) = none := by
    intro m' hm' ss hss hne
    refine find?_eq_none hss.types fun t' s hs => ?_
    rw [hs.qualifiedName]
    exact beq_false_of_ne fun heq => hne (eq_of_qualified (hcolon m' hm') (hcolon m hm) heq).1
  obtain ⟨ss, hmodule, hfound⟩ := find?_flatten_of_nodup h.modules h.distinct hm hother
  have hname : ∀ t' s, SignsType r uses m t' s →
      ((s.qualifiedName == m.name.name ++ "::" ++ t.name.name) = true ↔ t'.name.name = t.name.name) := by
    intro t' s hs
    rw [hs.qualifiedName, beq_iff_eq]
    exact ⟨fun heq => (eq_of_qualified (hcolon m hm) (hcolon m hm) heq).2, fun heq => by rw [heq]⟩
  obtain ⟨s, hs, htype⟩ := find?_of_nodup hmodule.types hmodule.distinct ht hname
  exact ⟨s, hfound s hs, htype⟩

/-- The functions of a type have their signatures under their names. -/
theorem Check.SignsType.find?_of_mem {uses : List String} {s : TypeSignature}
    (h : SignsType r uses m t s) (hf : f ∈ t.functions) :
    ∃ s', s.functions.find? (·.decl.name.name == f.name.name) = some s' ∧ Signs r uses f s' := by
  refine find?_of_nodup h.functions h.distinct hf fun f' s' hs' => ?_
  rw [hs'.decl, beq_iff_eq]

/-- In a unit whose declarations pass, each function has its signature under its name. -/
theorem SourceUnit.exists_signature?_of_mem (h : hasErrors (u.signatures r).2 = false)
    (hcolon : ∀ m ∈ u.modules, ':' ∉ m.name.name.toList) (hm : m ∈ u.modules) (ht : t ∈ m.types)
    (hf : f ∈ t.functions) :
    ∃ uses s, u.signature? r (m.name.name ++ "::" ++ t.name.name) f.name.name = some s ∧
      Check.Signs r uses f s := by
  obtain ⟨uses, sss, hunit, hflatten⟩ :=
    Check.passes_unit.1 (Check.passes_of_collect (Check.reports_unit u) h)
  have htypes : (u.signatures r).1 = sss.flatten := hflatten.symm
  obtain ⟨s, hs, htype⟩ := hunit.find?_of_mem hcolon hm ht
  obtain ⟨s', hs', hsigns⟩ := htype.find?_of_mem hf
  refine ⟨uses, s', ?_, hsigns⟩
  rw [signature?, htypes, hs, Option.bind_some, hs']

end TypedTemplate
