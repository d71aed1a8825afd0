-- SUMMARY: The declared types of registered functions, and arguments that fit them.
import TypedTemplate.Proofs.Compile.Function
import TypedTemplate.Proofs.Semantics.Soundness

/-!
# Signatures

A signature has its types twice, as the compiler and as a caller sees them. Both
come of one resolution, so a model type is the one registered under the name that a
caller knows. Arguments that a call accepts then fit the types that the body was
compiled for, as far as they are no instances, and instances that conform to the
shape of their type fit it by definition.
-/

namespace TypedTemplate

/-! ## Resolution -/

/-- The two forms of the type belong together. -/
structure DeclaredType.Resolved (r : Registry) (d : DeclaredType) : Prop where
  valueType : d.type.valueType? r = some d.valueType
  registered : ∀ id, d.type = .model id → ∃ s, r.shape? id = some s ∧ r.lookup s.name = some id

/-- All types of the function are resolved. -/
def Signature.Resolved (r : Registry) (s : Signature) : Prop :=
  ∀ d ∈ s.result :: s.params, d.Resolved r

theorem Registry.lookup_name {r : Registry} {name : String} {id : ShapeId}
    (h : r.lookup name = some id) : ∃ s, r.shape? id = some s ∧ r.lookup s.name = some id := by
  have hfound := h
  simp only [Registry.lookup, Array.findIdx?_eq_some_iff_getElem, beq_iff_eq] at hfound
  obtain ⟨hlt, hname, -⟩ := hfound
  refine ⟨r.shapes[id], by simp [Registry.shape?, hlt], ?_⟩
  rw [hname]
  exact h

theorem Registry.resolve_lookup {r : Registry} {name : String} {uses : List String} {id : ShapeId}
    (h : r.resolve name uses = some id) :
    ∃ s, r.shape? id = some s ∧ r.lookup s.name = some id := by
  unfold Registry.resolve at h
  split at h
  · rename_i id' hlookup
    cases h
    exact lookup_name hlookup
  · obtain ⟨ns, -, hlookup⟩ := List.exists_of_findSome?_eq_some h
    exact lookup_name hlookup

namespace Check

variable {α β : Type} {r : Registry} {uses : List String}

/-- Whatever was reported before, the result of the check has the property. -/
def Gives (φ : α → Prop) (m : Check α) : Prop := ∀ ds, φ (m.run ds).1

theorem Gives.pure {φ : α → Prop} {a : α} (h : φ a) : Gives φ (Pure.pure a : Check α) := fun _ => h

theorem Gives.bind {φ : α → Prop} {ψ : β → Prop} {m : Check α} {next : α → Check β}
    (hm : Gives φ m) (hnext : ∀ a, φ a → Gives ψ (next a)) : Gives ψ (m >>= next) :=
  fun ds => hnext _ (hm ds) _

theorem Gives.any (m : Check α) : Gives (fun _ => True) m := fun _ => trivial

theorem Gives.distinct {φ : β → Prop} {name : α → Ident} {visit : α → Check β}
    (hvisit : ∀ a, Gives φ (visit a)) (seen : List String) (as : List α) :
    Gives (fun bs => ∀ b ∈ bs, φ b) (distinct name visit seen as) := by
  induction as generalizing seen with
  | nil => exact .pure (by simp)
  | cons a as ih =>
    unfold Check.distinct
    dsimp only
    split
    · exact (Gives.any _).bind fun _ _ => ih seen
    · refine (hvisit a).bind fun b hb => (ih _).bind fun bs hbs => .pure ?_
      simpa using ⟨hb, hbs⟩

/-- A name that stands for a built-in type resolves to it, any other one as it is registered. -/
theorem resolve_eq_ok {t : TypeRef} {type : Ty} (h : resolve r uses t = .ok type) :
    ((t.path.isSimple && t.args.isEmpty) = true ∧ Ty.builtin? t.path.text = some type) ∨
      (((t.path.isSimple && t.args.isEmpty) = true → Ty.builtin? t.path.text = none) ∧
        ∃ id, r.resolve t.text uses = some id ∧ type = .model id) := by
  simp only [resolve] at h
  split at h
  case isTrue hsimple =>
    split at h
    case h_1 builtin hbuiltin =>
      cases h
      exact .inl ⟨hsimple, hbuiltin⟩
    case h_2 hbuiltin =>
      split at h
      case h_1 id hid =>
        cases h
        exact .inr ⟨fun _ => hbuiltin, id, hid, rfl⟩
      case h_2 => cases h
  case isFalse hsimple =>
    split at h
    case h_1 id hid =>
      cases h
      exact .inr ⟨fun htrue => absurd htrue hsimple, id, hid, rfl⟩
    case h_2 => cases h

theorem resolve_model {t : TypeRef} {type : Ty} (h : resolve r uses t = .ok type) {id : ShapeId}
    (hid : type = .model id) : ∃ s, r.shape? id = some s ∧ r.lookup s.name = some id := by
  subst hid
  obtain ⟨-, hbuiltin⟩ | ⟨-, id', hresolve, hmodel⟩ := resolve_eq_ok h
  · unfold Ty.builtin? at hbuiltin
    split at hbuiltin <;> simp [Ty.str, Ty.int, Ty.float, Ty.bool, Ty.model] at hbuiltin
  · obtain rfl : id = id' := by simpa [Ty.model] using hmodel
    exact Registry.resolve_lookup hresolve

theorem declared_resolved (t : TypeRef) :
    Gives (fun d => ∀ d' ∈ d, d'.Resolved r) (declared r uses t) := by
  unfold declared
  split
  · exact (Gives.any _).bind fun _ _ => .pure (by simp)
  · rename_i type hresolve
    split
    · rename_i valueType hvalue
      refine .pure fun d hd => ?_
      cases hd
      exact ⟨hvalue, fun id hid => resolve_model hresolve hid⟩
    · exact (Gives.any _).bind fun _ _ => .pure (by simp)

theorem declaredAll_resolved (ts : List TypeRef) :
    Gives (fun ds => ∀ d ∈ ds, ∀ d' ∈ d, d'.Resolved r) (declaredAll r uses ts) := by
  induction ts with
  | nil => exact .pure (by simp)
  | cons t ts ih =>
    refine (declared_resolved t).bind fun d hd => ih.bind fun ds hds => .pure ?_
    simpa using ⟨hd, hds⟩

theorem mem_of_whole? {as : List (Option α)} {bs : List α} (h : whole? as = some bs) {b : α}
    (hb : b ∈ bs) : some b ∈ as := by
  induction as generalizing bs with
  | nil =>
    cases h
    simp at hb
  | cons a as ih =>
    cases a with
    | none => simp [whole?] at h
    | some a =>
      obtain ⟨cs, hcs, rfl⟩ := Option.map_eq_some_iff.1 (h : (whole? as).map _ = some bs)
      rcases List.mem_cons.1 hb with rfl | hb
      · simp
      · exact List.mem_cons_of_mem _ (ih hcs hb)

theorem signature_resolved (f : FunctionDecl) :
    Gives (fun s => ∀ s' ∈ s, s'.Resolved r) (signature r uses f) := by
  refine (declaredAll_resolved _).bind fun params hparams => ?_
  refine (declared_resolved _).bind fun result hresult => ?_
  split
  · rename_i params' result' hwhole
    refine .pure fun s hs d hd => ?_
    cases hs
    rcases List.mem_cons.1 hd with rfl | hd
    · exact hresult _ rfl
    · exact hparams _ (mem_of_whole? hwhole hd) _ rfl
  · exact .pure (by simp)

theorem typeSignature_resolved (m : ModuleDecl) (t : TypeDecl) :
    Gives (fun s => ∀ f ∈ s.functions, f.Resolved r) (typeSignature r uses m t) := by
  refine (Gives.distinct (fun f => signature_resolved f) _ _).bind fun fs hfs => .pure fun f hf => ?_
  obtain ⟨f', hf', heq⟩ := List.mem_filterMap.1 hf
  exact hfs f' hf' f heq

theorem unit_resolved (u : SourceUnit) :
    Gives (fun ts => ∀ t ∈ ts, ∀ f ∈ t.functions, Signature.Resolved r f) (unit r u) := by
  refine (Gives.any _).bind fun _ _ => (Gives.any _).bind fun uses _ => ?_
  refine (Gives.distinct (φ := fun ts => ∀ t ∈ ts, ∀ f ∈ t.functions, Signature.Resolved r f)
    (fun m => Gives.distinct (fun t => typeSignature_resolved m t) _ _) _ _).bind fun ts hts =>
      .pure fun t ht => ?_
  obtain ⟨l, hl, ht⟩ := List.mem_flatten.1 ht
  exact hts l hl t ht

end Check

/-- The types of registered functions are resolved. -/
theorem SourceUnit.signatures_resolved (u : SourceUnit) (r : Registry) :
    ∀ t ∈ (u.signatures r).1, ∀ s ∈ t.functions, s.Resolved r :=
  Check.unit_resolved u []

/-! ## Arguments and results -/

/-- An instance of a model type conforms to the shape that is registered under the type's name. -/
def ValueType.Conforms (r : Registry) : ValueType → Value → Prop
  | .model name _, v => ∃ id, r.lookup name = some id ∧ Fits r (.model id) v
  | _,             _ => True

/-- The instances among the arguments conform to their shapes. -/
def CompiledFunction.Conforms (f : CompiledFunction) (r : Registry) (args : List Value) : Prop :=
  ∀ p ∈ f.params.zip args, p.1.Conforms r p.2

theorem CompiledFunction.accepts_of_firstMismatch? {index : Nat} {ts : List ValueType}
    {vs : List Value} (h : firstMismatch? index ts vs = none) :
    ∀ p ∈ ts.zip vs, p.1.accepts p.2 = true := by
  induction ts generalizing index vs with
  | nil => simp
  | cons t ts ih =>
    cases vs with
    | nil => simp
    | cons v vs =>
      simp only [firstMismatch?] at h
      split at h
      · intro p hp
        rcases List.mem_cons.1 hp with rfl | hp
        · assumption
        · exact ih h p hp
      · simp at h

namespace DeclaredType

variable {r : Registry} {d : DeclaredType} {v : Value}

/-- The type as a caller sees it tells the type as the compiler sees it. -/
theorem Resolved.cases (h : d.Resolved r) :
    (d.type = .str ∧ d.valueType = .str) ∨ (d.type = .int ∧ d.valueType = .int) ∨
      (d.type = .float ∧ d.valueType = .float) ∨ (d.type = .bool ∧ d.valueType = .bool) ∨
      ∃ id s, d.type = .model id ∧ r.shape? id = some s ∧ r.lookup s.name = some id ∧
        d.valueType = .model s.name s.hash := by
  obtain ⟨hvalue, hregistered⟩ := h
  obtain ⟨⟨kind, nullable⟩, vt⟩ := d
  simp only [Ty.valueType?] at hvalue
  cases nullable with
  | true => simp at hvalue
  | false =>
    cases kind with
    | null => simp at hvalue
    | model id =>
      obtain ⟨s, hs, hlookup⟩ := hregistered id rfl
      obtain rfl : ValueType.model s.name s.hash = vt := by simpa [hs] using hvalue
      exact .inr (.inr (.inr (.inr ⟨id, s, rfl, hs, hlookup, rfl⟩)))
    | _ =>
      cases hvalue
      simp [Ty.str, Ty.int, Ty.float, Ty.bool]

/-- An argument that is accepted and conforms fits the type that the body was compiled for. -/
theorem Resolved.fits (h : d.Resolved r) (haccepts : d.valueType.accepts v = true)
    (hconforms : d.valueType.Conforms r v) : Fits r d.type v := by
  rcases h.cases with ⟨ht, hv⟩ | ⟨ht, hv⟩ | ⟨ht, hv⟩ | ⟨ht, hv⟩ | ⟨id, s, ht, hs, hlookup, hv⟩ <;>
    rw [ht] <;> rw [hv] at haccepts hconforms
  · cases v <;> first | exact .str _ _ | simp [ValueType.accepts] at haccepts
  · cases v <;> first | exact .int _ _ | exact .uint _ _ | simp [ValueType.accepts] at haccepts
  · cases v <;> first | exact .float _ _ | simp [ValueType.accepts] at haccepts
  · cases v <;> first | exact .bool _ _ | simp [ValueType.accepts] at haccepts
  · obtain ⟨id', hid, hfits⟩ := hconforms
    obtain rfl : id' = id := by simpa [hlookup] using hid.symm
    exact hfits

/-- A result that fits the type is of the declared type for a caller. -/
theorem Resolved.accepts (h : d.Resolved r) (hfits : Fits r d.type v) :
    d.valueType.accepts v = true := by
  rcases h.cases with ⟨ht, hv⟩ | ⟨ht, hv⟩ | ⟨ht, hv⟩ | ⟨ht, hv⟩ | ⟨id, s, ht, hs, hlookup, hv⟩ <;>
    rw [ht] at hfits <;> rw [hv]
  · cases hfits
    rfl
  · cases hfits <;> rfl
  · cases hfits
    rfl
  · cases hfits
    rfl
  · cases hfits with
    | object n id s' m shape hash present fields =>
      obtain rfl : s = s' := by simpa [hs] using shape
      simpa [ValueType.accepts] using hash

end DeclaredType

theorem Env.Fits.ofParams {r : Registry} {ps : List Param} {ds : List DeclaredType}
    {args : List Value} {env : Env} (henv : env.Fits r)
    (hargs : ∀ p ∈ ds.zip args, TypedTemplate.Fits r p.1.type p.2) :
    (env.ofParams (ps.zip ds) args).Fits r := by
  induction ds generalizing ps args env with
  | nil =>
    rw [List.zip_nil_right]
    exact henv
  | cons d ds ih =>
    cases ps with
    | nil => exact henv
    | cons p ps =>
      cases args with
      | nil => exact henv
      | cons v args =>
        refine ih (henv.cons (hargs (d, v) (by simp))) fun q hq => hargs q ?_
        exact List.mem_cons_of_mem _ hq

theorem Env.fits_nil (r : Registry) : Env.Fits r [] := by
  intro x b h
  simp [Env.get?] at h

/-- A call with accepted and conforming arguments starts with bindings that fit their types. -/
theorem Signature.env_fits {r : Registry} {s : Signature} {f : CompiledFunction} {args : List Value}
    (hs : s.Resolved r) (hparams : f.params = s.params.map (·.valueType)) (haccepts : f.Accepts args)
    (hconforms : f.Conforms r args) : (s.env args).Fits r := by
  refine (Env.fits_nil r).ofParams fun p hp => ?_
  have hzip : (p.1.valueType, p.2) ∈ f.params.zip args := by
    rw [hparams, List.zip_map_left]
    exact List.mem_map.2 ⟨p, hp, rfl⟩
  have hd : p.1.Resolved r := hs p.1 (List.mem_cons_of_mem _ (List.of_mem_zip hp).1)
  exact hd.fits (CompiledFunction.accepts_of_firstMismatch? haccepts.2 _ hzip) (hconforms _ hzip)

end TypedTemplate
