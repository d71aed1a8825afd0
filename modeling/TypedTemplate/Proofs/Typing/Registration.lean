-- SUMMARY: A registration follows the types of fields to their end, and takes nothing back.
import Mathlib.Data.Finset.Card
import Mathlib.Data.Finset.Dedup
import TypedTemplate.Proofs.Template.Registered

/-!
# Registrations

Registering a type registers the types of its fields in turn. `Registers` is that recursion
without a bound on its depth, so a derivation is a recursion that ends. It always ends with the
outcome of `register`: a type is entered before its fields are followed, so each step down enters
a name that was not known, and of those the catalog has only so many.
-/

namespace TypedTemplate

namespace Registry

/-! ## Growth -/

/-- What the first registry knows, the second one knows as well. -/
structure Extends (r r' : Registry) : Prop where
  catalog : r'.catalog = r.catalog
  namespaces : ∀ ns, r.hasNamespace ns = true → r'.hasNamespace ns = true
  shapes : ∃ more, r'.shapes = r.shapes ++ more

variable {r r' r'' : Registry} {s : Shape} {name : String} {id : ShapeId}

namespace Extends

theorem refl (r : Registry) : r.Extends r := ⟨rfl, fun _ h => h, #[], by simp⟩

theorem trans (h : r.Extends r') (h' : r'.Extends r'') : r.Extends r'' := by
  obtain ⟨more, hmore⟩ := h.shapes
  obtain ⟨more', hmore'⟩ := h'.shapes
  refine ⟨h'.catalog.trans h.catalog, fun ns hns => h'.namespaces ns (h.namespaces ns hns),
    more ++ more', ?_⟩
  rw [hmore', hmore, Array.append_assoc]

theorem addNamespace (r : Registry) (ns : String) : r.Extends (r.addNamespace ns) := by
  refine ⟨?_, fun ns' h => hasNamespace_addNamespace h ns, #[], ?_⟩
  · unfold Registry.addNamespace
    split <;> rfl
  · rw [Array.append_empty]
    exact shapes_foldl r [ns]

theorem foldl (r : Registry) (nss : List String) :
    r.Extends (nss.foldl Registry.addNamespace r) := by
  induction nss generalizing r with
  | nil => exact refl r
  | cons ns nss ih => exact (addNamespace r ns).trans (ih _)

theorem enter (r : Registry) (name : String) (s : Shape) : r.Extends (r.enter name s) := by
  have hfold := foldl r (QualifiedName.parse name).enclosing
  have hcatalog : (r.enter name s).catalog =
      ((QualifiedName.parse name).enclosing.foldl Registry.addNamespace r).catalog := by
    simp only [Registry.enter]
  refine ⟨hcatalog.trans hfold.catalog, fun ns h => ?_, #[⟨name, s, s.typeHash⟩], ?_⟩
  · rw [hasNamespace_enter]
    exact hfold.namespaces ns h
  · rw [shapes_enter, Array.push_eq_append]

theorem size_le (h : r.Extends r') : r.size ≤ r'.size := by
  obtain ⟨more, hmore⟩ := h.shapes
  simp [size, hmore]

theorem shape? {rs : RegisteredShape} (h : r.Extends r') (hs : r.shape? id = some rs) :
    r'.shape? id = some rs := by
  obtain ⟨more, hmore⟩ := h.shapes
  rw [Registry.shape?] at hs ⊢
  rw [hmore, Array.getElem?_append_left (Array.getElem?_eq_some_iff.1 hs).1, hs]

theorem lookup (h : r.Extends r') (hname : r.lookup name = some id) : r'.lookup name = some id := by
  obtain ⟨more, hmore⟩ := h.shapes
  rw [Registry.lookup] at hname ⊢
  rw [hmore, Array.findIdx?_append, hname]
  rfl

theorem idOf (h : r.Extends r') (hs : r.idOf s = some id) : r'.idOf s = some id := by
  obtain ⟨name, hname, hid⟩ := Option.bind_eq_some_iff.1 hs
  exact Option.bind_eq_some_iff.2 ⟨name, hname, h.lookup hid⟩

theorem idAt {i : Nat} (h : r.Extends r') (hi : (r.idAt i).isSome) : (r'.idAt i).isSome := by
  obtain ⟨id, hid⟩ := Option.isSome_iff_exists.1 hi
  obtain ⟨s, hs, hid⟩ := Option.bind_eq_some_iff.1 hid
  refine Option.isSome_iff_exists.2 ⟨id, Option.bind_eq_some_iff.2 ⟨s, ?_, h.idOf hid⟩⟩
  rw [h.catalog, hs]

end Extends

/-- A type that is entered has the next place. -/
theorem shape?_enter (r : Registry) (name : String) (s : Shape) :
    (r.enter name s).shape? r.size = some ⟨name, s, s.typeHash⟩ := by
  simp [shape?, size, shapes_enter]

theorem size_enter (r : Registry) (name : String) (s : Shape) :
    (r.enter name s).size = r.size + 1 := by
  simp [size, shapes_enter]

theorem lookup_enter (h : r.lookup name = none) (s : Shape) :
    (r.enter name s).lookup name = some r.size := by
  rw [lookup, shapes_enter, Array.findIdx?_push]
  have hnone : r.shapes.findIdx? (·.name == name) = none := h
  simp [hnone, size]

/-! ## The recursion -/

mutual

/-- Registering the shape has the outcome, however far its fields have to be followed. -/
inductive Registers : Registry → Shape → Except RegistryError ShapeId × Registry → Prop where
  | unnamed {r : Registry} {s : Shape} :
      s.typeName = none → Registers r s (.error (.invalidTypeName s.hostName), r)
  | known {r : Registry} {s : Shape} {name : String} {id : ShapeId} :
      s.typeName = some name → r.lookup name = some id →
        (r.shape? id).map (·.hash) = some s.typeHash → Registers r s (.ok id, r)
  | taken {r : Registry} {s : Shape} {name : String} {id : ShapeId} :
      s.typeName = some name → r.lookup name = some id →
        (r.shape? id).map (·.hash) ≠ some s.typeHash →
          Registers r s (.error (.duplicateType name), r)
  | entered {r r' : Registry} {s : Shape} {name : String} :
      s.typeName = some name → r.lookup name = none →
        RegistersAll (r.enter name s) s.nested (.ok (), r') → Registers r s (.ok r.size, r')
  | broken {r r' : Registry} {s : Shape} {name : String} {e : RegistryError} :
      s.typeName = some name → r.lookup name = none →
        RegistersAll (r.enter name s) s.nested (.error e, r') → Registers r s (.error e, r')

/-- Registering the shapes at the places, up to the first that is refused, has the outcome. -/
inductive RegistersAll : Registry → List Nat → Except RegistryError Unit × Registry → Prop where
  | nil {r : Registry} : RegistersAll r [] (.ok (), r)
  | absent {r : Registry} {i : Nat} {is : List Nat} {x : Except RegistryError Unit × Registry} :
      r.catalog[i]? = none → RegistersAll r is x → RegistersAll r (i :: is) x
  | cons {r r' : Registry} {s : Shape} {i : Nat} {is : List Nat} {id : ShapeId}
      {x : Except RegistryError Unit × Registry} :
      r.catalog[i]? = some s → Registers r s (.ok id, r') → RegistersAll r' is x →
        RegistersAll r (i :: is) x
  | stop {r r' : Registry} {s : Shape} {i : Nat} {is : List Nat} {e : RegistryError} :
      r.catalog[i]? = some s → Registers r s (.error e, r') →
        RegistersAll r (i :: is) (.error e, r')

end

mutual

/-- The recursion has one outcome. -/
theorem Registers.unique {r : Registry} {s : Shape}
    {x y : Except RegistryError ShapeId × Registry} :
    Registers r s x → Registers r s y → x = y
  | .unnamed hname, h => by
    cases h <;> simp_all
  | .known hname hid hhash, h => by
    cases h with
    | taken hname' hid' hhash' =>
      cases hname.symm.trans hname'
      cases hid.symm.trans hid'
      exact absurd hhash hhash'
    | _ => simp_all
  | .taken hname hid hhash, h => by
    cases h with
    | known hname' hid' hhash' =>
      cases hname.symm.trans hname'
      cases hid.symm.trans hid'
      exact absurd hhash' hhash
    | _ => simp_all
  | .entered hname hnew hall, h => by
    cases h with
    | entered hname' _ hall' | broken hname' _ hall' =>
      cases hname.symm.trans hname'
      cases hall.unique hall'
      try rfl
    | _ => simp_all
  | .broken hname hnew hall, h => by
    cases h with
    | entered hname' _ hall' | broken hname' _ hall' =>
      cases hname.symm.trans hname'
      cases hall.unique hall'
      try rfl
    | _ => simp_all

theorem RegistersAll.unique {r : Registry} {is : List Nat}
    {x y : Except RegistryError Unit × Registry} :
    RegistersAll r is x → RegistersAll r is y → x = y
  | .nil, h => by
    cases h
    rfl
  | .absent hi hrest, h => by
    cases h with
    | absent _ hrest' => exact hrest.unique hrest'
    | cons hi' _ _ | stop hi' _ => cases hi.symm.trans hi'
  | .cons hi hs hrest, h => by
    cases h with
    | absent hi' _ => cases hi.symm.trans hi'
    | cons hi' hs' hrest' =>
      cases hi.symm.trans hi'
      cases hs.unique hs'
      exact hrest.unique hrest'
    | stop hi' hs' =>
      cases hi.symm.trans hi'
      cases hs.unique hs'
  | .stop hi hs, h => by
    cases h with
    | absent hi' _ => cases hi.symm.trans hi'
    | cons hi' hs' _ =>
      cases hi.symm.trans hi'
      cases hs.unique hs'
    | stop hi' hs' =>
      cases hi.symm.trans hi'
      cases hs.unique hs'
      rfl

end

mutual

/-- Whatever the outcome, a registration keeps what entering a type keeps. -/
theorem Registers.keeps {P : Registry → Prop} {r : Registry} {s : Shape}
    {x : Except RegistryError ShapeId × Registry}
    (henter : ∀ {r : Registry} {name : String} {s : Shape}, P r → P (r.enter name s)) :
    Registers r s x → P r → P x.2
  | .unnamed _, hr | .known _ _ _, hr | .taken _ _ _, hr => hr
  | .entered _ _ hall, hr | .broken _ _ hall, hr => hall.keeps henter (henter hr)

theorem RegistersAll.keeps {P : Registry → Prop} {r : Registry} {is : List Nat}
    {x : Except RegistryError Unit × Registry}
    (henter : ∀ {r : Registry} {name : String} {s : Shape}, P r → P (r.enter name s)) :
    RegistersAll r is x → P r → P x.2
  | .nil, hr => hr
  | .absent _ hrest, hr => hrest.keeps henter hr
  | .cons _ hs hrest, hr => hrest.keeps henter (hs.keeps henter hr)
  | .stop _ hs, hr => hs.keeps henter hr

end

/-- Whatever the outcome, what was known is known. -/
theorem Registers.extends {x : Except RegistryError ShapeId × Registry} (h : Registers r s x) :
    r.Extends x.2 :=
  h.keeps (P := r.Extends) (fun hr => hr.trans (.enter _ _ _)) (.refl r)

theorem RegistersAll.extends {is : List Nat} {x : Except RegistryError Unit × Registry}
    (h : RegistersAll r is x) : r.Extends x.2 :=
  h.keeps (P := r.Extends) (fun hr => hr.trans (.enter _ _ _)) (.refl r)

/-! ## The end of the recursion -/

/-- The names in the catalog that are not registered. -/
def unknown (r : Registry) : Finset String :=
  (r.catalog.toList.filterMap Shape.typeName).toFinset.filter fun name => r.lookup name = none

theorem mem_unknown : name ∈ r.unknown ↔
    (∃ s ∈ r.catalog, s.typeName = some name) ∧ r.lookup name = none := by
  simp [unknown]

theorem card_unknown_le (r : Registry) : r.unknown.card ≤ r.catalog.size := by
  refine (Finset.card_filter_le _ _).trans ((List.toFinset_card_le _).trans ?_)
  exact (List.length_filterMap_le _ _).trans (Nat.le_of_eq (by simp))

theorem Extends.unknown_subset (h : r.Extends r') : r'.unknown ⊆ r.unknown := by
  intro name hname
  obtain ⟨⟨s, hs, hname⟩, hnone⟩ := mem_unknown.1 hname
  refine mem_unknown.2 ⟨⟨s, h.catalog ▸ hs, hname⟩, ?_⟩
  cases hid : r.lookup name with
  | none => rfl
  | some id => exact absurd (hnone.symm.trans (h.lookup hid)) (by simp)

/-- Entering a type of the catalog leaves fewer unknown. -/
theorem card_unknown_enter (hs : s ∈ r.catalog) (hname : s.typeName = some name)
    (hnew : r.lookup name = none) : (r.enter name s).unknown.card < r.unknown.card := by
  refine Finset.card_lt_card ⟨(Extends.enter r name s).unknown_subset, fun hsubset => ?_⟩
  have hmem := hsubset (mem_unknown.2 ⟨⟨s, hs, hname⟩, hnew⟩)
  have hnone := (mem_unknown.1 hmem).2
  rw [lookup_enter hnew] at hnone
  cases hnone

mutual

/-- A depth beyond the number of unknown types is not exhausted. -/
theorem registers_registerTo {r : Registry} {s : Shape} {depth : Nat}
    (h : ∀ name, s.typeName = some name → r.lookup name = none →
      (r.enter name s).unknown.card < depth) : Registers r s (r.registerTo depth s) := by
  rw [registerTo]
  cases hname : s.typeName with
  | none => exact .unnamed hname
  | some name =>
    simp only
    cases hlookup : r.lookup name with
    | some id =>
      simp only [beq_iff_eq]
      split
      · exact .known hname hlookup ‹_›
      · exact .taken hname hlookup ‹_›
    | none =>
      have hlt := h name hname hlookup
      cases depth with
      | zero => exact absurd hlt (Nat.not_lt_zero _)
      | succ depth =>
        -- One type fewer is unknown now, which makes up for the level that is used.
        have hall := registersAll_registerAllTo depth s.nested (Nat.le_of_lt_succ hlt)
        simp only
        split
        · rename_i hok
          exact .entered hname hlookup (hok ▸ hall)
        · rename_i herror
          exact .broken hname hlookup (herror ▸ hall)
termination_by (depth, 0)
decreasing_by
  subst_vars
  exact Prod.Lex.left _ _ (Nat.lt_succ_self _)

theorem registersAll_registerAllTo {r : Registry} (depth : Nat) (is : List Nat)
    (h : r.unknown.card ≤ depth) : RegistersAll r is (r.registerAllTo depth is) := by
  cases is with
  | nil =>
    rw [registerAllTo]
    exact .nil
  | cons i is =>
    rw [registerAllTo]
    cases hi : r.catalog[i]? with
    | none => exact .absent hi (registersAll_registerAllTo depth is h)
    | some s =>
      have hs : Registers r s (r.registerTo depth s) :=
        registers_registerTo fun name hname hnew =>
          Nat.lt_of_lt_of_le (card_unknown_enter (Array.mem_of_getElem? hi) hname hnew) h
      simp only
      split
      · rename_i r' hok
        rw [hok] at hs
        have hle := Finset.card_le_card hs.extends.unknown_subset
        exact .cons hi hs (registersAll_registerAllTo depth is (hle.trans h))
      · rename_i herror
        rw [herror] at hs
        exact .stop hi hs
termination_by (depth, is.length + 1)
decreasing_by all_goals exact Prod.Lex.right _ (by simp)

end

theorem registers_register (r : Registry) (s : Shape) : Registers r s (r.register s) := by
  refine registers_registerTo fun name hname hnew => Nat.lt_succ_of_le ?_
  have hcatalog := congrArg Array.size (Extends.enter r name s).catalog
  exact (card_unknown_le _).trans (Nat.le_of_eq hcatalog)

/-- The recursion ends for every shape, with the outcome of `register`. -/
theorem registers_iff {x : Except RegistryError ShapeId × Registry} :
    Registers r s x ↔ r.register s = x :=
  ⟨fun h => (registers_register r s).unique h, fun h => h ▸ registers_register r s⟩

end Registry

end TypedTemplate
