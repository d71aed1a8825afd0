-- SUMMARY: What is registered without a refusal is complete: its names, namespaces and the types of its fields are known.
import TypedTemplate.Proofs.Name.Enclosing
import TypedTemplate.Proofs.Template.Filled
import TypedTemplate.Proofs.Typing.Registration

/-!
# Complete registries

While the fields of a type are followed, the type is known and the types of its fields are not yet.
So a registration is not measured by what is known on the way. When it ends without a refusal,
every type that it entered has all the types of its fields, and those that were there before have
lost none.
-/

namespace TypedTemplate

/-- The types of the fields have their places among the first `n`. -/
def Shape.Within (n : Nat) (s : Shape) : Prop := ∀ i ∈ s.nested, i < n

/-- The types of the fields are in the catalog as well. -/
def Catalog.Closed (shapes : Catalog) : Prop := ∀ s ∈ shapes, s.Within shapes.size

namespace Registry

/-- Namespaces were added and shapes registered, none of which was refused. -/
inductive Accepts : Registry → Registry → Prop where
  | refl (r : Registry) : Accepts r r
  | addNamespace {r r' : Registry} (ns : String) : Accepts r r' → Accepts r (r'.addNamespace ns)
  | register {r r' r'' : Registry} {s : Shape} {id : ShapeId} : Accepts r r' →
      s.Within r.catalog.size → r'.register s = (.ok id, r'') → Accepts r r''

variable {r r' r'' : Registry} {s : Shape} {rs : RegisteredShape} {name ns : String} {id : ShapeId}

theorem Extends.register (r : Registry) (s : Shape) : r.Extends (r.register s).2 :=
  (registers_register r s).extends

theorem Accepts.extends (h : r.Accepts r') : r.Extends r' := by
  induction h with
  | refl => exact .refl r
  | addNamespace ns _ ih => exact ih.trans (.addNamespace _ ns)
  | @register r' r'' s id _ _ hok ih =>
    have hext := Extends.register r' s
    rw [hok] at hext
    exact ih.trans hext

theorem Accepts.built (hr : r.Built) (h : r.Accepts r') : r'.Built := by
  induction h with
  | refl => exact hr
  | addNamespace ns _ ih => exact ih.addNamespace ns
  | @register r' r'' s id _ _ hok ih =>
    have hbuilt := ih.register s
    rw [hok] at hbuilt
    exact hbuilt

/-! ## Places -/

theorem shape?_eq_none (h : r.size ≤ id) : r.shape? id = none :=
  Array.getElem?_eq_none h

theorem shape?_of_lt (h : id < r.size) : ∃ rs, r.shape? id = some rs :=
  ⟨_, Array.getElem?_eq_getElem h⟩

theorem Extends.shape?_eq (h : r.Extends r') (hid : id < r.size) : r'.shape? id = r.shape? id := by
  obtain ⟨rs, hrs⟩ := shape?_of_lt hid
  rw [hrs, h.shape? hrs]

/-- A name finds a type of the name. -/
theorem exists_of_lookup (h : r.lookup name = some id) :
    ∃ rs, r.shape? id = some rs ∧ rs.name = name := by
  obtain ⟨hid, hname, -⟩ := Array.findIdx?_eq_some_iff_getElem.1 h
  exact ⟨r.shapes[id], Array.getElem?_eq_getElem hid, beq_iff_eq.1 hname⟩

/-! ## The types of the fields -/

/-- The types of the fields of the type are registered, if there is such a type. -/
def Filled (r : Registry) (id : ShapeId) : Prop :=
  ∀ rs, r.shape? id = some rs → ∀ i ∈ rs.shape.nested, (r.idAt i).isSome

theorem Filled.mono (h : r.Extends r') (hid : id < r.size) (hfilled : r.Filled id) :
    r'.Filled id :=
  fun rs hrs i hi => h.idAt (hfilled rs (h.shape?_eq hid ▸ hrs) i hi)

/-- The second registry lacks no type of a field of a type that the first one did not have. -/
def Fills (r r' : Registry) : Prop := ∀ id, r.size ≤ id → r'.Filled id

theorem Fills.refl (r : Registry) : r.Fills r := by
  intro id hid rs hrs
  rw [shape?_eq_none hid] at hrs
  cases hrs

theorem Fills.trans (h : r.Fills r') (h' : r'.Fills r'') (hext : r'.Extends r'') : r.Fills r'' := by
  intro id hid
  by_cases hlt : id < r'.size
  · exact (h id hid).mono hext hlt
  · exact h' id (Nat.le_of_not_lt hlt)

/-- The type that was entered last has the types of its fields when those have been followed. -/
theorem Fills.enter (h : (r.enter name s).Fills r') (hext : (r.enter name s).Extends r')
    (hnested : ∀ i ∈ s.nested, (r'.idAt i).isSome) : r.Fills r' := by
  intro id hid
  rcases Nat.eq_or_lt_of_le hid with rfl | hlt
  · intro rs hrs
    rw [hext.shape? (shape?_enter r name s)] at hrs
    cases hrs
    exact hnested
  · exact h id (by rw [size_enter]; exact hlt)

mutual

/-- A registration that is not refused ends with the types of the fields of all that it entered. -/
theorem Registers.fills {r : Registry} {s : Shape} {x : Except RegistryError ShapeId × Registry} :
    Registers r s x → r.catalog.Closed → s.Within r.catalog.size → ∀ id, x.1 = .ok id →
      r.Fills x.2 ∧ x.2.idOf s = some id
  | .unnamed _, _, _, _, hok | .taken _ _ _, _, _, _, hok | .broken _ _ _, _, _, _, hok => by
    cases hok
  | .known hname hid _, _, _, _, hok => by
    cases hok
    exact ⟨.refl _, by rw [idOf, hname]; exact hid⟩
  | @Registers.entered r _ s name hname hnew hall, hr, hs, _, hok => by
    cases hok
    -- The type is entered before its fields are followed, so one that leads back to it finds it.
    have hcatalog := (Extends.enter r name s).catalog
    have hclosed : (r.enter name s).catalog.Closed := by rwa [hcatalog]
    have hwithin : s.Within (r.enter name s).catalog.size := by rwa [hcatalog]
    obtain ⟨hfills, hnested⟩ := hall.fills hclosed hwithin rfl
    refine ⟨hfills.enter hall.extends hnested, ?_⟩
    rw [idOf, hname]
    exact hall.extends.lookup (lookup_enter hnew s)

theorem RegistersAll.fills {r : Registry} {is : List Nat}
    {x : Except RegistryError Unit × Registry} :
    RegistersAll r is x → r.catalog.Closed → (∀ i ∈ is, i < r.catalog.size) → x.1 = .ok () →
      r.Fills x.2 ∧ ∀ i ∈ is, (x.2.idAt i).isSome
  | .nil, _, _, _ => ⟨.refl _, by simp⟩
  | .absent hi _, _, his, _ => by
    rw [Array.getElem?_eq_none_iff] at hi
    exact absurd (his _ (List.mem_cons_self ..)) (Nat.not_lt.2 hi)
  | .cons hi hs hrest, hr, his, hok => by
    have hcatalog := hs.extends.catalog
    obtain ⟨hfills, hid⟩ := hs.fills hr (hr _ (Array.mem_of_getElem? hi)) _ rfl
    obtain ⟨hfills', hall⟩ := hrest.fills (hcatalog ▸ hr)
      (hcatalog ▸ fun i hi => his i (List.mem_cons_of_mem _ hi)) hok
    refine ⟨hfills.trans hfills' hrest.extends, ?_⟩
    refine List.forall_mem_cons.2 ⟨hrest.extends.idAt ?_, hall⟩
    rw [idAt, hcatalog, hi]
    exact Option.isSome_iff_exists.2 ⟨_, hid⟩
  | .stop _ _, _, _, hok => by cases hok

end

theorem Accepts.fills (hr : r.catalog.Closed) (h : r.Accepts r') : r.Fills r' := by
  induction h with
  | refl => exact .refl r
  | @addNamespace r' ns hr' ih =>
    refine ih.trans (fun id hid rs hrs => ?_) (.addNamespace r' ns)
    have hnone : (r'.addNamespace ns).shape? id = none := by
      rw [shape?, show (r'.addNamespace ns).shapes = r'.shapes from shapes_foldl r' [ns]]
      exact shape?_eq_none hid
    rw [hnone] at hrs
    cases hrs
  | @register r' r'' s id hr' hs hok ih =>
    have hregisters := registers_iff.2 hok
    have hcatalog := hr'.extends.catalog
    exact ih.trans (hregisters.fills (hcatalog ▸ hr) (hcatalog ▸ hs) id rfl).1 hregisters.extends

/-! ## Namespaces -/

/-- The namespaces around the names of the types are known. -/
def Spaced (r : Registry) : Prop :=
  ∀ id rs, r.shape? id = some rs → ∀ ns ∈ (QualifiedName.parse rs.name).enclosing,
    r.hasNamespace ns = true

theorem hasNamespace_addNamespace_self (r : Registry) (ns : String) :
    (r.addNamespace ns).hasNamespace ns = true := by
  unfold addNamespace
  split
  · assumption
  · simp [hasNamespace]

theorem hasNamespace_foldl_of_mem (r : Registry) {nss : List String} (h : ns ∈ nss) :
    (nss.foldl Registry.addNamespace r).hasNamespace ns = true := by
  induction nss generalizing r with
  | nil => cases h
  | cons ns' nss ih =>
    rcases List.mem_cons.1 h with rfl | h
    · exact hasNamespace_foldl (hasNamespace_addNamespace_self r ns) nss
    · exact ih _ h

theorem Spaced.addNamespace (h : r.Spaced) (ns : String) : (r.addNamespace ns).Spaced := by
  intro id rs hrs ns' hns'
  rw [shape?, show (r.addNamespace ns).shapes = r.shapes from shapes_foldl r [ns]] at hrs
  exact hasNamespace_addNamespace (h id rs hrs ns' hns') ns

theorem Spaced.enter (h : r.Spaced) (name : String) (s : Shape) : (r.enter name s).Spaced := by
  intro id rs hrs ns hns
  rw [shape?, shapes_enter, Array.getElem?_push] at hrs
  split at hrs
  · cases hrs
    rw [hasNamespace_enter]
    exact hasNamespace_foldl_of_mem r hns
  · exact (Extends.enter r name s).namespaces ns (h id rs hrs ns hns)

theorem Built.spaced (h : r.Built) : r.Spaced := by
  induction h with
  | empty catalog => simp [Spaced, Registry.shape?, Registry.empty]
  | addNamespace ns _ ih => exact ih.addNamespace ns
  | @register r s _ ih => exact (registers_register r s).keeps (fun hr => hr.enter _ _) ih

/-! ## Complete registries -/

/-- The type has the name and the hash of the shape. -/
def Names (r : Registry) (id : ShapeId) (s : Shape) : Prop :=
  ∃ rs, r.shape? id = some rs ∧ s.typeName = some rs.name ∧ rs.hash = s.typeHash

theorem Names.mono (h : r.Extends r') : r.Names id s → r'.Names id s
  | ⟨rs, hrs, hname, hhash⟩ => ⟨rs, h.shape? hrs, hname, hhash⟩

theorem Registers.names (h : Registers r s (.ok id, r')) : r'.Names id s := by
  cases h with
  | known hname hid hhash =>
    obtain ⟨rs, hrs, rfl⟩ := exists_of_lookup hid
    rw [hrs] at hhash
    exact ⟨rs, hrs, hname, Option.some.inj hhash⟩
  | entered hname hnew hall => exact ⟨_, hall.extends.shape? (shape?_enter r _ s), hname, rfl⟩

/-- A registry with all the types, names and namespaces that its types need. -/
structure Complete (r : Registry) : Prop where
  /-- The recursion into the fields of a shape ends, however they refer to each other. -/
  ends : ∀ s x, Registers r s x ↔ r.register s = x
  /-- Each place below the size has a type, and its name finds it. -/
  named : ∀ id < r.size, ∃ rs, r.shape? id = some rs ∧ r.lookup rs.name = some id
  /-- What a name finds has the name. -/
  found : ∀ name id, r.lookup name = some id → ∃ rs, r.shape? id = some rs ∧ rs.name = name
  /-- Types keep their places. -/
  kept : ∀ r', r.Accepts r' → ∀ id < r.size, r'.shape? id = r.shape? id
  /-- A registration gives the place of the type, for good. -/
  returned : ∀ s id r', r.register s = (.ok id, r') → ∀ r'', r'.Accepts r'' → r''.Names id s
  /-- A path before a separator in the name of a type is a namespace. -/
  namespaces : ∀ id rs, r.shape? id = some rs → ∀ ns rest, rs.name = ns ++ "::" ++ rest →
    Spelling.isPath ns.toList = true → r.hasNamespace ns = true
  /-- Each field of a type has a type. -/
  fields : ∀ id rs, r.shape? id = some rs → ∀ f ∈ rs.shape.fields, (Ty.ofField? r f.kind).isSome
  /-- What the host calls like a registered type is that type. -/
  again : ∀ id rs, r.shape? id = some rs → ∀ s, s.hostName = rs.shape.hostName →
    r.register s = (.ok id, r)

theorem Filled.isSome_ofField? (h : r.Filled id) (hrs : r.shape? id = some rs) {f : Field}
    (hf : f ∈ rs.shape.fields) : (Ty.ofField? r f.kind).isSome := by
  by_cases hbase : ∃ i, f.kind.base = .object i
  · obtain ⟨i, hi⟩ := hbase
    have hnested : i ∈ rs.shape.nested := List.mem_filterMap.2 ⟨f, hf, by simp [hi]⟩
    simpa [Ty.ofField?, hi] using h rs hrs i hnested
  · obtain ⟨t, ht, -⟩ := Ty.exists_ofField? r fun i hi => hbase ⟨i, hi⟩
    simp [ht]

theorem Sound.register_again (hr : r.Sound) (hrs : r.shape? id = some rs)
    (hs : s.hostName = rs.shape.hostName) : r.register s = (.ok id, r) := by
  have hname : s.typeName = some rs.name := by
    rw [← hr.typeName hrs, Shape.typeName, Shape.typeName, hs]
  have hhash : rs.hash = s.typeHash := by
    rw [hr.hash hrs, Shape.typeHash, Shape.typeHash, hs]
  exact registers_iff.1 (.known hname (hr.lookup hrs) (by rw [hrs, Option.map_some, hhash]))

theorem isPath_of_typeName (h : s.typeName = some name) : Spelling.isPath name.toList = true :=
  (Spelling.normalize_eq_some h).2

/-- What is registered without a refusal over a closed catalog is complete, and stays so. -/
theorem Accepts.complete {catalog : Catalog} (hc : catalog.Closed) (h : (empty catalog).Accepts r) :
    r.Complete := by
  have hbuilt := h.built (.empty catalog)
  have hsound := hbuilt.sound
  constructor
  · exact fun s x => registers_iff
  · intro id hid
    obtain ⟨rs, hrs⟩ := shape?_of_lt hid
    exact ⟨rs, hrs, hsound.lookup hrs⟩
  · exact fun name id => exists_of_lookup
  · exact fun r' hr' id hid => hr'.extends.shape?_eq hid
  · exact fun s id r' hok r'' hr'' => (registers_iff.2 hok).names.mono hr''.extends
  · intro id rs hrs ns rest hname hns
    have hpath := isPath_of_typeName (hsound.typeName hrs)
    exact hbuilt.spaced id rs hrs ns (QualifiedName.mem_enclosing hpath hns hname)
  · exact fun id rs hrs f hf => (h.fills hc id (Nat.zero_le _)).isSome_ofField? hrs hf
  · exact fun id rs hrs s hs => hsound.register_again hrs hs

/-- A type with a field of its own type and one that leads back to it through another type. -/
def circle : Catalog :=
  #[⟨"app::Node", [⟨"leaf", .optional (.optional (.object 1))⟩, ⟨"next", .object 0⟩]⟩,
    ⟨"app::tree::Leaf", [⟨"label", .str⟩, ⟨"up", .optional (.object 0)⟩]⟩]

theorem closed_circle : circle.Closed := by
  simp only [Catalog.Closed, Shape.Within]
  decide

/-- Registering the first type of the circle enters both. -/
theorem registers_circle :
    Registers (empty circle) circle[0] (.ok 0,
      ((empty circle).enter "app::Node" circle[0]).enter "app::tree::Leaf" circle[1]) := by
  have hnode : circle[0].typeName = some "app::Node" := by decide +kernel
  have hleaf : circle[1].typeName = some "app::tree::Leaf" := by decide +kernel
  let r := (empty circle).enter "app::Node" circle[0]
  let r' := r.enter "app::tree::Leaf" circle[1]
  have hknown : Registers r' circle[0] (.ok 0, r') :=
    .known hnode (by decide +kernel) (by decide +kernel)
  have hentered : Registers r circle[1] (.ok 1, r') :=
    .entered hleaf (by decide +kernel) (.cons rfl hknown .nil)
  exact .entered hnode (by decide +kernel) (.cons rfl hentered (.cons rfl hknown .nil))

/-- The circle is complete with its two types and the namespaces of both. -/
theorem Accepts.complete_circle : circle.Closed ∧ ∃ r, (empty circle).Accepts r ∧ r.Complete ∧
    r.size = 2 ∧ r.hasNamespace "app::tree" = true := by
  have hr :=
    Accepts.register (.refl _) (closed_circle _ (by simp)) (registers_iff.1 registers_circle)
  exact ⟨closed_circle, _, hr, hr.complete closed_circle, by decide +kernel, by decide +kernel⟩

end Registry

end TypedTemplate
