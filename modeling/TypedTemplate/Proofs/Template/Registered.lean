-- SUMMARY: In a registry, the name of a type finds it, and its name and hash are those of its shape.
import TypedTemplate.Proofs.Template.Compiled
import TypedTemplate.Proofs.Template.TypeText

/-!
# Registered types

A registry starts empty and grows by registrations and namespaces. A name is entered once, as
the spelling of the shape's host name, so it finds its own type ever after. What a unit calls by
that name is the type, unless the language has a type of its own under it.
-/

namespace TypedTemplate

namespace Registry

/-- The registries that come of registering shapes and adding namespaces, in any order. What a refused
registration entered is there too. -/
inductive Built : Registry → Prop where
  | empty (catalog : Catalog) : Built (.empty catalog)
  | addNamespace {r : Registry} (ns : String) : Built r → Built (r.addNamespace ns)
  | register {r : Registry} (s : Shape) : Built r → Built (r.register s).2

/-- Each type has the name and hash of its shape, and its name finds it. -/
structure Sound (r : Registry) : Prop where
  typeName : ∀ {id : ShapeId} {s : RegisteredShape}, r.shape? id = some s →
    s.shape.typeName = some s.name
  hash : ∀ {id : ShapeId} {s : RegisteredShape}, r.shape? id = some s → s.hash = s.shape.typeHash
  lookup : ∀ {id : ShapeId} {s : RegisteredShape}, r.shape? id = some s → r.lookup s.name = some id

variable {r r' : Registry}

/-- Only the types matter. -/
theorem Sound.of_shapes (h : r.Sound) (hshapes : r'.shapes = r.shapes) : r'.Sound := by
  have hshape (id : ShapeId) : r'.shape? id = r.shape? id := by rw [shape?, shape?, hshapes]
  have hlookup (name : String) : r'.lookup name = r.lookup name := by
    rw [Registry.lookup, Registry.lookup, hshapes]
  constructor
  · exact fun hs => h.typeName (hshape _ ▸ hs)
  · exact fun hs => h.hash (hshape _ ▸ hs)
  · exact fun hs => (hlookup _).trans (h.lookup (hshape _ ▸ hs))

theorem sound_empty (catalog : Catalog) : (empty catalog).Sound := by
  constructor <;> simp [shape?, empty]

theorem Sound.addNamespace (h : r.Sound) (ns : String) : (r.addNamespace ns).Sound :=
  h.of_shapes (shapes_foldl r [ns])

theorem shapes_enter (r : Registry) (name : String) (s : Shape) :
    (r.enter name s).shapes = r.shapes.push ⟨name, s, s.typeHash⟩ := by
  rw [enter, shapes_foldl]

/-- A new type is found under its name, and the others as before. -/
theorem Sound.enter (h : r.Sound) {name : String} {s : Shape} (hname : s.typeName = some name)
    (hnew : r.lookup name = none) : (r.enter name s).Sound := by
  have hcases {id : ShapeId} {s' : RegisteredShape} (hs : (r.enter name s).shape? id = some s') :
      r.shape? id = some s' ∨ id = r.shapes.size ∧ s' = ⟨name, s, s.typeHash⟩ := by
    rw [shape?, shapes_enter, Array.getElem?_push] at hs
    split at hs
    · exact .inr ⟨‹_›, (Option.some.inj hs).symm⟩
    · exact .inl hs
  constructor
  · intro id s' hs
    rcases hcases hs with hs | ⟨-, rfl⟩
    · exact h.typeName hs
    · exact hname
  · intro id s' hs
    rcases hcases hs with hs | ⟨-, rfl⟩
    · exact h.hash hs
    · rfl
  · intro id s' hs
    rw [Registry.lookup, shapes_enter, Array.findIdx?_push]
    rcases hcases hs with hs | ⟨rfl, rfl⟩
    · have hlookup : r.shapes.findIdx? (·.name == s'.name) = some id := h.lookup hs
      rw [hlookup]
      rfl
    · have hnone : r.shapes.findIdx? (·.name == name) = none := hnew
      simp [hnone]

mutual

/-- A registration keeps the registry sound, also one that is refused. -/
theorem Sound.registerTo {r : Registry} (h : r.Sound) (depth : Nat) (s : Shape) :
    (r.registerTo depth s).2.Sound := by
  rw [Registry.registerTo]
  split
  · exact h
  · rename_i name hname
    split
    · split <;> exact h
    · rename_i hnew
      have hentered := h.enter hname hnew
      cases depth with
      | zero => exact hentered
      | succ depth =>
        have hnested := Sound.registerAllTo hentered depth s.nested
        simp only
        split <;> simp_all
termination_by (depth, 0)

theorem Sound.registerAllTo {r : Registry} (h : r.Sound) (depth : Nat) (is : List Nat) :
    (r.registerAllTo depth is).2.Sound := by
  cases is with
  | nil =>
    rw [Registry.registerAllTo]
    exact h
  | cons i is =>
    rw [Registry.registerAllTo]
    split
    · exact Sound.registerAllTo h depth is
    · rename_i s _
      have hs := Sound.registerTo h depth s
      split
      · rename_i hregister
        rw [hregister] at hs
        exact Sound.registerAllTo hs depth is
      · rename_i hregister
        rw [hregister] at hs
        exact hs
termination_by (depth, is.length + 1)

end

theorem Built.sound (h : r.Built) : r.Sound := by
  induction h with
  | empty catalog => exact sound_empty catalog
  | addNamespace ns _ ih => exact ih.addNamespace ns
  | register s _ ih => exact ih.registerTo _ s

end Registry

/-! ## Resolution -/

/-- A path that does not stand alone, or has arguments, has a mark in its text. -/
theorem TypeRef.AllNames.exists_mark {P : String → Prop} {t : TypeRef} (h : t.AllNames P)
    (ht : (t.path.isSimple && t.args.isEmpty) = false) :
    ∃ c ∈ t.text.toList, isWordChar c = false := by
  obtain ⟨hx, -, -⟩ := h
  rename_i p args span x xs
  cases args with
  | cons a as => exact ⟨'<', by simp [toList_text_cons], by decide⟩
  | nil =>
    have hlength := congrArg List.length hx
    cases xs with
    | nil =>
      have hsimple : p.isSimple = true := by simpa [Path.isSimple] using hlength
      simp [path, args, hsimple] at ht
    | cons y ys =>
      refine ⟨':', ?_, by decide⟩
      rw [text_nil, Path.text, hx, toList_path]
      simp

theorem Ty.isWordChar_builtin {x : String} {b : Ty} (h : builtin? x = some b) :
    ∀ c ∈ x.toList, isWordChar c = true := by
  unfold builtin? at h
  split at h <;> first | decide | cases h

namespace Check

open Registry

variable {r : Registry} {id : ShapeId} {s : RegisteredShape} {t : TypeRef}

/-- What reads like the name of a registered type is that type, unless the language has a type of its
own under the name. -/
theorem resolve_eq_model {P : String → Prop} (hr : r.Sound) (hs : r.shape? id = some s)
    (ht : t.AllNames P) (htext : t.text = s.name) (uses : List String) :
    resolve r uses t = .ok (.model id) ↔ Ty.builtin? s.name = none := by
  have hmodel : r.resolve t.text uses = some id := by rw [Registry.resolve, htext, hr.lookup hs]
  unfold resolve
  simp only [hmodel]
  cases hsimple : t.path.isSimple && t.args.isEmpty with
  | true =>
    obtain ⟨-, hargs⟩ := Bool.and_eq_true_iff.1 hsimple
    obtain ⟨p, args, span⟩ := t
    obtain rfl : args = [] := List.isEmpty_iff.1 hargs
    have hpath : p.text = s.name := by rw [← htext, TypeRef.text]
    simp only [if_true, TypeRef.path, hpath]
    cases hbuiltin : Ty.builtin? s.name with
    | none => simp
    | some b =>
      simp only [Except.ok.injEq, reduceCtorEq, iff_false]
      rintro rfl
      unfold Ty.builtin? at hbuiltin
      split at hbuiltin <;> simp [Ty.str, Ty.int, Ty.float, Ty.bool, Ty.model] at hbuiltin
  | false =>
    simp only [Bool.false_eq_true, if_false, true_iff]
    obtain ⟨c, hc, hmark⟩ := ht.exists_mark hsimple
    cases hbuiltin : Ty.builtin? s.name with
    | none => rfl
    | some b =>
      rw [Ty.isWordChar_builtin hbuiltin c (htext ▸ hc)] at hmark
      cases hmark

/-- A registered type can be declared, and a caller sees its name and hash. -/
theorem declares_registered (hr : r.Sound) (hs : r.shape? id = some s) {uses : List String}
    (ht : resolve r uses t = .ok (.model id)) :
    Declares r uses t ⟨.model id, .model s.name s.shape.typeHash⟩ := by
  refine ⟨ht, ?_⟩
  simp [Ty.valueType?, Ty.model, hs, hr.hash hs]

end Check

end TypedTemplate
