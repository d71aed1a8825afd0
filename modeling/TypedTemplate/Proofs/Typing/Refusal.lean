-- SUMMARY: A refused registration leaves the registry as it was exactly when the shape itself is at fault.
import TypedTemplate.Proofs.Typing.Registration

/-!
# Refused registrations

A shape is refused for its own name before anything is entered. When the name is good the shape is
entered, and a refusal of the type of a field, at whatever depth, takes nothing of it back: the
shape stays, and registering it again finds it.
-/

namespace TypedTemplate.Registry

variable {r r' r'' : Registry} {s : Shape} {id : ShapeId} {e : RegistryError}

/-! ## Answers -/

/-- The two registries answer every question alike. -/
structure Same (r r' : Registry) : Prop where
  size : r'.size = r.size
  shape? : ∀ id, r'.shape? id = r.shape? id
  lookup : ∀ name, r'.lookup name = r.lookup name
  resolve : ∀ name uses, r'.resolve name uses = r.resolve name uses
  hasNamespace : ∀ ns, r'.hasNamespace ns = r.hasNamespace ns
  idOf : ∀ s, r'.idOf s = r.idOf s

theorem Same.refl (r : Registry) : r.Same r := by
  constructor <;> intros <;> rfl

/-- The shape cannot be registered under its name: it has none, or another type has it. -/
def Refuses (r : Registry) (s : Shape) : Prop :=
  s.typeName = none ∨ ∃ name id, s.typeName = some name ∧ r.lookup name = some id ∧
    (r.shape? id).map (·.hash) ≠ some s.typeHash

/-! ## Where a registration stops -/

/-- The second registry has a type, not in the first, with a field whose type is refused. -/
def Breaks (r r' : Registry) : Prop :=
  ∃ id rs, r.size ≤ id ∧ r'.shape? id = some rs ∧
    ∃ i ∈ rs.shape.nested, ∃ s, r'.catalog[i]? = some s ∧ r'.Refuses s

theorem Breaks.mono (h : r.size ≤ r'.size) : r'.Breaks r'' → r.Breaks r''
  | ⟨id, rs, hid, hbreaks⟩ => ⟨id, rs, h.trans hid, hbreaks⟩

mutual

/-- A refused registration has entered nothing, or the shape and a type that it could not
complete. -/
theorem Registers.stopped {r : Registry} {s : Shape} {x : Except RegistryError ShapeId × Registry} :
    Registers r s x → ∀ e, x.1 = .error e → r.Refuses s ∧ x.2 = r ∨
      (∃ name, s.typeName = some name ∧ r.lookup name = none ∧ (r.enter name s).Extends x.2) ∧
        r.Breaks x.2
  | .unnamed hname, _, _ => .inl ⟨.inl hname, rfl⟩
  | .taken hname hid hhash, _, _ => .inl ⟨.inr ⟨_, _, hname, hid, hhash⟩, rfl⟩
  | .known _ _ _, _, herror | .entered _ _ _, _, herror => by cases herror
  | .broken hname hnew hall, e, _ => by
    refine .inr ⟨⟨_, hname, hnew, hall.extends⟩, ?_⟩
    rcases hall.stopped _ rfl with hrefused | hbreaks
    · exact ⟨_, _, Nat.le_refl _, hall.extends.shape? (shape?_enter r _ s), hrefused⟩
    · exact hbreaks.mono (by simp [size_enter])

theorem RegistersAll.stopped {r : Registry} {is : List Nat}
    {x : Except RegistryError Unit × Registry} :
    RegistersAll r is x → ∀ e, x.1 = .error e →
      (∃ i ∈ is, ∃ s, x.2.catalog[i]? = some s ∧ x.2.Refuses s) ∨ r.Breaks x.2
  | .nil, _, herror => by cases herror
  | .absent _ hrest, e, herror => by
    rcases hrest.stopped e herror with ⟨i, hi, hrefused⟩ | hbreaks
    · exact .inl ⟨i, List.mem_cons_of_mem _ hi, hrefused⟩
    · exact .inr hbreaks
  | .cons _ hs hrest, e, herror => by
    rcases hrest.stopped e herror with ⟨i, hi, hrefused⟩ | hbreaks
    · exact .inl ⟨i, List.mem_cons_of_mem _ hi, hrefused⟩
    · exact .inr (hbreaks.mono hs.extends.size_le)
  | .stop hi hs, e, _ => by
    rcases hs.stopped _ rfl with ⟨hrefuses, hsame⟩ | ⟨-, hbreaks⟩
    · rw [← hsame] at hi hrefuses
      exact .inl ⟨_, List.mem_cons_self .., _, hi, hrefuses⟩
    · exact .inr hbreaks

end

/-! ## What a refusal leaves -/

/-- After a refusal of the shape itself everything is as before, and it is refused again. After any
other refusal the shape is registered, though not all the types of fields are: it is found when it
is registered again. -/
theorem register_error (h : r.register s = (.error e, r')) :
    r.Extends r' ∧ (r.Same r' ↔ r.Refuses s) ∧
      (r.Refuses s → r' = r ∧ r'.register s = (.error e, r')) ∧
      (¬ r.Refuses s → r.Breaks r' ∧ r'.register s = (.ok r.size, r')) := by
  have hregisters := registers_iff.2 h
  refine ⟨hregisters.extends, ?_⟩
  rcases hregisters.stopped e rfl with ⟨hrefuses, hsame⟩ | ⟨⟨name, hname, hnew, hext⟩, hbreaks⟩
  · obtain rfl : r' = r := hsame
    exact ⟨iff_of_true (.refl r') hrefuses, fun _ => ⟨rfl, h⟩, fun hnot => absurd hrefuses hnot⟩
  · have hnot : ¬ r.Refuses s := by
      rintro (hnone | ⟨name', id, hname', hid, -⟩)
      · rw [hname] at hnone
        cases hnone
      · rw [hname] at hname'
        cases hname'
        rw [hnew] at hid
        cases hid
    have hgrown : ¬ r.Same r' := by
      intro hsame
      have hle := hext.size_le
      rw [hsame.size, size_enter] at hle
      exact absurd hle (Nat.not_succ_le_self _)
    -- The shape was entered before its fields were followed, and nothing takes it out again.
    have hagain : r'.register s = (.ok r.size, r') := by
      refine registers_iff.1 (.known hname (hext.lookup (lookup_enter hnew s)) ?_)
      rw [hext.shape? (shape?_enter r name s), Option.map_some]
    exact ⟨iff_of_false hgrown hnot, fun hrefuses => absurd hrefuses hnot,
      fun _ => ⟨hbreaks, hagain⟩⟩

/-- A type with a field of a host type that has no spelling. -/
def pairField : Catalog := #[⟨"app::Outer", [⟨"pair", .object 1⟩]⟩, ⟨"(u8, u8)", []⟩]

theorem registers_pairField : Registers (empty pairField) pairField[0]
    (.error (.invalidTypeName "(u8, u8)"), (empty pairField).enter "app::Outer" pairField[0]) := by
  have houter : pairField[0].typeName = some "app::Outer" := by decide +kernel
  have hpair : pairField[1].typeName = none := by decide +kernel
  exact .broken houter (by decide +kernel) (.stop rfl (.unnamed hpair))

/-- The first registration is refused for the field, and the second one finds the type. -/
theorem register_error_pairField :
    (empty pairField).register pairField[0] = (.error (.invalidTypeName "(u8, u8)"),
        (empty pairField).enter "app::Outer" pairField[0]) ∧
      ¬ (empty pairField).Refuses pairField[0] ∧
      ((empty pairField).enter "app::Outer" pairField[0]).register pairField[0] =
        (.ok 0, (empty pairField).enter "app::Outer" pairField[0]) := by
  have hname : pairField[0].typeName = some "app::Outer" := by decide +kernel
  have hnot : ¬ (empty pairField).Refuses pairField[0] := by
    simp [Refuses, hname, Registry.lookup, empty]
  have herror := registers_iff.1 registers_pairField
  exact ⟨herror, hnot, ((register_error herror).2.2.2 hnot).2⟩

/-- A refused registration need not leave the registry as it was, nor be refused again. -/
theorem not_same_pairField : ∃ (r r' : Registry) (s : Shape) (e : RegistryError), r.Built ∧
    r.register s = (.error e, r') ∧ ¬ r.Same r' ∧ r'.register s = (.ok 0, r') := by
  have hname : pairField[0].typeName = some "app::Outer" := by decide +kernel
  refine ⟨_, _, _, _, .empty pairField, registers_iff.1 registers_pairField, ?_, ?_⟩
  · intro hsame
    have hsize := hsame.size
    rw [size_enter] at hsize
    exact absurd hsize (Nat.succ_ne_self _)
  · exact registers_iff.1 (.known hname (by decide +kernel) (by decide +kernel))

end TypedTemplate.Registry
