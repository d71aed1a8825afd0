-- SUMMARY: What the names of a scope stand for: types while compiling, slots of the frame at run time.
import TypedTemplate.Typing.Scope
import TypedTemplate.Proofs.Semantics.Eval

/-!
# Scopes and environments

A scope gives each name a slot, an environment gives it a value. They agree when
every name of the scope is bound, with the type declared, to what its slot holds.
-/

namespace TypedTemplate

namespace Scope

variable {s s' : Scope} {x name : String} {t : Ty} {span : Span} {slot : Nat} {l : Local}

theorem lt_of_slot? (h : s.slot? x = some slot) : slot < s.frameSize := by
  obtain ⟨hlt, -⟩ := Array.findIdx?_eq_some_iff_getElem.1 h
  exact hlt

theorem get?_eq_some : s.get? x = some (slot, l) ↔ s.slot? x = some slot ∧ s.locals[slot]? = some l := by
  simp only [get?, Option.bind_eq_some_iff, Option.map_eq_some_iff, Prod.mk.injEq]
  constructor
  · rintro ⟨_, h, _, h', rfl, rfl⟩
    exact ⟨h, h'⟩
  · rintro ⟨h, h'⟩
    exact ⟨slot, h, l, h', rfl, rfl⟩

theorem lt_of_get? (h : s.get? x = some (slot, l)) : slot < s.frameSize :=
  lt_of_slot? (get?_eq_some.1 h).1

/-- A declaration takes the next slot. -/
theorem declare_eq_ok (h : s.declare name t span = .ok (slot, s')) :
    s.slot? name = none ∧ slot = s.frameSize ∧ s.frameSize < maxLocals ∧
      s' = { s with locals := s.locals.push ⟨name, t, span⟩ } := by
  unfold declare at h
  split at h
  · simp at h
  · rename_i hknown
    split at h
    · rename_i hroom
      obtain ⟨rfl, rfl⟩ : s.frameSize = slot ∧ _ = s' := by simpa using h
      have hnone : s.slot? name = none := by
        cases hslot : s.slot? name with
        | none => rfl
        | some i => simp [isKnown, hslot] at hknown
      exact ⟨hnone, rfl, hroom, rfl⟩
    · simp at h

theorem frameSize_declare (h : s.declare name t span = .ok (slot, s')) :
    s'.frameSize = s.frameSize + 1 := by
  obtain ⟨-, -, -, rfl⟩ := declare_eq_ok h
  simp [frameSize]

/-- A declaration leaves the other names where they are. -/
theorem get?_declare (h : s.declare name t span = .ok (slot, s')) (x : String) :
    s'.get? x = if name = x then some (slot, ⟨name, t, span⟩) else s.get? x := by
  obtain ⟨hnone, rfl, -, rfl⟩ := declare_eq_ok h
  simp only [get?, slot?, Array.findIdx?_push]
  by_cases hx : name = x
  · subst hx
    have hnone' : s.locals.findIdx? (·.name == name) = none := hnone
    simp [hnone', frameSize]
  · cases hslot : s.locals.findIdx? (·.name == x) with
    | none => simp [hx]
    | some i =>
      have hlt : i < s.locals.size := lt_of_slot? hslot
      simp [hx, Array.getElem?_push, Nat.ne_of_lt hlt]

/-! ## Agreement -/

/-- The names of the scope are declared with the types of `Γ`. -/
def Types (s : Scope) (Γ : Typing) : Prop :=
  ∀ (x : String) (slot : Nat) (l : Local), s.get? x = some (slot, l) → Γ x = some l.type

/-- The typing of the declared names alone. -/
def typing (s : Scope) : Typing := fun x => (s.get? x).map (·.2.type)

theorem types_typing (s : Scope) : s.Types s.typing :=
  fun x slot l h => by simp [typing, h]

theorem Types.declare {Γ : Typing} (hs : s.Types Γ) (h : s.declare name t span = .ok (slot, s')) :
    s'.Types (Γ.bind name t) := by
  intro x slot l hx
  rw [get?_declare h] at hx
  unfold Typing.bind
  split at hx <;> rename_i heq
  · cases hx
    rw [if_pos heq]
  · rw [if_neg heq]
    exact hs x slot l hx

/-- Every name of the scope is bound to what its slot holds. -/
structure Agrees (s : Scope) (env : Env) (locals : Array Value) : Prop where
  room : s.frameSize ≤ maxLocals
  bound : ∀ x slot l, s.get? x = some (slot, l) →
    ∃ v, env.get? x = some ⟨x, l.type, v⟩ ∧ locals[slot]? = some v

theorem agrees_empty (env : Env) (locals : Array Value) : Scope.empty.Agrees env locals :=
  ⟨by simp [empty, frameSize], fun x slot l h => by simp [empty, get?, slot?] at h⟩

theorem Agrees.types {env : Env} {locals : Array Value} (h : s.Agrees env locals) :
    s.Types env.typing := by
  intro x slot l hx
  obtain ⟨v, hv, -⟩ := h.bound x slot l hx
  simp [Env.typing, hv]

/-- A name that is declared is bound to what is put into its slot. -/
theorem Agrees.declare {env : Env} {locals : Array Value} {v : Value} (hs : s.Agrees env locals)
    (h : s.declare name t span = .ok (slot, s')) {locals' : Array Value}
    (hnew : locals'[slot]? = some v)
    (hold : ∀ i < s.frameSize, locals'[i]? = locals[i]?) :
    s'.Agrees (⟨name, t, v⟩ :: env) locals' := by
  have hsize := frameSize_declare h
  obtain ⟨-, -, hroom, -⟩ := declare_eq_ok h
  refine ⟨by omega, fun x i l hx => ?_⟩
  rw [get?_declare h] at hx
  rw [Env.get?_cons]
  split at hx <;> rename_i heq
  · cases hx
    subst heq
    exact ⟨v, by simp, hnew⟩
  · obtain ⟨w, hw, hi⟩ := hs.bound x i l hx
    exact ⟨w, by simpa [heq] using hw, (hold i (lt_of_get? hx)).trans hi⟩

end Scope

end TypedTemplate
