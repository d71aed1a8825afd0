-- SUMMARY: In a cache the outcome of an id stays what its first build gave.
import TypedTemplate.Cache.Basic

/-!
# Cache entries

The ids of a cache have entries of their own, and no outcome is ever replaced. So an id
whose builds all end the same has that outcome or none yet, whatever is asked of the
cache for other ids.
-/

namespace TypedTemplate.Cache

variable {α ε σ β : Type} {c c' : Cache α ε} {id id' : String} {entry : Nat} {x y : Except ε α}

/-- Every id present has an entry that no other id has. -/
structure Sound (c : Cache α ε) : Prop where
  lt : ∀ id entry, (id, entry) ∈ c.index → entry < c.outcomes.size
  apart : ∀ id id' entry, (id, entry) ∈ c.index → (id', entry) ∈ c.index → id = id'

/-- The cache is sound, and the outcome of `id` is `x` if there is one. -/
structure Settles (c : Cache α ε) (id : String) (x : Except ε α) : Prop extends c.Sound where
  outcome : ∀ entry, (id, entry) ∈ c.index → ∀ y, c.outcome? entry = some y → y = x

theorem settles_empty (id : String) (x : Except ε α) : (empty : Cache α ε).Settles id x := by
  have hnone : ∀ id entry, (id, entry) ∉ (empty : Cache α ε).index := fun _ _ => List.not_mem_nil
  exact ⟨⟨fun i e h => absurd h (hnone i e), fun i _ e h => absurd h (hnone i e)⟩,
    fun e h => absurd h (hnone id e)⟩

theorem mem_of_entry? (h : c.entry? id = some entry) : (id, entry) ∈ c.index := by
  obtain ⟨before, after, hindex, -⟩ := List.lookup_eq_some_iff.1 h
  rw [hindex]
  simp

theorem not_mem_of_entry? (h : c.entry? id = none) (entry : Nat) : (id, entry) ∉ c.index := by
  intro hmem
  have hne := List.lookup_eq_none_iff.1 h (id, entry) hmem
  simp at hne

/-- Forgetting ids keeps the others apart. -/
theorem Sound.of_subset (h : c.Sound) (hindex : c'.index ⊆ c.index)
    (houtcomes : c'.outcomes = c.outcomes) : c'.Sound := by
  refine ⟨fun i e hi => ?_, fun i i' e hi hi' => h.apart i i' e (hindex hi) (hindex hi')⟩
  rw [houtcomes]
  exact h.lt i e (hindex hi)

theorem Sound.invalidate (h : c.Sound) (id : String) : (c.invalidate id).2.Sound :=
  h.of_subset (fun _ hp => (List.mem_filter.1 hp).1) rfl

theorem Sound.clear (h : c.Sound) : c.clear.Sound := h.of_subset (List.nil_subset _) rfl

/-- Forgetting ids keeps what is known of the others. -/
theorem Settles.of_subset (h : c.Settles id x) (hindex : c'.index ⊆ c.index)
    (houtcomes : c'.outcomes = c.outcomes) : c'.Settles id x := by
  refine ⟨h.toSound.of_subset hindex houtcomes, fun e hi y hy => ?_⟩
  rw [outcome?, houtcomes] at hy
  exact h.outcome e (hindex hi) y hy

theorem Settles.invalidate (h : c.Settles id x) (id' : String) : (c.invalidate id').2.Settles id x :=
  h.of_subset (fun _ hp => (List.mem_filter.1 hp).1) rfl

theorem Settles.clear (h : c.Settles id x) : c.clear.Settles id x :=
  h.of_subset (List.nil_subset _) rfl

/-- A handle has an entry of its id. -/
theorem mem_handle (c : Cache α ε) (id : String) : (id, (c.handle id).1.entry) ∈ (c.handle id).2.index := by
  unfold handle
  cases hentry : c.entry? id with
  | some entry => exact mem_of_entry? hentry
  | none => exact List.mem_cons_self

/-- The entries after a look-up are those before and, if the id had none, the next one. -/
theorem mem_index_handle {i : String} (h : (i, entry) ∈ (c.handle id).2.index) :
    (i, entry) ∈ c.index ∨ i = id ∧ entry = c.outcomes.size ∧ c.entry? id = none := by
  unfold handle at h
  cases hentry : c.entry? id with
  | some found => exact .inl (by simpa [hentry] using h)
  | none =>
    rw [hentry] at h
    rcases List.mem_cons.1 h with h | h
    · obtain ⟨rfl, rfl⟩ := Prod.mk.inj h
      exact .inr ⟨rfl, rfl, rfl⟩
    · exact .inl h

theorem size_outcomes_handle (c : Cache α ε) (id : String) :
    c.outcomes.size ≤ (c.handle id).2.outcomes.size := by
  unfold handle
  split
  · exact Nat.le_refl _
  · simp

/-- A look-up gives no entry an outcome. -/
theorem outcome?_handle (c : Cache α ε) (id : String) (entry : Nat) :
    (c.handle id).2.outcome? entry = c.outcome? entry := by
  unfold handle
  split
  · rfl
  · simp only [outcome?, Array.getElem?_push]
    split
    · simp [*]
    · rfl

theorem Sound.handle (h : c.Sound) (id : String) : (c.handle id).2.Sound := by
  -- a new entry is behind all others
  have hsize : ∀ i e, (i, e) ∈ c.index → e ≠ c.outcomes.size :=
    fun i e hi => Nat.ne_of_lt (h.lt i e hi)
  refine ⟨fun i e hi => ?_, fun i i' e hi hi' => ?_⟩
  · rcases mem_index_handle hi with hold | ⟨-, rfl, hnone⟩
    · exact Nat.lt_of_lt_of_le (h.lt i e hold) (size_outcomes_handle c id)
    · simp [Cache.handle, hnone]
  · rcases mem_index_handle hi with hold | ⟨rfl, rfl, -⟩ <;>
      rcases mem_index_handle hi' with hold' | ⟨rfl, he, -⟩
    · exact h.apart i i' e hold hold'
    · exact absurd he (hsize i e hold)
    · exact absurd rfl (hsize i' _ hold')
    · rfl

theorem Settles.handle (h : c.Settles id x) (id' : String) : (c.handle id').2.Settles id x := by
  refine ⟨h.toSound.handle id', fun e hi y hy => ?_⟩
  rw [outcome?_handle] at hy
  rcases mem_index_handle hi with hold | ⟨-, rfl, -⟩
  · exact h.outcome e hold y hy
  · simp [outcome?] at hy

theorem index_fulfil (c : Cache α ε) (entry : Nat) (y : Except ε α) :
    (c.fulfil entry y).index = c.index := by
  unfold fulfil
  split <;> rfl

theorem size_outcomes_fulfil (c : Cache α ε) (entry : Nat) (y : Except ε α) :
    (c.fulfil entry y).outcomes.size = c.outcomes.size := by
  unfold fulfil
  split <;> simp

/-- An entry without an outcome gets the one that is put into it, and the others stay. -/
theorem outcome?_fulfil (hlt : entry < c.outcomes.size) (hnone : c.outcome? entry = none)
    (y : Except ε α) (e : Nat) :
    (c.fulfil entry y).outcome? e = if e = entry then some y else c.outcome? e := by
  simp only [fulfil, hnone]
  simp only [outcome?, Array.getElem?_setIfInBounds]
  by_cases he : e = entry
  · simp [he, hlt]
  · simp [he, Ne.symm he]

theorem Sound.fulfil (h : c.Sound) (entry : Nat) (y : Except ε α) : (c.fulfil entry y).Sound := by
  refine ⟨fun i e hi => ?_, fun i i' e hi hi' => ?_⟩
  · rw [index_fulfil] at hi
    rw [size_outcomes_fulfil]
    exact h.lt i e hi
  · rw [index_fulfil] at hi hi'
    exact h.apart i i' e hi hi'

/-- An outcome put into an entry, which is `x` if the entry is that of `id`. -/
theorem Settles.fulfil (h : c.Settles id x) (hentry : (id', entry) ∈ c.index)
    (hy : id' = id → y = x) : (c.fulfil entry y).Settles id x := by
  refine ⟨h.toSound.fulfil entry y, fun e hi z hz => ?_⟩
  rw [index_fulfil] at hi
  cases hold : c.outcome? entry with
  | some _ =>
    simp only [Cache.fulfil, hold] at hz
    exact h.outcome e hi z hz
  | none =>
    rw [outcome?_fulfil (h.lt id' entry hentry) hold] at hz
    split at hz
    · rename_i he
      subst he
      obtain rfl := Option.some.inj hz
      exact hy (h.apart id' id e hentry hi)
    · exact h.outcome e hi z hz

/-- What a request for an entry of `id` gives is `x`, when a build that leaves the cache alone gives
`x` for that id. -/
theorem Settles.getOrBuild (h : c.Settles id x) (hentry : (id', entry) ∈ c.index)
    (build : Cache α ε × σ → (Except ε α × β) × Cache α ε × σ) (st : σ)
    (hcache : (build (c, st)).2.1 = c) (hx : id' = id → (build (c, st)).1.1 = x) :
    (Cache.getOrBuild entry build (c, st)).2.1.Settles id x ∧
      (id' = id → (Cache.getOrBuild entry build (c, st)).1.1 = x) := by
  unfold Cache.getOrBuild
  simp only
  cases hold : c.outcome? entry with
  | some y =>
    refine ⟨h, ?_⟩
    rintro rfl
    exact h.outcome entry hentry y hold
  | none =>
    generalize build (c, st) = built at hcache hx
    obtain ⟨⟨y, b⟩, c', st'⟩ := built
    obtain rfl : c' = c := hcache
    have hfulfil := h.fulfil hentry hx
    refine ⟨hfulfil, ?_⟩
    rintro rfl
    have hindex : (id', entry) ∈ (c'.fulfil entry y).index := by
      rw [index_fulfil]
      exact hentry
    cases hnew : (c'.fulfil entry y).outcome? entry with
    | some z => exact hfulfil.outcome entry hindex z hnew
    | none => exact hx rfl

end TypedTemplate.Cache
