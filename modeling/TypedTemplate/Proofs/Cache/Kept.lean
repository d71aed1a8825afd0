-- SUMMARY: A cache whose entries are all built is a map from ids to outcomes.
import TypedTemplate.Proofs.Cache.Entry

/-!
# Kept outcomes

When every build leaves the cache alone, no entry is without an outcome between two
requests. The cache is then a map from ids to outcomes: a request adds the outcome of a
build for an id that has none, and dropping ids takes their outcomes out.
-/

namespace TypedTemplate.Cache

variable {α ε σ β : Type} {c : Cache α ε} {id id' : String} {entry : Nat} {x : Except ε α}

/-- The outcome that is kept for an id. -/
def kept? (c : Cache α ε) (id : String) : Option (Except ε α) := (c.entry? id).bind c.outcome?

/-- The cache is sound, and every id present has an outcome. -/
structure Filled (c : Cache α ε) : Prop extends c.Sound where
  built : ∀ id entry, (id, entry) ∈ c.index → (c.outcome? entry).isSome

theorem filled_empty : (empty : Cache α ε).Filled := by
  refine ⟨⟨?_, ?_⟩, ?_⟩ <;> intros <;> contradiction

theorem Filled.invalidate (h : c.Filled) (id : String) : (c.invalidate id).2.Filled :=
  ⟨h.toSound.invalidate id, fun i e hi => h.built i e (List.mem_filter.1 hi).1⟩

theorem Filled.clear (h : c.Filled) : c.clear.Filled :=
  ⟨h.toSound.clear, fun i e hi => h.built i e (List.nil_subset _ hi)⟩

theorem kept?_clear (c : Cache α ε) (id : String) : c.clear.kept? id = none := rfl

theorem entry?_invalidate (c : Cache α ε) (id id' : String) :
    Cache.entry? (c.invalidate id).2 id' = if id' = id then none else c.entry? id' := by
  unfold invalidate entry?
  simp only
  induction c.index with
  | nil => simp
  | cons p ps ih =>
    obtain ⟨i, e⟩ := p
    by_cases hi : i = id
    · subst hi
      rw [List.filter_cons_of_neg (by simp), ih]
      split
      · rfl
      · rename_i hne
        rw [List.lookup_cons, beq_false_of_ne hne]
    · rw [List.filter_cons_of_pos (by simpa using hi), List.lookup_cons, List.lookup_cons, ih]
      by_cases hid : id' = i
      · subst hid
        simp [hi]
      · simp [beq_false_of_ne hid]

theorem kept?_invalidate (c : Cache α ε) (id id' : String) :
    (c.invalidate id).2.kept? id' = if id' = id then none else c.kept? id' := by
  unfold kept?
  rw [entry?_invalidate]
  split <;> rfl

theorem Filled.entry?_of_not_kept (h : c.Filled) (hnone : c.kept? id = none) : c.entry? id = none := by
  cases hentry : c.entry? id with
  | none => rfl
  | some entry =>
    have hmem := mem_of_entry? hentry
    have hsome := h.built id entry hmem
    simp only [kept?, hentry, Option.bind_some] at hnone
    simp [hnone] at hsome

/-- An id with an outcome keeps it, and nothing is built or changed. -/
theorem getOrBuild_of_kept (h : c.kept? id = some x)
    (build : Cache α ε × σ → (Except ε α × β) × Cache α ε × σ) (s : σ) :
    Cache.getOrBuild (c.handle id).1.entry build ((c.handle id).2, s) = ((x, none), c, s) := by
  obtain ⟨entry, hentry, hx⟩ := Option.bind_eq_some_iff.1 h
  simp only [Cache.handle, hentry, Cache.getOrBuild, hx]

/-- An id without an outcome gets the one that is built, and the other ids keep theirs. -/
theorem Filled.getOrBuild_of_not_kept (h : c.Filled) (hnone : c.kept? id = none)
    {build : Cache α ε × σ → (Except ε α × β) × Cache α ε × σ} {s s' : σ} {b : β}
    (hbuild : build ((c.handle id).2, s) = ((x, b), (c.handle id).2, s')) :
    ∃ c' : Cache α ε,
      Cache.getOrBuild (c.handle id).1.entry build ((c.handle id).2, s) = ((x, some b), c', s') ∧
        c'.Filled ∧ ∀ id', c'.kept? id' = if id' = id then some x else c.kept? id' := by
  have hentry := h.entry?_of_not_kept hnone
  have hsound := h.toSound.handle id
  have hmem := mem_handle c id
  have hsize : (c.handle id).1.entry = c.outcomes.size := by
    simp only [Cache.handle, hentry]
  have hempty : (c.handle id).2.outcome? (c.handle id).1.entry = none := by
    rw [outcome?_handle, hsize]
    simp [outcome?]
  have hput := outcome?_fulfil (hsound.lt id _ hmem) hempty x
  refine ⟨(c.handle id).2.fulfil (c.handle id).1.entry x, ?_, ⟨hsound.fulfil _ x, ?_⟩, ?_⟩
  · simp only [Cache.getOrBuild, hempty, hbuild]
    rw [hput, if_pos rfl, Option.getD_some]
  · intro i e hi
    rw [index_fulfil] at hi
    rw [hput]
    split
    · rfl
    · rw [outcome?_handle]
      rcases mem_index_handle hi with hold | ⟨-, rfl, -⟩
      · exact h.built i e hold
      · exact absurd hsize.symm ‹_›
  · intro i
    have hlookup : Cache.entry? ((c.handle id).2.fulfil (c.handle id).1.entry x) i =
        if i = id then some (c.handle id).1.entry else c.entry? i := by
      unfold entry?
      rw [index_fulfil]
      simp only [Cache.handle, hentry, List.lookup_cons]
      by_cases hi : i = id
      · simp [hi]
      · simp [hi, beq_false_of_ne hi]
    unfold kept?
    rw [hlookup]
    split
    · simp [hput]
    · cases hold : c.entry? i with
      | none => rfl
      | some e =>
        -- the new entry is behind all others
        have hne : e ≠ (c.handle id).1.entry := by
          have hmem := mem_of_entry? hold
          rw [hsize]
          exact Nat.ne_of_lt (h.lt i e hmem)
        simp only [Option.bind_some]
        rw [hput, if_neg hne, outcome?_handle]

end TypedTemplate.Cache
