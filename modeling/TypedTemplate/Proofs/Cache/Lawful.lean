-- SUMMARY: Whatever program uses a cache, each entry is built at most once, and everyone gets what that build gave.
import TypedTemplate.Proofs.Cache.Program

/-!
# Cache runs

Outcomes belong to entries and not to ids. An entry that is begun stays begun: its
build runs or has ended, and what it gave stays. So no entry is built twice, and
everyone who asks for it gets the same. An id that is forgotten gets an entry that was
never there before, so the next request for the id builds afresh, unless a handle to
the new entry was quicker.
-/

namespace TypedTemplate

variable {α ε : Type}

/-- The event is that the build of an entry begins. -/
def CacheEvent.begins (entry : Nat) : CacheEvent α ε → Bool
  | .asked _ e own => own && e == entry
  | _              => false

namespace CacheLog

/-- What happened, without the caches. -/
def events (log : CacheLog α ε) : List (CacheEvent α ε) := log.map (·.event)

/-- After an id is invalidated, the next request for it by id builds. -/
def Rebuilds (log : CacheLog α ε) : Prop :=
  ∀ before between after c id answer entry own cache cache',
    log = before ++ ⟨.answered c (.invalidate id) answer, cache⟩ ::
      (between ++ ⟨.asked (.byId id) entry own, cache'⟩ :: after) →
    (∀ e o, .asked (.byId id) e o ∉ events between) → own = true

/-- The handle numbered `n` was taken when the id had the entry. -/
def Takes (log : CacheLog α ε) (n : Nat) (h : Handle) : Prop :=
  ∃ m ∈ log, ∃ c, m.event = .answered c (.handle h.id) (.handle n) ∧
    m.cache.entry? h.id = some h.entry

/-- The log of a run as it should be. -/
structure Lawful (log : CacheLog α ε) : Prop where
  /-- A request by id is for the entry that the id has. -/
  byId : ∀ m ∈ log, ∀ id entry own, m.event = .asked (.byId id) entry own →
    m.cache.entry? id = some entry
  /-- A request through a handle is for the entry that its id had when it was taken. -/
  byHandle : ∀ n entry own, .asked (.byHandle n) entry own ∈ events log →
    ∃ id, Takes log n ⟨id, entry⟩
  /-- No entry is built twice. -/
  once : ∀ entry, (events log).countP (·.begins entry) ≤ 1
  /-- Every request for the outcome of an entry returns what the build of the entry gave. -/
  given : ∀ entry x, .given entry x ∈ events log →
    .built entry x ∈ events log ∧ ∀ y, .built entry y ∈ events log → y = x
  /-- An entry is ready or failed for good. -/
  settled : log.Pairwise fun m m' => ∀ entry, m.cache.stateOf entry ≠ .compiling →
    m'.cache.stateOf entry = m.cache.stateOf entry
  /-- The state of an id is that of its entry. -/
  state : ∀ m ∈ log, ∀ c id answer, m.event = .answered c (.state id) answer →
    answer = .state ((m.cache.entry? id).map m.cache.stateOf)
  /-- The state of a handle is that of the entry that its id had when it was taken. -/
  stateAt : ∀ m ∈ log, ∀ c n id state, m.event = .answered c (.stateAt n) (.stateAt id state) →
    ∃ entry, Takes log n ⟨id, entry⟩ ∧ state = m.cache.stateOf entry
  /-- There is a value just when the state is ready. -/
  get : ∀ c id answer, .answered c (.get id) answer ∈ events log →
    ∃ v : Option α, answer = .value v ∧ (v.isSome ↔ c.state? id = some .ready)
  /-- An id is removed just when it is there. -/
  invalidate : ∀ c id answer, .answered c (.invalidate id) answer ∈ events log →
    answer = .flag (c.contains id)
  /-- After an id is invalidated, the next request for it by id builds, unless a request through a
  handle has built the new entry in between. -/
  rebuilds : ∀ before between after c id answer entry own cache cache',
    log = before ++ ⟨.answered c (.invalidate id) answer, cache⟩ ::
      (between ++ ⟨.asked (.byId id) entry own, cache'⟩ :: after) →
    (∀ e o, .asked (.byId id) e o ∉ events between) →
    own = true ∨ ∃ n, .asked (.byHandle n) entry true ∈ events between
  /-- The size is the number of ids that are there. -/
  size : ∀ c answer, .answered c .size answer ∈ events log →
    ∃ ids : List String, ids.Nodup ∧ (∀ id, id ∈ ids ↔ c.contains id = true) ∧
      answer = .size ids.length

end CacheLog

namespace Cache

/-- The cache may come to be the cache `c'`: outcomes stay, and every entry that an id has newly is
a new one. -/
structure Leads (c c' : Cache α ε) : Prop where
  size : c.outcomes.size ≤ c'.outcomes.size
  outcome : ∀ entry x, c.outcome? entry = some x → c'.outcome? entry = some x
  index : ∀ id entry, (id, entry) ∈ c'.index → (id, entry) ∈ c.index ∨ c.outcomes.size ≤ entry

theorem Leads.refl (c : Cache α ε) : c.Leads c :=
  ⟨Nat.le_refl _, fun _ _ h => h, fun _ _ h => .inl h⟩

theorem Leads.trans {c c' c'' : Cache α ε} (h : c.Leads c') (h' : c'.Leads c'') : c.Leads c'' := by
  refine ⟨Nat.le_trans h.size h'.size, fun e x hx => h'.outcome e x (h.outcome e x hx), ?_⟩
  intro id e he
  rcases h'.index id e he with hold | hnew
  · exact h.index id e hold
  · exact .inr (Nat.le_trans h.size hnew)

theorem leads_handle (c : Cache α ε) (id : String) : c.Leads (c.handle id).2 := by
  refine ⟨c.size_outcomes_handle id, fun e x hx => (c.outcome?_handle id e).trans hx, ?_⟩
  intro i e he
  rcases mem_index_handle he with hold | ⟨-, rfl, -⟩
  · exact .inl hold
  · exact .inr (Nat.le_refl _)

theorem leads_of_subset {c c' : Cache α ε} (hindex : c'.index ⊆ c.index)
    (houtcomes : c'.outcomes = c.outcomes) : c.Leads c' := by
  refine ⟨Nat.le_of_eq (by rw [houtcomes]), fun e x hx => ?_, fun id e he => .inl (hindex he)⟩
  rw [outcome?, houtcomes]
  exact hx

theorem leads_fulfil (c : Cache α ε) (entry : Nat) (x : Except ε α) : c.Leads (c.fulfil entry x) := by
  refine ⟨Nat.le_of_eq (c.size_outcomes_fulfil entry x).symm, fun e y hy => ?_, fun id e he => ?_⟩
  · cases hold : c.outcome? entry with
    | some _ => simpa [fulfil, hold] using hy
    | none =>
      have hne : e ≠ entry := by
        rintro rfl
        simp [hold] at hy
      simp only [fulfil, hold]
      simpa [outcome?, Array.getElem?_setIfInBounds, Ne.symm hne] using hy
  · rw [index_fulfil] at he
    exact .inl he

theorem Leads.stateOf {c c' : Cache α ε} (h : c.Leads c') {entry : Nat}
    (hs : c.stateOf entry ≠ .compiling) : c'.stateOf entry = c.stateOf entry := by
  cases hx : c.outcome? entry with
  | none => simp [Cache.stateOf, hx] at hs
  | some x => rw [Cache.stateOf, Cache.stateOf, h.outcome entry x hx, hx]

theorem isSome_get? (c : Cache α ε) (id : String) :
    (c.get? id).isSome ↔ c.state? id = some .ready := by
  unfold get? state?
  cases c.entry? id with
  | none => simp
  | some entry =>
    simp only [Option.bind_some, Option.map_some, stateOf, Option.some.injEq]
    rcases c.outcome? entry with _ | (_ | _) <;> simp

theorem contains_iff {c : Cache α ε} {id : String} :
    c.contains id = true ↔ id ∈ c.index.map Prod.fst := by
  unfold contains
  rw [Option.isSome_iff_exists, List.mem_map]
  constructor
  · rintro ⟨entry, h⟩
    exact ⟨(id, entry), mem_of_entry? h, rfl⟩
  · rintro ⟨⟨x, entry⟩, h, rfl⟩
    cases hentry : c.entry? x with
    | none => exact absurd h <| not_mem_of_entry? hentry entry
    | some found => exact ⟨found, rfl⟩

end Cache

namespace CacheStage

variable {a b c : CacheStage α ε} {event : CacheEvent α ε} {log : CacheLog α ε} {entry : Nat}

/-! ## What a step and a run keep -/

theorem leads_resolve {s s₁ : CacheSession α ε} {target : CacheTarget}
    (h : target.resolve s = some (entry, s₁)) : s.1.Leads s₁.1 := by
  cases target with
  | byId id =>
    obtain ⟨rfl, rfl⟩ := Prod.mk.inj (Option.some.inj h)
    exact s.1.leads_handle id
  | byHandle n =>
    obtain ⟨found, -, heq⟩ := Option.map_eq_some_iff.1 h
    obtain ⟨rfl, rfl⟩ := Prod.mk.inj heq
    exact .refl _

theorem leads_query (q : CacheQuery) (s : CacheSession α ε) :
    s.1.Leads (q.request.run s).2.1 := by
  cases q with
  | handle id => exact s.1.leads_handle id
  | stateAt n =>
    simp only [CacheQuery.request, CacheRequest.run]
    split <;> exact .refl _
  | invalidate id => exact Cache.leads_of_subset List.filter_sublist.subset rfl
  | clear => exact Cache.leads_of_subset (List.nil_subset _) rfl
  | _ => exact .refl _

theorem Step.leads (h : Step a event b) : a.cache.Leads b.cache := by
  cases h with
  | query q s running => exact leads_query q s
  | hit running ht _ => exact leads_resolve ht
  | begin ht _ _ => exact leads_resolve ht
  | built entry x s running => exact s.1.leads_fulfil entry x
  | given running _ => exact .refl _

theorem Path.leads (h : Path a log b) : a.cache.Leads b.cache := by
  induction h with
  | nil => exact .refl _
  | cons hstep _ ih => exact hstep.leads.trans ih

/-- A moment of a run with the run up to it and the run from there. -/
theorem Path.split {before after : CacheLog α ε} {m : CacheMoment α ε}
    (h : Path a (before ++ m :: after) c) :
    ∃ b b', Path a before b ∧ Step b m.event b' ∧ b'.cache = m.cache ∧ Path b' after c := by
  obtain ⟨b, hbefore, hafter⟩ := path_append.1 h
  cases hafter with
  | cons hstep hrest => exact ⟨b, _, hbefore, hstep, rfl, hrest⟩

theorem Path.exists_moment (h : Path a log c) {m : CacheMoment α ε} (hm : m ∈ log) :
    ∃ before after b b', log = before ++ m :: after ∧ Path a before b ∧ Step b m.event b' ∧
      b'.cache = m.cache ∧ Path b' after c := by
  obtain ⟨before, after, rfl⟩ := List.append_of_mem hm
  obtain ⟨b, b', hsplit⟩ := h.split
  exact ⟨before, after, b, b', rfl, hsplit⟩

theorem Path.exists_step {event : CacheEvent α ε} (h : Path a log c)
    (hevent : event ∈ CacheLog.events log) :
    ∃ b b', (∃ before, Path a before b) ∧ Step b event b' ∧ ∃ after, Path b' after c := by
  obtain ⟨m, hm, rfl⟩ := List.mem_map.1 hevent
  obtain ⟨before, after, b, b', -, hbefore, hstep, -, hafter⟩ := h.exists_moment hm
  exact ⟨b, b', ⟨before, hbefore⟩, hstep, after, hafter⟩

/-! ## Builds that have begun -/

/-- The build of the entry runs or has ended. -/
def Begun (a : CacheStage α ε) (entry : Nat) : Prop :=
  entry ∈ a.running ∨ (a.cache.outcome? entry).isSome

theorem Orderly.lt_of_begun (ha : a.Orderly) (h : a.Begun entry) :
    entry < a.cache.outcomes.size := by
  rcases h with h | h
  · exact (ha.unfinished entry h).1
  · rcases Nat.lt_or_ge entry a.cache.outcomes.size with hlt | hge
    · exact hlt
    · simp [Cache.outcome?, Array.getElem?_eq_none hge] at h

theorem outcome?_resolve {s s₁ : CacheSession α ε} {target : CacheTarget} {e : Nat}
    (h : target.resolve s = some (entry, s₁)) : s₁.1.outcome? e = s.1.outcome? e := by
  cases target with
  | byId id =>
    obtain ⟨-, rfl⟩ := Prod.mk.inj (Option.some.inj h)
    exact s.1.outcome?_handle id e
  | byHandle n =>
    obtain ⟨found, -, heq⟩ := Option.map_eq_some_iff.1 h
    obtain ⟨-, rfl⟩ := Prod.mk.inj heq
    rfl

theorem handles_resolve {s s₁ : CacheSession α ε} {target : CacheTarget}
    (h : target.resolve s = some (entry, s₁)) : s₁.2 = s.2 := by
  cases target with
  | byId id =>
    obtain ⟨-, rfl⟩ := Prod.mk.inj (Option.some.inj h)
    rfl
  | byHandle n =>
    obtain ⟨found, -, heq⟩ := Option.map_eq_some_iff.1 h
    obtain ⟨-, rfl⟩ := Prod.mk.inj heq
    rfl

theorem outcome?_query (q : CacheQuery) (s : CacheSession α ε) (e : Nat) :
    (q.request.run s).2.1.outcome? e = s.1.outcome? e := by
  cases q with
  | handle id => exact s.1.outcome?_handle id e
  | stateAt n =>
    simp only [CacheQuery.request, CacheRequest.run]
    split <;> rfl
  | _ => rfl

/-- An entry is begun after a step just when it was before or its build begins in the step. -/
theorem Step.begun_iff (h : Step a event b) (ha : a.Orderly) :
    b.Begun entry ↔ a.Begun entry ∨ event.begins entry = true := by
  cases h with
  | query q s running => simp [Begun, CacheEvent.begins, cache, outcome?_query]
  | hit running ht _ => simp [Begun, CacheEvent.begins, cache, outcome?_resolve ht]
  | @begin target s s₁ e running ht _ _ =>
    simp only [Begun, CacheEvent.begins, cache, outcome?_resolve ht, List.mem_cons, Bool.true_and,
      beq_iff_eq]
    grind
  | built e x s running =>
    obtain ⟨hlt, hnone⟩ := ha.unfinished e List.mem_cons_self
    simp only [Begun, CacheEvent.begins, cache, Cache.outcome?_fulfil hlt hnone, List.mem_cons,
      Bool.false_eq_true, or_false]
    by_cases he : entry = e
    · simp [he]
    · simp [he]
  | given running _ => simp [Begun, CacheEvent.begins]

theorem Path.begun (h : Path a log b) (ha : a.Orderly) :
    b.Begun entry ↔ a.Begun entry ∨ ∃ event ∈ CacheLog.events log, event.begins entry = true := by
  induction h with
  | nil => simp [CacheLog.events]
  | cons hstep _ ih =>
    rw [ih (hstep.orderly ha), hstep.begun_iff ha]
    simp [CacheLog.events, or_assoc]

/-- The build of an entry begins only if it has not begun before. -/
theorem Step.not_begun (h : Step a event b) (hevent : event.begins entry = true) :
    ¬a.Begun entry := by
  cases h with
  | @begin target s s₁ e running ht hnone hnew =>
    obtain rfl : e = entry := by simpa [CacheEvent.begins] using hevent
    rw [outcome?_resolve ht] at hnone
    simp [Begun, hnew, hnone]
  | _ => simp [CacheEvent.begins] at hevent

/-- An entry that is begun is not built again. -/
theorem Path.countP_of_begun (h : Path a log b) (ha : a.Orderly) (hbegun : a.Begun entry) :
    (CacheLog.events log).countP (·.begins entry) = 0 := by
  induction h with
  | nil => rfl
  | @cons a b c event log hstep _ ih =>
    have hevent : event.begins entry = false :=
      Bool.eq_false_iff.2 fun hevent => hstep.not_begun hevent hbegun
    have hrest := ih (hstep.orderly ha) ((hstep.begun_iff ha).2 (.inl hbegun))
    simpa [CacheLog.events, List.countP_cons, hevent] using hrest

theorem Path.countP_le (h : Path a log b) (ha : a.Orderly) (entry : Nat) :
    (CacheLog.events log).countP (·.begins entry) ≤ 1 := by
  induction h with
  | nil => exact Nat.zero_le 1
  | @cons a b c event log hstep hrest ih =>
    have hb := hstep.orderly ha
    cases hevent : event.begins entry with
    | false => simpa [CacheLog.events, List.countP_cons, hevent] using ih hb
    | true =>
      have hcount := hrest.countP_of_begun hb ((hstep.begun_iff ha).2 (.inr hevent))
      simpa [CacheLog.events, List.countP_cons, hevent] using hcount

/-! ## Outcomes -/

/-- An outcome was there before, or it is that of a build that ends in the run. -/
theorem Path.outcome (h : Path a log b) (ha : a.Orderly) {x : Except ε α}
    (hx : b.cache.outcome? entry = some x) :
    a.cache.outcome? entry = some x ∨ .built entry x ∈ CacheLog.events log := by
  induction h with
  | nil => exact .inl hx
  | @cons a b c event log hstep _ ih =>
    rcases ih (hstep.orderly ha) hx with hb | hmem
    · cases hstep with
      | query q s running => exact .inl (by rwa [outcome?_query] at hb)
      | hit running ht _ => exact .inl (by rwa [outcome?_resolve ht] at hb)
      | begin ht _ _ => exact .inl (by rwa [outcome?_resolve ht] at hb)
      | built e y s running =>
        obtain ⟨hlt, hnone⟩ := ha.unfinished e List.mem_cons_self
        rw [Cache.outcome?_fulfil hlt hnone] at hb
        split at hb
        · rename_i he
          obtain rfl := Option.some.inj hb
          exact .inr (by simp [CacheLog.events, he])
        · exact .inl hb
      | given running _ => exact .inl hb
    · exact .inr (List.mem_cons_of_mem _ hmem)

/-- What a build gave is the outcome of the entry from then on. -/
theorem Path.outcome_of_built (h : Path a log b) (ha : a.Orderly) {x : Except ε α}
    (hx : .built entry x ∈ CacheLog.events log) : b.cache.outcome? entry = some x := by
  obtain ⟨c, c', ⟨before, hbefore⟩, hstep, after, hafter⟩ := h.exists_step hx
  have hc := hbefore.orderly ha
  refine hafter.leads.outcome entry x ?_
  cases hstep with
  | built e y s running =>
    obtain ⟨hlt, hnone⟩ := hc.unfinished entry List.mem_cons_self
    exact (Cache.outcome?_fulfil hlt hnone x entry).trans (if_pos rfl)

theorem Path.outcome_of_given (h : Path a log b) {x : Except ε α}
    (hx : .given entry x ∈ CacheLog.events log) : b.cache.outcome? entry = some x := by
  obtain ⟨c, c', -, hstep, after, hafter⟩ := h.exists_step hx
  refine hafter.leads.outcome entry x ?_
  cases hstep with
  | given running hs => exact hs

/-- Once an entry is ready or failed it stays so. -/
theorem Path.settled (h : Path a log b) :
    log.Pairwise fun m m' => ∀ entry, m.cache.stateOf entry ≠ .compiling →
      m'.cache.stateOf entry = m.cache.stateOf entry := by
  induction h with
  | nil => exact .nil
  | cons _ hrest ih =>
    refine .cons (fun m hm entry hs => ?_) ih
    obtain ⟨before, after, rfl⟩ := List.append_of_mem hm
    obtain ⟨c, c', hbefore, hstep, hcache, -⟩ := hrest.split
    rw [← hcache]
    exact (hbefore.leads.trans hstep.leads).stateOf hs

/-! ## Answers -/

/-- An answer is that of a cache in order. -/
theorem Path.answered (h : Path a log b) (ha : a.Orderly) {asked : Cache α ε} {q : CacheQuery}
    {answer : CacheAnswer α ε} (hq : .answered asked q answer ∈ CacheLog.events log) :
    ∃ handles running, Orderly ⟨(asked, handles), running⟩ ∧
      answer = (q.request.run (asked, handles)).1 := by
  obtain ⟨c, c', ⟨before, hbefore⟩, hstep, -⟩ := h.exists_step hq
  have hc := hbefore.orderly ha
  cases hstep with
  | query q s running => exact ⟨s.2, running, hc, rfl⟩

theorem Orderly.exists_ids {s : CacheSession α ε} {running : List Nat} (h : Orderly ⟨s, running⟩) :
    ∃ ids : List String, ids.Nodup ∧ (∀ id, id ∈ ids ↔ s.1.contains id = true) ∧
      s.1.size = ids.length :=
  ⟨s.1.index.map Prod.fst, h.ids, fun _ => Cache.contains_iff.symm, by simp [Cache.size]⟩

/-! ## Handles -/

theorem entry?_handle (c : Cache α ε) (id : String) :
    Cache.entry? (c.handle id).2 id = some (c.handle id).1.entry := by
  unfold Cache.handle
  cases hentry : c.entry? id with
  | some entry => exact hentry
  | none => simp [Cache.entry?]

theorem Step.has_entry {id : String} {own : Bool} (h : Step a (.asked (.byId id) entry own) b) :
    b.cache.entry? id = some entry := by
  have hresolve : ∀ {s s₁ : CacheSession α ε},
      (CacheTarget.byId id).resolve s = some (entry, s₁) → Cache.entry? s₁.1 id = some entry := by
    intro s s₁ ht
    obtain ⟨rfl, rfl⟩ := Prod.mk.inj (Option.some.inj ht)
    exact entry?_handle s.1 id
  cases h with
  | hit running ht _ => exact hresolve ht
  | begin ht _ _ => exact hresolve ht

theorem Step.exists_handle {n : Nat} {own : Bool} (h : Step a (.asked (.byHandle n) entry own) b) :
    ∃ id, a.session.2[n]? = some ⟨id, entry⟩ := by
  have hresolve : ∀ {s s₁ : CacheSession α ε},
      (CacheTarget.byHandle n).resolve s = some (entry, s₁) → ∃ id, s.2[n]? = some ⟨id, entry⟩ := by
    intro s s₁ ht
    obtain ⟨found, hfound, heq⟩ := Option.map_eq_some_iff.1 ht
    obtain ⟨rfl, -⟩ := Prod.mk.inj heq
    exact ⟨found.id, hfound⟩
  cases h with
  | hit running ht _ => exact hresolve ht
  | begin ht _ _ => exact hresolve ht

theorem Step.answered {asked : Cache α ε} {q : CacheQuery} {answer : CacheAnswer α ε}
    (h : Step a (.answered asked q answer) b) :
    answer = (q.request.run a.session).1 ∧ b.session = (q.request.run a.session).2 := by
  cases h with
  | query q s running => exact ⟨rfl, rfl⟩

theorem Step.stateAt {asked : Cache α ε} {n : Nat} {id : String} {state : EntryState}
    (h : Step a (.answered asked (.stateAt n) (.stateAt id state)) b) :
    ∃ entry, a.session.2[n]? = some ⟨id, entry⟩ ∧ state = b.cache.stateOf entry := by
  obtain ⟨hanswer, hsession⟩ := h.answered
  simp only [CacheQuery.request, CacheRequest.run] at hanswer hsession
  cases hn : a.session.2[n]? with
  | none => simp [hn] at hanswer
  | some found =>
    simp only [hn] at hanswer hsession
    injection hanswer with hid hstate
    refine ⟨found.entry, by rw [hid], ?_⟩
    rw [hstate, cache, hsession]

/-- A handle was there before, or it is taken in the step. -/
theorem Step.takes (h : Step a event b) {n : Nat} {found : Handle}
    (hn : b.session.2[n]? = some found) :
    a.session.2[n]? = some found ∨ CacheLog.Takes [⟨event, b.cache⟩] n found := by
  cases h with
  | query q s running =>
    cases q with
    | handle id =>
      have hpush : (s.2.push (s.1.handle id).1)[n]? = some found := hn
      rw [Array.getElem?_push] at hpush
      split at hpush
      · rename_i hsize
        obtain rfl := Option.some.inj hpush
        have hid : (s.1.handle id).1.id = id := by
          unfold Cache.handle
          split <;> rfl
        refine .inr ⟨_, List.mem_singleton.2 rfl, s.1, ?_, ?_⟩
        · rw [hid, hsize]
          rfl
        · rw [hid]
          exact entry?_handle s.1 id
      · exact .inl hpush
    | stateAt m =>
      simp only [CacheQuery.request, CacheRequest.run] at hn
      split at hn <;> exact .inl hn
    | _ => exact .inl hn
  | @hit target s s₁ e x running ht _ => exact .inl (by rwa [handles_resolve ht] at hn)
  | @begin target s s₁ e running ht _ _ => exact .inl (by rwa [handles_resolve ht] at hn)
  | built e x s running => exact .inl hn
  | given running _ => exact .inl hn

theorem Path.takes (h : Path a log b) {n : Nat} {found : Handle}
    (hn : b.session.2[n]? = some found) :
    a.session.2[n]? = some found ∨ CacheLog.Takes log n found := by
  induction h with
  | nil => exact .inl hn
  | cons hstep _ ih =>
    rcases ih hn with hb | ⟨m, hm, htakes⟩
    · rcases hstep.takes hb with ha | ⟨m, hm, htakes⟩
      · exact .inl ha
      · obtain rfl := List.mem_singleton.1 hm
        exact .inr ⟨_, List.mem_cons_self, htakes⟩
    · exact .inr ⟨m, List.mem_cons_of_mem _ hm, htakes⟩

/-! ## Forgotten ids -/

/-- If an id has no entry, whatever has an outcome by the time that the id has one was begun
since. -/
theorem Path.begun_of_fresh (h : Path a log b) (ha : a.Orderly) {id : String}
    (hfree : ∀ e, (id, e) ∉ a.cache.index) (hentry : (id, entry) ∈ b.cache.index)
    (hdone : (b.cache.outcome? entry).isSome) :
    ∃ event ∈ CacheLog.events log, event.begins entry = true := by
  rcases (h.begun ha).1 (.inr hdone) with hbefore | hbegins
  · -- the entry was there before, so it cannot be one that the id got since
    rcases h.leads.index id entry hentry with hold | hnew
    · exact absurd hold (hfree entry)
    · exact absurd (ha.lt_of_begun hbefore) (Nat.not_lt.2 hnew)
  · exact hbegins

/-- An entry stays that of one id. -/
theorem Path.id_eq (h : Path a log b) (ha : a.Orderly) {id id' : String}
    (hid : (id, entry) ∈ a.cache.index) (hid' : (id', entry) ∈ b.cache.index) : id = id' := by
  rcases h.leads.index id' entry hid' with hold | hnew
  · exact ha.sound.apart id id' entry hid hold
  · exact absurd (ha.sound.lt id entry hid) (Nat.not_lt.2 hnew)

/-- After an id is forgotten, the next request for it by id builds, unless a request through a handle
has built the entry. -/
theorem Path.rebuilds {d : CacheStage α ε} {id : String} {own : Bool} (h : Path a log b)
    (ha : a.Orderly) (hfree : ∀ e, (id, e) ∉ a.cache.index)
    (hstep : Step b (.asked (.byId id) entry own) d)
    (hnext : ∀ e o, .asked (.byId id) e o ∉ CacheLog.events log) :
    own = true ∨ ∃ n, .asked (.byHandle n) entry true ∈ CacheLog.events log := by
  have hb := h.orderly ha
  cases hstep with
  | begin => exact .inl rfl
  | @hit _ s s₁ _ x running ht hx =>
    rw [outcome?_resolve ht] at hx
    obtain ⟨rfl, rfl⟩ := Prod.mk.inj (Option.some.inj ht)
    have hentry : (id, (s.1.handle id).1.entry) ∈ s.1.index := by
      rcases Cache.mem_index_handle (s.1.mem_handle id) with hold | ⟨-, hnew, -⟩
      · exact hold
      · simp [Cache.outcome?, hnew] at hx
    obtain ⟨event, hevent, hbegins⟩ := h.begun_of_fresh ha hfree hentry (by rw [hx]; rfl)
    cases event with
    | asked target e o =>
      obtain ⟨rfl, rfl⟩ : o = true ∧ e = (s.1.handle id).1.entry := by
        simpa [CacheEvent.begins] using hbegins
      cases target with
      | byHandle n => exact .inr ⟨n, hevent⟩
      | byId id' =>
        obtain ⟨c, c', ⟨before, hbefore⟩, hasked, after, hafter⟩ := h.exists_step hevent
        have hid := hafter.id_eq (hasked.orderly (hbefore.orderly ha))
          (Cache.mem_of_entry? hasked.has_entry) hentry
        exact absurd (hid ▸ hevent) (hnext _ _)
    | _ => simp [CacheEvent.begins] at hbegins

/-- A handle was taken in the run before. -/
theorem Path.takes_of_start {a : CacheStage α ε} {log : CacheLog α ε} (h : Path start log a) {n : Nat}
    {found : Handle} (hn : a.session.2[n]? = some found) (after : CacheLog α ε) :
    CacheLog.Takes (log ++ after) n found := by
  rcases h.takes hn with hstart | ⟨m, hm, htakes⟩
  · simp [start] at hstart
  · exact ⟨m, List.mem_append_left _ hm, htakes⟩

end CacheStage

open CacheStage

/-- The log of every program that asks for no entry whose own build is running is as it should
be. -/
theorem CacheProgram.lawful_log {p : CacheProgram α ε} (hp : p.Allowed) : CacheLog.Lawful p.log where
  byId m hm id entry own hevent := by
    obtain ⟨-, -, b, b', -, -, hstep, hcache, -⟩ := hp.path.exists_moment hm
    rw [hevent] at hstep
    exact hcache ▸ hstep.has_entry
  byHandle n entry own hevent := by
    obtain ⟨m, hm, hm'⟩ := List.mem_map.1 hevent
    obtain ⟨before, after, b, b', hlog, hbefore, hstep, -, -⟩ := hp.path.exists_moment hm
    rw [hm'] at hstep
    obtain ⟨id, hid⟩ := hstep.exists_handle
    exact ⟨id, hlog ▸ hbefore.takes_of_start hid _⟩
  state m hm c id answer hevent := by
    obtain ⟨-, -, b, b', -, -, hstep, hcache, -⟩ := hp.path.exists_moment hm
    rw [hevent] at hstep
    obtain ⟨rfl, hsession⟩ := hstep.answered
    rw [← hcache, cache, hsession]
    rfl
  stateAt m hm c n id state hevent := by
    obtain ⟨before, after, b, b', hlog, hbefore, hstep, hcache, -⟩ := hp.path.exists_moment hm
    rw [hevent] at hstep
    obtain ⟨entry, hn, rfl⟩ := hstep.stateAt
    exact ⟨entry, hlog ▸ hbefore.takes_of_start hn _, by rw [hcache]⟩
  once entry := hp.path.countP_le orderly_start entry
  given entry x hx := by
    have hgiven := hp.path.outcome_of_given hx
    refine ⟨?_, fun y hy => ?_⟩
    · rcases hp.path.outcome orderly_start hgiven with hold | hbuilt
      · simp [start, Cache.empty, Cache.outcome?] at hold
      · exact hbuilt
    · have hbuilt := hp.path.outcome_of_built orderly_start hy
      exact Option.some.inj (hbuilt.symm.trans hgiven)
  settled := hp.path.settled
  get c id answer hanswer := by
    obtain ⟨handles, running, -, rfl⟩ := hp.path.answered orderly_start hanswer
    exact ⟨c.get? id, rfl, c.isSome_get? id⟩
  invalidate c id answer hanswer := by
    obtain ⟨handles, running, -, rfl⟩ := hp.path.answered orderly_start hanswer
    rfl
  rebuilds before between after c id answer entry own cache cache' hlog hnext := by
    have hpath := hp.path
    rw [hlog] at hpath
    obtain ⟨a, a', hbefore, hinvalidate, -, hrest⟩ := hpath.split
    obtain ⟨b, b', hbetween, hasked, -, -⟩ := hrest.split
    have ha := hbefore.orderly orderly_start
    refine hbetween.rebuilds (hinvalidate.orderly ha) ?_ hasked hnext
    cases hinvalidate with
    | query q s running => simp [CacheQuery.request, CacheRequest.run, Cache.invalidate]
  size c answer hanswer := by
    obtain ⟨handles, running, horderly, rfl⟩ := hp.path.answered orderly_start hanswer
    obtain ⟨ids, hids, hmem, hsize⟩ := horderly.exists_ids
    exact ⟨ids, hids, hmem, congrArg CacheAnswer.size hsize⟩

namespace CacheProgram

/-- A build that forgets its own id and builds it anew before it ends. -/
def nested : CacheProgram String String :=
  .fetch (.byId "t")
    (.query (.invalidate "t") fun _ =>
      .fetch (.byId "t") (.done (.ok "inner")) fun _ => .done (.ok "outer"))
    fun _ => .fetch (.byId "t") (.done (.error "idle")) fun _ => .done (.ok "")

theorem allowed_nested : nested.Allowed := by
  refine ⟨fun entry s₁ h => ⟨List.not_mem_nil, fun _ => ?_⟩, ?_⟩
  · obtain ⟨rfl, rfl⟩ := Prod.mk.inj (Option.some.inj h)
    refine ⟨fun entry s₂ h' => ?_, trivial⟩
    obtain ⟨rfl, rfl⟩ := Prod.mk.inj (Option.some.inj h')
    exact ⟨by decide, fun _ => trivial⟩
  · exact ⟨fun _ _ _ => ⟨List.not_mem_nil, fun _ => trivial⟩, trivial⟩

theorem lawful_log_nested : nested.Allowed ∧ CacheLog.Lawful nested.log :=
  ⟨allowed_nested, lawful_log allowed_nested⟩

/-- An id is built, forgotten, built again through a handle and then asked for. -/
def handled : CacheProgram String String :=
  .fetch (.byId "t") (.done (.ok "old")) fun _ => .query (.invalidate "t") fun _ =>
    .query (.handle "t") fun _ => .fetch (.byHandle 0) (.done (.ok "new")) fun _ =>
      .fetch (.byId "t") (.done (.ok "idle")) fun _ => .done (.ok "")

/-- The request by id finds what was built through the handle, so its own build does not run. -/
theorem not_rebuilds_handled : handled.Allowed ∧ ¬CacheLog.Rebuilds handled.log := by
  constructor
  · exact ⟨fun _ _ _ => ⟨List.not_mem_nil, fun _ => trivial⟩,
      ⟨fun _ _ _ => ⟨List.not_mem_nil, fun _ => trivial⟩,
        ⟨fun _ _ _ => ⟨List.not_mem_nil, fun _ => trivial⟩, trivial⟩⟩⟩
  · intro h
    have hlog : handled.log = handled.log.take 3 ++ ⟨.answered _ (.invalidate "t") _, _⟩ ::
        ((handled.log.drop 4).take 4 ++ ⟨.asked (.byId "t") 1 false, _⟩ :: handled.log.drop 9) := rfl
    have hown := h _ _ _ _ _ _ _ _ _ _ hlog ?_
    · cases hown
    · intro e o hmem
      have hbetween : CacheLog.events ((handled.log.drop 4).take 4) = [.answered _ (.handle "t") _,
          .asked (.byHandle 0) 1 true, .built 1 _, .given 1 _] := rfl
      rw [hbetween] at hmem
      simp at hmem

end CacheProgram

end TypedTemplate
