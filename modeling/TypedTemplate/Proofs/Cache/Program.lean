-- SUMMARY: Programs of cache operations, what happens in a run of one, and the runs as steps of a machine.
import TypedTemplate.Cache.Session
import TypedTemplate.Proofs.Cache.Entry

/-!
# Cache programs

A program asks a cache this and that, one thing after the other, and goes on as the
answers have it. A build is a program as well, so it may use the cache that it
builds for. A run leaves a log of all that happened, builds included.

A run can also be looked at as a machine that takes one step for each moment of the
log. It keeps a stack of the entries whose builds are running. That is the form in
which something is proved of all runs: of one step, and then of all.
-/

namespace TypedTemplate

variable {α ε : Type}

/-- A request that runs no build. -/
inductive CacheQuery where
  | handle (id : String)
  | stateAt (handle : Nat)
  | state (id : String)
  | get (id : String)
  | contains (id : String)
  | invalidate (id : String)
  | clear
  | size

def CacheQuery.request : CacheQuery → CacheRequest α ε
  | .handle id     => .handle id
  | .stateAt n     => .stateAt n
  | .state id      => .state id
  | .get id        => .get id
  | .contains id   => .contains id
  | .invalidate id => .invalidate id
  | .clear         => .clear
  | .size          => .size

/-- Whose outcome is asked for: that of an id, or of the entry behind a handle. -/
inductive CacheTarget where
  | byId (id : String)
  | byHandle (number : Nat)

/-- The entry meant, unless there is no such handle. -/
def CacheTarget.resolve (s : CacheSession α ε) : CacheTarget → Option (Nat × CacheSession α ε)
  | .byId id    => some ((s.1.handle id).1.entry, (s.1.handle id).2, s.2)
  | .byHandle n => s.2[n]?.map fun h => (h.entry, s)

inductive CacheEvent (α ε : Type) where
  /-- The cache `asked` gave an answer. -/
  | answered (asked : Cache α ε) (query : CacheQuery) (answer : CacheAnswer α ε)
  /-- The outcome of an entry is asked for. If `own`, the build that comes with the request begins. -/
  | asked (target : CacheTarget) (entry : Nat) (own : Bool)
  /-- The build of an entry ends. -/
  | built (entry : Nat) (outcome : Except ε α)
  /-- A request for the outcome of an entry returns. -/
  | given (entry : Nat) (result : Except ε α)

structure CacheMoment (α ε : Type) where
  event : CacheEvent α ε
  /-- The cache right after the event. -/
  cache : Cache α ε

/-- All that happened, in order. -/
abbrev CacheLog (α ε : Type) : Type := List (CacheMoment α ε)

/-- A program of cache operations. What it does next may depend on what the operation before
logged. -/
inductive CacheProgram (α ε : Type) where
  /-- The end. The outcome is that of a build; elsewhere it is no matter. -/
  | done (outcome : Except ε α)
  | query (q : CacheQuery) (next : CacheLog α ε → CacheProgram α ε)
  /-- Ask for an outcome, with a build for the case that there is none. -/
  | fetch (target : CacheTarget) (build : CacheProgram α ε) (next : CacheLog α ε → CacheProgram α ε)

/-- An outcome with what happened until it was there. -/
abbrev CacheRun (α ε : Type) : Type := Except ε α × CacheLog α ε

namespace CacheTarget

/-- Ask for an outcome. A handle that was never taken does nothing. -/
def fetch (target : CacheTarget) (build : CacheSession α ε → CacheRun α ε × CacheSession α ε)
    (s : CacheSession α ε) : CacheLog α ε × CacheSession α ε :=
  match target.resolve s with
  | none             => ([], s)
  | some (entry, s₁) =>
    let fetched := Cache.getOrBuild entry (fun s => (((build s).1.1, (build s).1), (build s).2)) s₁
    let during : CacheLog α ε :=
      match fetched.1.2 with
      | none   => []
      | some r => r.2 ++ [⟨.built entry r.1, fetched.2.1⟩]
    (⟨.asked target entry fetched.1.2.isSome, s₁.1⟩ ::
      (during ++ [⟨.given entry fetched.1.1, fetched.2.1⟩]), fetched.2)

end CacheTarget

namespace CacheProgram

def run : CacheProgram α ε → CacheSession α ε → CacheRun α ε × CacheSession α ε
  | .done outcome, s => ((outcome, []), s)
  | .query q next, s =>
    let answered := q.request.run s
    let moment : CacheMoment α ε := ⟨.answered s.1 q answered.1, answered.2.1⟩
    let rest := (next [moment]).run answered.2
    ((rest.1.1, moment :: rest.1.2), rest.2)
  | .fetch target build next, s =>
    let fetched := target.fetch build.run s
    let rest := (next fetched.1).run fetched.2
    ((rest.1.1, fetched.1 ++ rest.1.2), rest.2)

/-- While the builds of the entries `running` run, the program asks for no entry whose own build is
still running. -/
def Legal : CacheProgram α ε → List Nat → CacheSession α ε → Prop
  | .done _, _, _ => True
  | .query q next, running, s =>
    let answered := q.request.run s
    (next [⟨.answered s.1 q answered.1, answered.2.1⟩]).Legal running answered.2
  | .fetch target build next, running, s =>
    let fetched := target.fetch build.run s
    (∀ entry s₁, target.resolve s = some (entry, s₁) →
      entry ∉ running ∧ (s₁.1.outcome? entry = none → build.Legal (entry :: running) s₁)) ∧
    (next fetched.1).Legal running fetched.2

/-- The log of a run from an empty cache. -/
def log (p : CacheProgram α ε) : CacheLog α ε := (p.run (.empty, #[])).1.2

/-- Run from an empty cache, the program asks for no entry whose own build is still running. -/
def Allowed (p : CacheProgram α ε) : Prop := p.Legal [] (.empty, #[])

end CacheProgram

/-! ## The machine -/

/-- A session and the entries whose builds are running, the innermost first. -/
structure CacheStage (α ε : Type) where
  session : CacheSession α ε
  running : List Nat

namespace CacheStage

abbrev cache (a : CacheStage α ε) : Cache α ε := a.session.1

/-- The machine at the start. -/
def start : CacheStage α ε := ⟨(.empty, #[]), []⟩

/-- One event. -/
inductive Step : CacheStage α ε → CacheEvent α ε → CacheStage α ε → Prop
  | query (q : CacheQuery) (s : CacheSession α ε) (running : List Nat) :
      Step ⟨s, running⟩ (.answered s.1 q (q.request.run s).1) ⟨(q.request.run s).2, running⟩
  | hit {target : CacheTarget} {s s₁ : CacheSession α ε} {entry : Nat} {x : Except ε α}
      (running : List Nat) : target.resolve s = some (entry, s₁) → s₁.1.outcome? entry = some x →
      Step ⟨s, running⟩ (.asked target entry false) ⟨s₁, running⟩
  | begin {target : CacheTarget} {s s₁ : CacheSession α ε} {entry : Nat} {running : List Nat} :
      target.resolve s = some (entry, s₁) → s₁.1.outcome? entry = none → entry ∉ running →
      Step ⟨s, running⟩ (.asked target entry true) ⟨s₁, entry :: running⟩
  | built (entry : Nat) (x : Except ε α) (s : CacheSession α ε) (running : List Nat) :
      Step ⟨s, entry :: running⟩ (.built entry x) ⟨(s.1.fulfil entry x, s.2), running⟩
  | given {entry : Nat} {x : Except ε α} {s : CacheSession α ε} (running : List Nat) :
      s.1.outcome? entry = some x → Step ⟨s, running⟩ (.given entry x) ⟨s, running⟩

/-- The events of a log, one after the other. -/
inductive Path : CacheStage α ε → CacheLog α ε → CacheStage α ε → Prop
  | nil (a : CacheStage α ε) : Path a [] a
  | cons {a b c : CacheStage α ε} {event : CacheEvent α ε} {log : CacheLog α ε} :
      Step a event b → Path b log c → Path a (⟨event, b.cache⟩ :: log) c

theorem Path.single {a b : CacheStage α ε} {event : CacheEvent α ε} (h : Step a event b) :
    Path a [⟨event, b.cache⟩] b := .cons h (.nil b)

theorem Path.append {a b c : CacheStage α ε} {log log' : CacheLog α ε} (h : Path a log b)
    (h' : Path b log' c) : Path a (log ++ log') c := by
  induction h with
  | nil => exact h'
  | cons hstep _ ih => exact .cons hstep (ih h')

theorem path_append {a c : CacheStage α ε} {log log' : CacheLog α ε} :
    Path a (log ++ log') c ↔ ∃ b, Path a log b ∧ Path b log' c := by
  constructor
  · intro h
    induction log generalizing a with
    | nil => exact ⟨a, .nil a, h⟩
    | cons m log ih =>
      cases h with
      | cons hstep hrest =>
        obtain ⟨b, hlog, hlog'⟩ := ih hrest
        exact ⟨b, .cons hstep hlog, hlog'⟩
  · rintro ⟨b, h, h'⟩
    exact h.append h'

/-! ## Order -/

/-- The cache is sound, ids and running builds are distinct, handles have entries, and no entry has
an outcome while its build is running. -/
structure Orderly (a : CacheStage α ε) : Prop where
  sound : a.cache.Sound
  ids : (a.cache.index.map Prod.fst).Nodup
  handles : ∀ h ∈ a.session.2, h.entry < a.cache.outcomes.size
  nested : a.running.Nodup
  unfinished : ∀ entry ∈ a.running,
    entry < a.cache.outcomes.size ∧ a.cache.outcome? entry = none

theorem orderly_start : (start : CacheStage α ε).Orderly := by
  refine ⟨⟨?_, ?_⟩, ?_, ?_, List.nodup_nil, ?_⟩ <;> simp [start, Cache.empty]

variable {s s₁ : CacheSession α ε} {running : List Nat} {entry : Nat}

theorem Orderly.handle (h : Orderly ⟨s, running⟩) (id : String) :
    Orderly ⟨((s.1.handle id).2, s.2), running⟩ := by
  have hsize := s.1.size_outcomes_handle id
  refine ⟨h.sound.handle id, ?_, fun h' hh' => Nat.lt_of_lt_of_le (h.handles h' hh') hsize, h.nested,
    fun e he => ?_⟩
  · have hids := h.ids
    simp only [cache] at hids ⊢
    cases hentry : Cache.entry? s.1 id with
    | some found => simpa [Cache.handle, hentry] using hids
    | none =>
      simp only [Cache.handle, hentry, List.map_cons, List.nodup_cons, List.mem_map, not_exists,
        not_and]
      refine ⟨?_, hids⟩
      rintro ⟨_, e⟩ hmem rfl
      exact Cache.not_mem_of_entry? hentry e hmem
  · obtain ⟨hlt, hnone⟩ := h.unfinished e he
    exact ⟨Nat.lt_of_lt_of_le hlt hsize, (s.1.outcome?_handle id e).trans hnone⟩

/-- A handle has an entry of the cache. -/
theorem Orderly.lt_handle (h : Orderly ⟨s, running⟩) (id : String) :
    (s.1.handle id).1.entry < (s.1.handle id).2.outcomes.size :=
  (h.handle id).sound.lt id _ (s.1.mem_handle id)

theorem Orderly.of_sublist {c : Cache α ε} (h : Orderly ⟨s, running⟩)
    (hindex : c.index.Sublist s.1.index) (houtcomes : c.outcomes = s.1.outcomes) :
    Orderly ⟨(c, s.2), running⟩ := by
  refine ⟨h.sound.of_subset hindex.subset houtcomes, h.ids.sublist (hindex.map _), ?_, h.nested, ?_⟩
  · simpa [cache, houtcomes] using h.handles
  · simpa [cache, Cache.outcome?, houtcomes] using h.unfinished

theorem Orderly.query (h : Orderly ⟨s, running⟩) (q : CacheQuery) :
    Orderly ⟨(q.request.run s).2, running⟩ := by
  cases q with
  | handle id =>
    have hhandle := h.handle id
    refine ⟨hhandle.sound, hhandle.ids, fun h' hh' => ?_, hhandle.nested, hhandle.unfinished⟩
    rcases Array.mem_push.1 hh' with hh' | rfl
    · exact hhandle.handles h' hh'
    · exact h.lt_handle id
  | stateAt n =>
    simp only [CacheQuery.request, CacheRequest.run]
    split <;> exact h
  | invalidate id => exact h.of_sublist List.filter_sublist rfl
  | clear => exact h.of_sublist (List.nil_sublist _) rfl
  | _ => exact h

theorem Orderly.resolve (h : Orderly ⟨s, running⟩) {target : CacheTarget}
    (ht : target.resolve s = some (entry, s₁)) :
    Orderly ⟨s₁, running⟩ ∧ entry < s₁.1.outcomes.size := by
  cases target with
  | byId id =>
    obtain ⟨rfl, rfl⟩ := Prod.mk.inj (Option.some.inj ht)
    exact ⟨h.handle id, h.lt_handle id⟩
  | byHandle n =>
    obtain ⟨found, hfound, heq⟩ := Option.map_eq_some_iff.1 ht
    obtain ⟨rfl, rfl⟩ := Prod.mk.inj heq
    exact ⟨h, h.handles found (Array.mem_of_getElem? hfound)⟩

theorem Orderly.begin (h : Orderly ⟨s, running⟩) (hlt : entry < s.1.outcomes.size)
    (hnone : s.1.outcome? entry = none) (hnew : entry ∉ running) :
    Orderly ⟨s, entry :: running⟩ :=
  ⟨h.sound, h.ids, h.handles, List.nodup_cons.2 ⟨hnew, h.nested⟩,
    List.forall_mem_cons.2 ⟨⟨hlt, hnone⟩, h.unfinished⟩⟩

theorem Orderly.built (h : Orderly ⟨s, entry :: running⟩) (x : Except ε α) :
    Orderly ⟨(s.1.fulfil entry x, s.2), running⟩ := by
  obtain ⟨hnew, hnested⟩ := List.nodup_cons.1 h.nested
  obtain ⟨⟨hlt, hnone⟩, hrunning⟩ := List.forall_mem_cons.1 h.unfinished
  refine ⟨h.sound.fulfil entry x, ?_, ?_, hnested, fun e he => ?_⟩
  · simpa [cache, Cache.index_fulfil] using h.ids
  · simpa [cache, Cache.size_outcomes_fulfil] using h.handles
  · have hne : e ≠ entry := by
      rintro rfl
      exact hnew he
    simpa [cache, Cache.size_outcomes_fulfil, Cache.outcome?_fulfil hlt hnone, hne]
      using hrunning e he

theorem Step.orderly {a b : CacheStage α ε} {event : CacheEvent α ε} (h : Step a event b)
    (ha : a.Orderly) : b.Orderly := by
  cases h with
  | query q s running => exact ha.query q
  | hit running ht _ => exact (ha.resolve ht).1
  | begin ht hnone hnew =>
    obtain ⟨hs, hlt⟩ := ha.resolve ht
    exact hs.begin hlt hnone hnew
  | built entry x s running => exact ha.built x
  | given running _ => exact ha

theorem Path.orderly {a b : CacheStage α ε} {log : CacheLog α ε} (h : Path a log b)
    (ha : a.Orderly) : b.Orderly := by
  induction h with
  | nil => exact ha
  | cons hstep _ ih => exact ih (hstep.orderly ha)

end CacheStage

/-! ## Programs as paths -/

open CacheStage

/-- Asking for an outcome is a path, if the build is one. -/
theorem CacheTarget.path_fetch {target : CacheTarget} {s : CacheSession α ε} {running : List Nat}
    {build : CacheSession α ε → CacheRun α ε × CacheSession α ε} (hs : Orderly ⟨s, running⟩)
    (hlegal : ∀ entry s₁, target.resolve s = some (entry, s₁) → entry ∉ running)
    (hbuild : ∀ entry s₁, target.resolve s = some (entry, s₁) → s₁.1.outcome? entry = none →
      Path ⟨s₁, entry :: running⟩ (build s₁).1.2 ⟨(build s₁).2, entry :: running⟩) :
    Path ⟨s, running⟩ (target.fetch build s).1 ⟨(target.fetch build s).2, running⟩ := by
  unfold fetch
  cases ht : target.resolve s with
  | none => exact .nil _
  | some found =>
    obtain ⟨entry, c, handles⟩ := found
    obtain ⟨hs₁, hlt⟩ := hs.resolve ht
    cases hold : c.outcome? entry with
    | some x =>
      simp only [Cache.getOrBuild, hold]
      exact .cons (.hit running ht hold) (.single (.given running hold))
    | none =>
      have hpath := hbuild entry _ ht hold
      have hbegin : Step ⟨s, running⟩ (.asked target entry true) ⟨(c, handles), entry :: running⟩ :=
        .begin ht hold (hlegal entry _ ht)
      have hend := hpath.orderly (hbegin.orderly hs)
      simp only [Cache.getOrBuild, hold]
      generalize build (c, handles) = built at hpath hend
      obtain ⟨⟨x, log⟩, c', handles'⟩ := built
      obtain ⟨hlt', hnone⟩ := hend.unfinished entry List.mem_cons_self
      have hgiven : (c'.fulfil entry x).outcome? entry = some x := by
        rw [Cache.outcome?_fulfil hlt' hnone, if_pos rfl]
      refine .cons hbegin ?_
      simp only [hgiven, Option.getD_some]
      exact (hpath.append (.single (.built entry x _ running))).append
        (.single (.given running hgiven))

/-- A run of a program is a path, which ends with the builds running that ran at its start. -/
theorem CacheProgram.path_run (p : CacheProgram α ε) {running : List Nat} {s : CacheSession α ε}
    (hs : Orderly ⟨s, running⟩) (hp : p.Legal running s) :
    Path ⟨s, running⟩ (p.run s).1.2 ⟨(p.run s).2, running⟩ := by
  induction p generalizing running s with
  | done x => exact .nil _
  | query q next ih =>
    have hstep : Step ⟨s, running⟩ _ _ := .query q s running
    exact .cons hstep (ih _ (hstep.orderly hs) hp)
  | fetch target build next ihbuild ihnext =>
    obtain ⟨hlegal, hnext⟩ := hp
    have hpath : Path ⟨s, running⟩ (target.fetch build.run s).1
        ⟨(target.fetch build.run s).2, running⟩ := by
      refine CacheTarget.path_fetch hs (fun entry s₁ ht => (hlegal entry s₁ ht).1) ?_
      intro entry s₁ ht hnone
      obtain ⟨hs₁, hlt⟩ := hs.resolve ht
      obtain ⟨hnew, hlegal⟩ := hlegal entry s₁ ht
      exact ihbuild (hs₁.begin hlt hnone hnew) (hlegal hnone)
    exact hpath.append (ihnext _ (hpath.orderly hs) hnext)

theorem CacheProgram.Allowed.path {p : CacheProgram α ε} (hp : p.Allowed) :
    Path start p.log ⟨(p.run (.empty, #[])).2, []⟩ := p.path_run orderly_start hp

end TypedTemplate
