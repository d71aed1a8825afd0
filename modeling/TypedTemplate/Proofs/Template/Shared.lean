-- SUMMARY: Engines that share a cache render what the first render of an id since its drop compiles.
import Mathlib.Data.List.Induction
import Mathlib.Logic.Function.Basic
import TypedTemplate.Proofs.Cache.Kept
import TypedTemplate.Proofs.Template.Session

/-!
# Shared caches

Any number of engines share a cache, and each reads a store, its own or one that others
read too. Between two requests the cache is a map from ids to what was compiled for them.
The main result says what that is: a render gives what the first render of its id since
the id was dropped would compile without any cache.
-/

namespace TypedTemplate

/-- A render of a model, whose type has the given shape, by one of the engines. -/
structure RenderCall (κ : Type) where
  engine : Engine
  /-- The store that the engine reads. -/
  source : κ
  id : String
  shape : Shape
  model : Instance
  extra : List String

/-- What can be asked of the engines, of their stores and of the cache that they share. -/
inductive SharedRequest (κ : Type) where
  | render (call : RenderCall κ)
  | insert (source : κ) (id text : String)
  | remove (source : κ) (id : String)
  | invalidate (id : String)
  | clear

/-- The stores by name. -/
abbrev Stores (κ : Type) := κ → TemplateStore

/-- The cache and the stores. -/
abbrev SharedState (κ : Type) := TemplateCache × Stores κ

variable {κ : Type} {catalog : Catalog} {stores : Stores κ} {call first first' : RenderCall κ}
  {q : SharedRequest κ} {history before before' after after' : List (SharedRequest κ)}
  {s : SharedState κ} {id : String} {x : Except RenderError Artifact}

/-- What the call compiles, without a cache, when the stores are as given. -/
def RenderCall.build (catalog : Catalog) (c : RenderCall κ) (stores : Stores κ) :
    Except RenderError Artifact :=
  (c.engine.build catalog c.id c.shape c.extra (stores c.source)).1

/-- The text or the error that the call gives. -/
def RenderCall.run [DecidableEq κ] (catalog : Catalog) (c : RenderCall κ) (s : SharedState κ) :
    Rendered × SharedState κ :=
  let (answer, cache, store) := c.engine.render catalog c.id c.shape c.model c.extra s.1 (s.2 c.source)
  (answer, cache, Function.update s.2 c.source store)

namespace SharedRequest

/-- The answer to a request, which only a render has. -/
def run [DecidableEq κ] (catalog : Catalog) :
    SharedRequest κ → SharedState κ → Option Rendered × SharedState κ
  | .render c, s =>
    let (answer, s) := c.run catalog s
    (some answer, s)
  | .insert k id text, (cache, stores) =>
    (none, cache, Function.update stores k ((stores k).insert id text))
  | .remove k id, (cache, stores) =>
    (none, cache, Function.update stores k ((stores k).remove id).2)
  | .invalidate id, (cache, stores) => (none, (cache.invalidate id).2, stores)
  | .clear, (cache, stores)         => (none, cache.clear, stores)

/-- The answers to requests made one after the other. -/
def runAll [DecidableEq κ] (catalog : Catalog) :
    List (SharedRequest κ) → SharedState κ → List (Option Rendered) × SharedState κ
  | [], s      => ([], s)
  | q :: qs, s =>
    let (answer, s) := q.run catalog s
    let (answers, s) := runAll catalog qs s
    (answer :: answers, s)

/-- What the request makes of the stores if nothing is rendered. -/
def edit [DecidableEq κ] : SharedRequest κ → Stores κ → Stores κ
  | .insert k id text, stores => Function.update stores k ((stores k).insert id text)
  | .remove k id, stores      => Function.update stores k ((stores k).remove id).2
  | _, stores                 => stores

/-- The stores with the texts that the requests leave there. -/
def edited [DecidableEq κ] (qs : List (SharedRequest κ)) (stores : Stores κ) : Stores κ :=
  qs.foldl (fun stores q => q.edit stores) stores

/-- The request drops what is cached for the id. -/
def Drops (id : String) : SharedRequest κ → Prop
  | .invalidate id' => id' = id
  | .clear          => True
  | _               => False

/-- Every render of the id in the history was dropped later. -/
def Fresh (id : String) (history : List (SharedRequest κ)) : Prop :=
  ∀ older call newer, history = older ++ .render call :: newer → call.id = id →
    ∃ q ∈ newer, q.Drops id

/-- In the history the call `first`, made between `before` and `after`, is the first render of the
id since the id was dropped. -/
structure FirstRender (history : List (SharedRequest κ)) (id : String)
    (before : List (SharedRequest κ)) (first : RenderCall κ) (after : List (SharedRequest κ)) :
    Prop where
  split : history = before ++ .render first :: after
  id_eq : first.id = id
  fresh : Fresh id before
  kept : ∀ q ∈ after, ¬ q.Drops id

/-! ## Histories -/

theorem not_drops_render (id : String) (call : RenderCall κ) : ¬ (render call).Drops id :=
  fun hdrops => hdrops

theorem split_concat {older newer : List (SharedRequest κ)} {r : SharedRequest κ}
    (h : history ++ [q] = older ++ r :: newer) :
    (older = history ∧ r = q ∧ newer = []) ∨
      ∃ newer', newer = newer' ++ [q] ∧ history = older ++ r :: newer' := by
  rcases List.eq_nil_or_concat newer with rfl | ⟨newer', last, rfl⟩
  · obtain ⟨hhistory, hlast⟩ := List.append_inj' h rfl
    exact .inl ⟨hhistory.symm, (List.singleton_inj.1 hlast).symm, rfl⟩
  · have hsplit : history ++ [q] = (older ++ r :: newer') ++ [last] := by simpa using h
    obtain ⟨hhistory, hlast⟩ := List.append_inj' hsplit rfl
    obtain rfl := List.singleton_inj.1 hlast
    exact .inr ⟨newer', by simp, hhistory⟩

theorem fresh_nil (id : String) : Fresh id ([] : List (SharedRequest κ)) := by
  intro older call newer h
  simp at h

/-- A request that drops the id drops every render of it. -/
theorem fresh_of_drops (h : q.Drops id) : Fresh id (history ++ [q]) := by
  intro older call newer hsplit _
  rcases split_concat hsplit with ⟨-, rfl, -⟩ | ⟨newer', rfl, -⟩
  · exact h.elim
  · exact ⟨q, by simp, h⟩

/-- Without a render of the id, the renders of it stay dropped. -/
theorem Fresh.concat (h : Fresh id history) (hq : ∀ call, q = .render call → call.id ≠ id) :
    Fresh id (history ++ [q]) := by
  intro older call newer hsplit hid
  rcases split_concat hsplit with ⟨-, hcall, -⟩ | ⟨newer', rfl, hhistory⟩
  · exact absurd hid (hq call hcall.symm)
  · obtain ⟨r, hr, hdrops⟩ := h older call newer' hhistory hid
    exact ⟨r, List.mem_append_left _ hr, hdrops⟩

/-- The first render stays the first one until the id is dropped. -/
theorem FirstRender.concat (h : FirstRender history id before first after) (hq : ¬ q.Drops id) :
    FirstRender (history ++ [q]) id before first (after ++ [q]) := by
  refine ⟨by simp [h.split], h.id_eq, h.fresh, ?_⟩
  intro r hr
  rcases List.mem_append.1 hr with hr | hr
  · exact h.kept r hr
  · obtain rfl := List.mem_singleton.1 hr
    exact hq

/-- A render of an id all of whose renders were dropped is the first one. -/
theorem Fresh.firstRender (h : Fresh call.id history) :
    FirstRender (history ++ [.render call]) call.id history call [] :=
  ⟨rfl, rfl, h, fun _ hq => absurd hq List.not_mem_nil⟩

/-- No other render of the id comes first. -/
theorem FirstRender.length_le (h : FirstRender history id before first after)
    (h' : FirstRender history id before' first' after') : before'.length ≤ before.length := by
  by_contra hlt
  rcases List.append_eq_append_iff.1 (h.split.symm.trans h'.split) with
    ⟨between, hbefore, hafter⟩ | ⟨between, hbefore, -⟩
  · cases between with
    | nil => simp [hbefore] at hlt
    | cons r between =>
      rw [List.cons_append, List.cons.injEq] at hafter
      obtain ⟨rfl, rfl⟩ := hafter
      obtain ⟨q, hq, hdrops⟩ := h'.fresh before first between hbefore h.id_eq
      exact h.kept q (List.mem_append_left _ hq) hdrops
  · simp [hbefore] at hlt

/-- A history has at most one first render of an id. -/
theorem FirstRender.unique (h : FirstRender history id before first after)
    (h' : FirstRender history id before' first' after') :
    before = before' ∧ first = first' ∧ after = after' := by
  have hlength := Nat.le_antisymm (h'.length_le h) (h.length_le h')
  obtain ⟨hbefore, hrest⟩ := List.append_inj (h.split.symm.trans h'.split) hlength
  obtain ⟨hfirst, hafter⟩ := List.cons.inj hrest
  exact ⟨hbefore, SharedRequest.render.inj hfirst, hafter⟩

end SharedRequest

/-! ## Renders -/

theorem Engine.build_snd (e : Engine) (id : String) (shape : Shape) (extra : List String)
    (store : TemplateStore) : (e.build catalog id shape extra store).2 = (store.fetch id).2 := by
  unfold Engine.build TemplateStore.fetch
  cases store.text? id <;> rfl

/-- What a call compiles depends on the texts in its store only. -/
theorem RenderCall.build_congr {stores' : Stores κ}
    (h : (stores call.source).templates = (stores' call.source).templates) :
    call.build catalog stores = call.build catalog stores' := by
  have htext : (stores call.source).text? call.id = (stores' call.source).text? call.id := by
    rw [TemplateStore.text?, h, TemplateStore.text?]
  unfold RenderCall.build Engine.build TemplateStore.fetch
  rw [htext]
  cases (stores' call.source).text? call.id <;> rfl

variable [DecidableEq κ]

variable (catalog) in
/-- A render of an id with an outcome calls what is cached. It builds nothing and changes nothing. -/
theorem RenderCall.run_of_kept (h : s.1.kept? call.id = some x) :
    call.run catalog s = (Engine.invoke call.id call.model x, s) := by
  obtain ⟨cache, stores⟩ := s
  unfold RenderCall.run Engine.render
  simp only
  rw [Cache.getOrBuild_of_kept h, Function.update_eq_self]

variable (catalog) in
/-- A render of an id without an outcome fetches the text and keeps what the call compiles. -/
theorem RenderCall.run_of_not_kept (hfilled : s.1.Filled) (h : s.1.kept? call.id = none) :
    ∃ cache : TemplateCache,
      call.run catalog s = (Engine.invoke call.id call.model (call.build catalog s.2), cache,
        Function.update s.2 call.source ((s.2 call.source).fetch call.id).2) ∧
      cache.Filled ∧
      ∀ id, cache.kept? id = if id = call.id then some (call.build catalog s.2) else s.1.kept? id := by
  obtain ⟨cache, stores⟩ := s
  let build : EngineState → (Except RenderError Artifact × Unit) × EngineState :=
    fun s =>
      let built := call.engine.build catalog call.id call.shape call.extra s.2
      ((built.1, ()), s.1, built.2)
  have hbuild : build ((cache.handle call.id).2, stores call.source) =
      ((call.build catalog stores, ()), (cache.handle call.id).2,
        (call.engine.build catalog call.id call.shape call.extra (stores call.source)).2) := rfl
  obtain ⟨cache', hrun, hfilled', hkept⟩ := hfilled.getOrBuild_of_not_kept h hbuild
  refine ⟨cache', ?_, hfilled', hkept⟩
  have hrender : call.engine.render catalog call.id call.shape call.model call.extra cache
      (stores call.source) =
      (Engine.invoke call.id call.model (call.build catalog stores), cache',
        (call.engine.build catalog call.id call.shape call.extra (stores call.source)).2) := by
    unfold Engine.render
    exact congrArg (fun r => (Engine.invoke call.id call.model r.1.1, r.2)) hrun
  unfold RenderCall.run
  simp only [hrender, Engine.build_snd]

namespace SharedRequest

/-! ## Runs -/

theorem runAll_append (qs qs' : List (SharedRequest κ)) (s : SharedState κ) :
    runAll catalog (qs ++ qs') s =
      ((runAll catalog qs s).1 ++ (runAll catalog qs' (runAll catalog qs s).2).1,
        (runAll catalog qs' (runAll catalog qs s).2).2) := by
  induction qs generalizing s with
  | nil => rfl
  | cons q qs ih => simp [runAll, ih]

theorem length_runAll (qs : List (SharedRequest κ)) (s : SharedState κ) :
    (runAll catalog qs s).1.length = qs.length := by
  induction qs generalizing s with
  | nil => rfl
  | cons q qs ih => simp [runAll, ih]

theorem edited_concat (q : SharedRequest κ) (stores : Stores κ) :
    edited (history ++ [q]) stores = q.edit (edited history stores) := by
  simp [edited]

/-- What the cache and the stores hold after a history that started with the given stores and
nothing cached: the edited texts, and for each id what its first render compiled. -/
structure Tracks (catalog : Catalog) (stores : Stores κ) (history : List (SharedRequest κ))
    (s : SharedState κ) : Prop where
  filled : s.1.Filled
  texts : ∀ k, (s.2 k).templates = (edited history stores k).templates
  fresh : ∀ id, s.1.kept? id = none → Fresh id history
  first : ∀ id x, s.1.kept? id = some x → ∃ before first after,
    FirstRender history id before first after ∧ first.build catalog (edited before stores) = x

theorem tracks_nil (stores : Stores κ) : Tracks catalog stores [] (.empty, stores) where
  filled := Cache.filled_empty
  texts _ := rfl
  fresh id _ := fresh_nil id
  first _ _ h := nomatch h

/-- Edits depend on the texts only. -/
theorem templates_edit {stores' : Stores κ} (h : ∀ k, (stores k).templates = (stores' k).templates)
    (q : SharedRequest κ) (k : κ) : (q.edit stores k).templates = (q.edit stores' k).templates := by
  cases q with
  | insert source id text =>
    simp only [edit, Function.update_apply]
    split
    · simp only [TemplateStore.insert, TemplateStore.without, h]
    · exact h k
  | remove source id =>
    simp only [edit, Function.update_apply]
    split
    · simp only [TemplateStore.remove, TemplateStore.without, h]
    · exact h k
  | render | invalidate | clear => exact h k

/-- A request other than a render edits the texts, and it keeps the outcomes of the ids that it does
not drop. -/
theorem Tracks.concat (h : Tracks catalog stores history s) {s' : SharedState κ}
    (hfilled : s'.1.Filled) (htexts : s'.2 = q.edit s.2) (hq : ∀ call, q ≠ .render call)
    (hkept : ∀ id, s'.1.kept? id = s.1.kept? id ∧ ¬ q.Drops id ∨ s'.1.kept? id = none ∧ q.Drops id) :
    Tracks catalog stores (history ++ [q]) s' := by
  refine ⟨hfilled, fun k => ?_, fun id hnone => ?_, fun id x hsome => ?_⟩
  · rw [htexts, edited_concat]
    exact templates_edit h.texts q k
  · rcases hkept id with ⟨hkept, -⟩ | ⟨-, hdrops⟩
    · exact (h.fresh id (hkept ▸ hnone)).concat fun call hcall => absurd hcall (hq call)
    · exact fresh_of_drops hdrops
  · rcases hkept id with ⟨hkept, hdrops⟩ | ⟨hkept, -⟩
    · obtain ⟨before, first, after, hfirst, hx⟩ := h.first id x (hkept ▸ hsome)
      exact ⟨before, first, after ++ [q], hfirst.concat hdrops, hx⟩
    · simp [hkept] at hsome

/-- A render of an id with an outcome is not the first one. -/
theorem Tracks.again (h : Tracks catalog stores history s) (hx : s.1.kept? call.id = some x) :
    Tracks catalog stores (history ++ [.render call]) s := by
  refine ⟨h.filled, fun k => ?_, fun id hnone => ?_, fun id y hsome => ?_⟩
  · rw [edited_concat]
    exact h.texts k
  · refine (h.fresh id hnone).concat ?_
    rintro _ ⟨⟩ rfl
    simp [hnone] at hx
  · obtain ⟨before, first, after, hfirst, hy⟩ := h.first id y hsome
    exact ⟨before, first, after ++ [.render call], hfirst.concat (not_drops_render id call), hy⟩

/-- A render of an id without an outcome is the first one. -/
theorem Tracks.anew (h : Tracks catalog stores history s) (hnone : s.1.kept? call.id = none)
    {s' : SharedState κ} (hfilled : s'.1.Filled)
    (htexts : ∀ k, (s'.2 k).templates = (s.2 k).templates)
    (hkept : ∀ id, s'.1.kept? id =
      if id = call.id then some (call.build catalog s.2) else s.1.kept? id) :
    Tracks catalog stores (history ++ [.render call]) s' := by
  refine ⟨hfilled, fun k => ?_, fun id hid => ?_, fun id x hx => ?_⟩
  · rw [edited_concat, htexts]
    exact h.texts k
  · rw [hkept] at hid
    split at hid
    · contradiction
    · refine (h.fresh id hid).concat ?_
      rintro _ ⟨⟩ rfl
      contradiction
  · rw [hkept] at hx
    split at hx
    · rename_i hid
      subst hid
      refine ⟨history, call, [], (h.fresh _ hnone).firstRender, ?_⟩
      rw [← Option.some.inj hx]
      exact RenderCall.build_congr (h.texts call.source).symm
    · obtain ⟨before, first, after, hfirst, hy⟩ := h.first id x hx
      exact ⟨before, first, after ++ [.render call], hfirst.concat (not_drops_render id call), hy⟩

theorem Tracks.run (h : Tracks catalog stores history s) (q : SharedRequest κ) :
    Tracks catalog stores (history ++ [q]) (q.run catalog s).2 := by
  obtain ⟨cache, current⟩ := s
  cases q with
  | render call =>
    cases hkept : cache.kept? call.id with
    | some x =>
      simp only [SharedRequest.run, RenderCall.run_of_kept catalog (s := (cache, current)) hkept]
      exact h.again hkept
    | none =>
      obtain ⟨cache', hrun, hfilled, hkept'⟩ :=
        RenderCall.run_of_not_kept catalog (s := (cache, current)) h.filled hkept
      simp only [SharedRequest.run, hrun]
      refine h.anew hkept hfilled (fun k => ?_) hkept'
      simp only [Function.update_apply]
      split
      · rename_i hk
        subst hk
        rfl
      · rfl
  | insert source id text => exact h.concat h.filled rfl nofun fun _ => .inl ⟨rfl, fun hdrops => hdrops⟩
  | remove source id => exact h.concat h.filled rfl nofun fun _ => .inl ⟨rfl, fun hdrops => hdrops⟩
  | invalidate id =>
    refine h.concat (h.filled.invalidate id) rfl nofun fun id' => ?_
    unfold SharedRequest.run
    simp only [Cache.kept?_invalidate]
    by_cases hid : id' = id
    · exact .inr ⟨if_pos hid, hid.symm⟩
    · exact .inl ⟨if_neg hid, fun hdrops => hid hdrops.symm⟩
  | clear => exact h.concat h.filled.clear rfl nofun fun id => .inr ⟨Cache.kept?_clear cache id, trivial⟩

/-- A session of requests to the engines keeps track of its first renders. -/
theorem tracks_runAll (catalog : Catalog) (stores : Stores κ) (history : List (SharedRequest κ)) :
    Tracks catalog stores history (runAll catalog history (.empty, stores)).2 := by
  induction history using List.reverseRecOn with
  | nil => exact tracks_nil stores
  | append_singleton history q ih =>
    rw [runAll_append]
    exact ih.run q

/-- A render gives what the first render of its id compiled. Only that one fetches a text; a later one
leaves the cache and the stores as they are. -/
theorem Tracks.render (h : Tracks catalog stores history s) (call : RenderCall κ) :
    ∃ before first after, FirstRender (history ++ [.render call]) call.id before first after ∧
      (call.run catalog s).1 =
        Engine.invoke call.id call.model (first.build catalog (edited before stores)) ∧
      (after = [] →
        ((call.run catalog s).2.2 call.source).fetches = (s.2 call.source).fetches + 1) ∧
      (after ≠ [] → (call.run catalog s).2 = s) := by
  cases hkept : s.1.kept? call.id with
  | some x =>
    obtain ⟨before, first, after, hfirst, hx⟩ := h.first call.id x hkept
    have hagain := hfirst.concat (not_drops_render call.id call)
    rw [RenderCall.run_of_kept catalog hkept]
    refine ⟨before, first, after ++ [.render call], hagain, ?_, by simp, fun _ => rfl⟩
    exact congrArg (Engine.invoke call.id call.model) hx.symm
  | none =>
    obtain ⟨cache, hrun, -, -⟩ := RenderCall.run_of_not_kept catalog h.filled hkept
    refine ⟨history, call, [], (h.fresh call.id hkept).firstRender, ?_, ?_, ?_⟩
    · rw [hrun, RenderCall.build_congr (h.texts call.source)]
    · intro _
      simp [hrun, TemplateStore.fetch]
    · simp

/-- Sharing a cache shows in nothing that is rendered. A render in a session gives what the first
render of its id since the id was last dropped compiles without a cache, with its own engine, shape
and namespaces and the text of that time. Only that first render fetches a text; a later one leaves
the cache and the stores as they are, also when the first one failed. -/
theorem render_eq_first (catalog : Catalog) (stores : Stores κ) (history rest : List (SharedRequest κ))
    (call : RenderCall κ) :
    let s := (runAll catalog history (.empty, stores)).2
    let s' := (call.run catalog s).2
    (∃ before first after, FirstRender (history ++ [.render call]) call.id before first after) ∧
      ∀ before first after, FirstRender (history ++ [.render call]) call.id before first after →
        (runAll catalog (history ++ .render call :: rest) (.empty, stores)).1[history.length]? =
          some (some (Engine.invoke call.id call.model
            (first.build catalog (edited before stores)))) ∧
        (after = [] → (s'.2 call.source).fetches = (s.2 call.source).fetches + 1) ∧
        (after ≠ [] → s' = s) := by
  intro s s'
  have htracks : Tracks catalog stores history s := tracks_runAll catalog stores history
  have hanswer : (runAll catalog (history ++ .render call :: rest) (.empty, stores)).1[history.length]? =
      some (some (call.run catalog s).1) := by
    rw [runAll_append]
    simp only
    rw [List.getElem?_append_right (Nat.le_of_eq (length_runAll history _)), length_runAll,
      Nat.sub_self]
    rfl
  obtain ⟨before, first, after, hfirst, hrun, hfetch, hkeep⟩ := htracks.render call
  refine ⟨⟨before, first, after, hfirst⟩, ?_⟩
  intro before' first' after' hfirst'
  obtain ⟨rfl, rfl, rfl⟩ := hfirst.unique hfirst'
  rw [hanswer, hrun]
  exact ⟨rfl, hfetch, hkeep⟩

end SharedRequest

end TypedTemplate
