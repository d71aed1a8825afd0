-- SUMMARY: Whatever an engine is asked for, a template renders as what it compiles to.
import Mathlib.Data.List.Forall2
import TypedTemplate.Proofs.Cache.Entry
import TypedTemplate.Template.Engine

/-!
# Engine sessions

A session is a sequence of requests to an engine, its cache and its store. As long as the
text of a template stays and every render of it would compile it to the same outcome, each
render gives what that outcome makes of its model, on the first render and on all later
ones, whatever else is asked for in between.
-/

namespace TypedTemplate

/-- What can be asked of an engine, its cache and its store. -/
inductive EngineRequest where
  | render (id : String) (shape : Shape) (model : Instance) (extra : List String)
  | invalidate (id : String)
  | clear
  | insert (id text : String)
  | remove (id : String)

/-- The cache and the store of an engine. -/
abbrev EngineState := TemplateCache × TemplateStore

/-- The text or the error of a render. -/
abbrev Rendered := Except RenderError String

namespace EngineRequest

/-- The answer to a request, which only a render has. -/
def run (e : Engine) (catalog : Catalog) : EngineRequest → EngineState → Option Rendered × EngineState
  | .render id shape model extra, (cache, store) =>
    let (answer, state) := e.render catalog id shape model extra cache store
    (some answer, state)
  | .invalidate id, (cache, store)  => (none, (cache.invalidate id).2, store)
  | .clear, (cache, store)          => (none, cache.clear, store)
  | .insert id text, (cache, store) => (none, cache, store.insert id text)
  | .remove id, (cache, store)      => (none, cache, (store.remove id).2)

/-- The answers to requests made one after the other. -/
def runAll (e : Engine) (catalog : Catalog) :
    List EngineRequest → EngineState → List (Option Rendered) × EngineState
  | [], s      => ([], s)
  | q :: qs, s =>
    let (answer, s) := q.run e catalog s
    let (answers, s) := runAll e catalog qs s
    (answer :: answers, s)

/-- The request keeps the text of the template `id`, and a render of it would compile it to `x`. -/
def Respects (e : Engine) (catalog : Catalog) (id template : String) (x : Except RenderError Artifact) :
    EngineRequest → Prop
  | .render id' shape _ extra => id' = id → e.compileTemplate catalog id template shape extra = x
  | .insert id' _ | .remove id' => id' ≠ id
  | .invalidate _ | .clear => True

end EngineRequest

/-! ## Stores -/

namespace TemplateStore

variable {id id' : String}

theorem lookup_without (s : TemplateStore) (h : id' ≠ id) : (s.without id').lookup id = s.text? id := by
  unfold without text?
  induction s.templates with
  | nil => rfl
  | cons t ts ih =>
    obtain ⟨x, text⟩ := t
    by_cases hx : x = id'
    · subst hx
      have hne : (id == x) = false := beq_false_of_ne (Ne.symm h)
      rw [List.filter_cons_of_neg (by simp), ih, List.lookup_cons, hne]
    · rw [List.filter_cons_of_pos (by simpa using hx), List.lookup_cons, List.lookup_cons, ih]

theorem text?_insert (s : TemplateStore) (text : String) (h : id' ≠ id) :
    (s.insert id' text).text? id = s.text? id := by
  have hne : (id == id') = false := beq_false_of_ne (Ne.symm h)
  rw [← lookup_without s h, text?, insert, List.lookup_cons, hne]

theorem text?_remove (s : TemplateStore) (h : id' ≠ id) : (s.remove id').2.text? id = s.text? id :=
  lookup_without s h

end TemplateStore

/-! ## Sessions -/

/-- The cache has no outcome for the template but `x`, and the store has its text. -/
structure Serves (id template : String) (x : Except RenderError Artifact) (s : EngineState) : Prop where
  cache : s.1.Settles id x
  text : s.2.text? id = some template

variable {e : Engine} {catalog : Catalog} {id template : String} {x : Except RenderError Artifact}
  {s : EngineState}

/-- A render of the template builds what its text compiles to. -/
theorem Engine.build_eq {store : TemplateStore} (h : store.text? id = some template) (shape : Shape)
    (extra : List String) :
    (e.build catalog id shape extra store).1 = e.compileTemplate catalog id template shape extra := by
  rw [Engine.build, TemplateStore.fetch, h]

/-- The texts stay as they are when a template is built. -/
theorem Engine.templates_build (store : TemplateStore) (shape : Shape) (extra : List String) :
    (e.build catalog id shape extra store).2.templates = store.templates := by
  unfold Engine.build TemplateStore.fetch
  cases store.text? id <;> rfl

theorem Engine.templates_render (cache : TemplateCache) (store : TemplateStore) (shape : Shape)
    (model : Instance) (extra : List String) :
    (e.render catalog id shape model extra cache store).2.2.templates = store.templates := by
  unfold Engine.render Cache.getOrBuild
  simp only
  cases (cache.handle id).2.outcome? (cache.handle id).1.entry with
  | some outcome => rfl
  | none => exact e.templates_build store shape extra

/-- A render keeps what is known of a template, and it gives what the template compiles to. -/
theorem Serves.render (h : Serves id template x s) {id' : String} {shape : Shape} (model : Instance)
    {extra : List String}
    (hx : id' = id → e.compileTemplate catalog id template shape extra = x) :
    Serves id template x (e.render catalog id' shape model extra s.1 s.2).2 ∧
      (id' = id → (e.render catalog id' shape model extra s.1 s.2).1 = Engine.invoke id model x) := by
  obtain ⟨cache, store⟩ := s
  have hbuild : id' = id → (e.build catalog id' shape extra store).1 = x := by
    rintro rfl
    exact (Engine.build_eq h.text shape extra).trans (hx rfl)
  let build : EngineState → (Except RenderError Artifact × Unit) × EngineState :=
    fun s =>
      let built := e.build catalog id' shape extra s.2
      ((built.1, ()), s.1, built.2)
  have hfetch := (h.cache.handle id').getOrBuild (cache.mem_handle id') build store rfl hbuild
  refine ⟨⟨hfetch.1, ?_⟩, ?_⟩
  · rw [TemplateStore.text?, e.templates_render cache store shape model extra]
    exact h.text
  · rintro rfl
    exact congrArg (Engine.invoke id' model) (hfetch.2 rfl)

/-- Every request keeps what is known of a template that it respects, and a render of the template
gives what the template compiles to. -/
theorem Serves.run (h : Serves id template x s) {q : EngineRequest}
    (hq : q.Respects e catalog id template x) :
    Serves id template x (q.run e catalog s).2 ∧
      ∀ shape model extra, q = .render id shape model extra →
        (q.run e catalog s).1 = some (Engine.invoke id model x) := by
  cases q with
  | render id' shape model extra =>
    obtain ⟨hserves, hanswer⟩ := h.render model hq
    refine ⟨hserves, ?_⟩
    rintro _ _ _ ⟨⟩
    exact congrArg some (hanswer rfl)
  | invalidate id' => exact ⟨⟨h.cache.invalidate id', h.text⟩, nofun⟩
  | clear => exact ⟨⟨h.cache.clear, h.text⟩, nofun⟩
  | insert id' text => exact ⟨⟨h.cache, (s.2.text?_insert text hq).trans h.text⟩, nofun⟩
  | remove id' => exact ⟨⟨h.cache, (s.2.text?_remove hq).trans h.text⟩, nofun⟩

/-- In a session that respects a template, each of its renders gives what it compiles to. -/
theorem Serves.runAll (h : Serves id template x s) {qs : List EngineRequest}
    (hqs : ∀ q ∈ qs, q.Respects e catalog id template x) :
    List.Forall₂ (fun q answer => ∀ shape model extra, q = .render id shape model extra →
      answer = some (Engine.invoke id model x)) qs (EngineRequest.runAll e catalog qs s).1 := by
  induction qs generalizing s with
  | nil => exact .nil
  | cons q qs ih =>
    obtain ⟨hserves, hanswer⟩ := h.run (hqs q List.mem_cons_self)
    exact .cons hanswer (ih hserves fun q' hq' => hqs q' (List.mem_cons_of_mem q hq'))

/-- A session may start with an empty cache. -/
theorem serves_empty {store : TemplateStore} (h : store.text? id = some template)
    (x : Except RenderError Artifact) : Serves id template x (.empty, store) :=
  ⟨Cache.settles_empty id x, h⟩

/-- The first render gives what the template compiles to. -/
theorem Engine.render_empty {store : TemplateStore} (h : store.text? id = some template) (shape : Shape)
    (model : Instance) (extra : List String) :
    (e.render catalog id shape model extra .empty store).1 =
      invoke id model (e.compileTemplate catalog id template shape extra) :=
  ((serves_empty h _).render model fun _ => rfl).2 rfl

end TypedTemplate
