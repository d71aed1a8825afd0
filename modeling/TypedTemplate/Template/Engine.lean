-- SUMMARY: Rendering templates by id, compiling each one once.
import TypedTemplate.Cache.Basic
import TypedTemplate.Template.Invoke
import TypedTemplate.Template.Store

/-!
# Template engines

The first render of an id fetches the template's text, writes a unit for the
model's type and compiles it. The outcome is cached, and every render calls what
is in the cache. Several engines may share a cache.
-/

namespace TypedTemplate

/-- The cache of compiled templates. -/
abbrev TemplateCache := Cache Artifact RenderError

structure Engine where
  options : Options
  /-- The namespaces that every template uses. -/
  namespaces : List String
deriving DecidableEq, Repr

namespace Engine

/-- An engine that uses the standard namespace only. -/
def ofOptions (o : Options) : Engine := ⟨o, [Registry.standardNamespace]⟩

/-- Let every template use one more namespace. -/
def withNamespace (e : Engine) (ns : String) : Engine :=
  if e.namespaces.contains ns then e else { e with namespaces := e.namespaces ++ [ns] }

/-- The namespaces of the engine and the types that a model leads to. -/
def registry (e : Engine) (catalog : Catalog) (model : Shape) : Except RegistryError Registry :=
  match (e.namespaces.foldl Registry.addNamespace (.empty catalog)).register model with
  | (.ok _, r)    => .ok r
  | (.error e, _) => .error e

/-- Compile a generated unit. A model type that cannot be registered is reported without a place. -/
def compileUnit (e : Engine) (catalog : Catalog) (u : GeneratedUnit) : Except Diagnostics Artifact :=
  match e.registry catalog u.model with
  | .ok r      => compile r e.options u.source
  | .error err => .error [⟨.error, err.message, .nowhere⟩]

/-- Write and compile the unit of a template. -/
def compileTemplate (e : Engine) (catalog : Catalog) (id template : String) (shape : Shape)
    (extra : List String) : Except RenderError Artifact :=
  match GeneratedUnit.synthesize e.namespaces extra id template shape with
  | .error err => .error (.ofSynthesisError err)
  | .ok u      =>
    match e.compileUnit catalog u with
    | .ok a     => .ok a
    | .error ds => .error (.compilationFailed id ds)

/-- Compile a template from a store. -/
def build (e : Engine) (catalog : Catalog) (id : String) (shape : Shape) (extra : List String)
    (store : TemplateStore) : Except RenderError Artifact × TemplateStore :=
  match store.fetch id with
  | (some template, store) => (e.compileTemplate catalog id template shape extra, store)
  | (none, store)          => (.error (.templateSourceUnavailable id), store)

/-- Render a model with what was compiled for a template, if it was. -/
def invoke (id : String) (model : Instance) :
    Except RenderError Artifact → Except RenderError String
  | .ok a    => (Invoker.standard.invoke a id model).mapError .invocation
  | .error e => .error e

/-- Render a model, whose type has the given shape, with a template. The extra namespaces matter
only when the template has to be compiled. -/
def render (e : Engine) (catalog : Catalog) (id : String) (shape : Shape) (model : Instance)
    (extra : List String) (cache : TemplateCache) (store : TemplateStore) :
    Except RenderError String × TemplateCache × TemplateStore :=
  let (h, cache) := cache.handle id
  let build := fun (cache, store) =>
    let (outcome, store) := e.build catalog id shape extra store
    ((outcome, ()), cache, store)
  let ((outcome, _), cache, store) := Cache.getOrBuild h.entry build (cache, store)
  (invoke id model outcome, cache, store)

end Engine

end TypedTemplate
