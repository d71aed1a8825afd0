-- SUMMARY: The texts of templates by id.

/-!
# Template stores
-/

namespace TypedTemplate

structure TemplateStore where
  /-- The texts, one for each id. -/
  templates : List (String × String)
  /-- How often a text was asked for. -/
  fetches : Nat
deriving DecidableEq, Repr

namespace TemplateStore

def empty : TemplateStore := ⟨[], 0⟩

def size (s : TemplateStore) : Nat := s.templates.length

def isEmpty (s : TemplateStore) : Bool := s.templates.isEmpty

/-- The text of a template. -/
def text? (s : TemplateStore) (id : String) : Option String := s.templates.lookup id

/-- The templates other than one. -/
def without (s : TemplateStore) (id : String) : List (String × String) :=
  s.templates.filter (·.1 != id)

/-- Add a template or replace its text. -/
def insert (s : TemplateStore) (id text : String) : TemplateStore :=
  { s with templates := (id, text) :: s.without id }

/-- Take a template out. Gives its text. -/
def remove (s : TemplateStore) (id : String) : Option String × TemplateStore :=
  (s.text? id, { s with templates := s.without id })

/-- Ask for the text of a template. -/
def fetch (s : TemplateStore) (id : String) : Option String × TemplateStore :=
  (s.text? id, { s with fetches := s.fetches + 1 })

end TemplateStore

end TypedTemplate
