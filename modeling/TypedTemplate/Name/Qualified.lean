-- SUMMARY: A type name split into its namespaces and its simple name.

/-!
# Qualified names

The parts of a qualified name are separated by `::`. A separator between angle
brackets belongs to a type argument and does not split, so the arguments stay
with the simple name.
-/

namespace TypedTemplate

structure QualifiedName where
  /-- The last part, with its type arguments. -/
  name : String
  /-- The parts before it, outermost first; none of them is empty. -/
  namespaces : List String
deriving DecidableEq, Repr

namespace QualifiedName

/-- Drop every separator at the start. -/
def dropSeparators : List Char → List Char
  | ':' :: ':' :: rest => dropSeparators rest
  | cs                 => cs

/-- Cut at each separator outside angle brackets. `part` holds the characters of the current part
in reverse; a closing bracket without an opening one does not count. -/
def splitFrom (depth : Nat) (part : List Char) : List Char → List (List Char)
  | ':' :: ':' :: rest =>
    if depth = 0 then part.reverse :: splitFrom 0 [] rest
    else splitFrom depth (':' :: ':' :: part) rest
  | '<' :: rest => splitFrom (depth + 1) ('<' :: part) rest
  | '>' :: rest => splitFrom (depth - 1) ('>' :: part) rest
  | c :: rest   => splitFrom depth (c :: part) rest
  | []          => [part.reverse]

def parse (s : String) : QualifiedName :=
  let parts := (splitFrom 0 [] (dropSeparators s.toList)).map String.ofList
  { name := parts.getLast?.getD "", namespaces := parts.dropLast.filter (· ≠ "") }

/-- Whether the name is in no namespace. -/
def isGlobal (q : QualifiedName) : Bool := q.namespaces.isEmpty

def namespacePath (q : QualifiedName) : String := "::".intercalate q.namespaces

/-- The paths of all enclosing namespaces, outermost first. -/
def enclosing (q : QualifiedName) : List String :=
  (List.range q.namespaces.length).map fun n => "::".intercalate (q.namespaces.take (n + 1))

def text (q : QualifiedName) : String :=
  q.namespaces.foldr (fun ns rest => ns ++ "::" ++ rest) q.name

end QualifiedName

end TypedTemplate
