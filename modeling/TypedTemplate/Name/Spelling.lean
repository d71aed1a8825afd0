-- SUMMARY: How the unit language spells the type name that the host reports.
import TypedTemplate.Text.Blank

/-!
# Spelling of host type names

A host type name can be used in a unit when, without its blanks, it is a path of
identifiers with balanced type arguments. References, tuples, closures, trait
objects and the like have no spelling.
-/

namespace TypedTemplate.Spelling

def isIdentifierChar (c : Char) : Bool := c.isAlphanum || c == '_'

def isNameChar (c : Char) : Bool :=
  isIdentifierChar c || c == ':' || c == '<' || c == '>' || c == ','

/-- Read a path at bracket depth `depth`; `fresh` says that a segment has to start here. -/
def isPathFrom (depth : Nat) (fresh : Bool) : List Char → Bool
  | []                 => depth == 0 && !fresh
  | ':' :: ':' :: rest => !fresh && isPathFrom depth true rest
  | ':' :: _           => false
  | '<' :: rest        => !fresh && isPathFrom (depth + 1) true rest
  | ',' :: rest        => depth != 0 && !fresh && isPathFrom depth true rest
  | '>' :: rest        => depth != 0 && !fresh && isPathFrom (depth - 1) false rest
  | c :: rest          => !(fresh && c.isDigit) && isPathFrom depth false rest

/-- Every segment is an identifier and the angle brackets balance. -/
def isPath (cs : List Char) : Bool := isPathFrom 0 true cs

/-- Whether `word` occurs in `cs`. -/
def occurs (word : List Char) : List Char → Bool
  | []      => word.isEmpty
  | c :: cs => word.isPrefixOf (c :: cs) || occurs word cs

/-- The spelling of a host type name, if it has one. -/
def normalize (raw : String) : Option String :=
  let cs := raw.toList
  if occurs "dyn ".toList cs || occurs "impl ".toList cs then none else
  let name := cs.filter (!Text.isBlank ·)
  if !name.isEmpty && name.all isNameChar && isPath name then some (String.ofList name) else none

end TypedTemplate.Spelling
