-- SUMMARY: The syntax trees of units: declarations and statements.
import TypedTemplate.Tree.Expr

/-!
# Units

A unit nests its declarations to a fixed depth: modules hold types, types hold
functions, functions hold statements.
-/

namespace TypedTemplate

/-- Names joined by `::`. -/
structure Path where
  segments : List Ident
  span : Span
deriving DecidableEq, Repr

namespace Path

def isSimple (p : Path) : Bool := p.segments.length == 1

def text (p : Path) : String := "::".intercalate (p.segments.map (·.name))

end Path

/-- A type as written: a path and type arguments. -/
inductive TypeRef where
  | mk (path : Path) (args : List TypeRef) (span : Span)

namespace TypeRef

def path : TypeRef → Path
  | mk p _ _ => p

def args : TypeRef → List TypeRef
  | mk _ as _ => as

def span : TypeRef → Span
  | mk _ _ s => s

/-- The canonical spelling, without blanks. Model types are registered under it. -/
def text : TypeRef → String
  | mk p [] _          => p.text
  | mk p (a :: as) _   => p.text ++ "<" ++ textList a.text as ++ ">"
where
  /-- Put the spellings of `as` behind `out`, with commas. -/
  textList (out : String) : List TypeRef → String
    | []      => out
    | a :: as => textList (out ++ "," ++ a.text) as

end TypeRef

inductive Stmt where
  | letBinding (name : Ident) (value : Expr) (span : Span)
  | ret (value : Expr) (span : Span)

namespace Stmt

def span : Stmt → Span
  | .letBinding _ _ s => s
  | .ret _ s          => s

def isReturn : Stmt → Bool
  | .letBinding _ _ _ => false
  | .ret _ _          => true

end Stmt

structure Block where
  stmts : List Stmt
  span : Span

/-- Whether the block has a `return`. What follows the first one never runs. -/
def Block.returns (b : Block) : Bool := b.stmts.any (·.isReturn)

structure Param where
  name : Ident
  type : TypeRef
  span : Span

structure FunctionDecl where
  name : Ident
  params : List Param
  returnType : TypeRef
  body : Block
  span : Span

structure TypeDecl where
  name : Ident
  functions : List FunctionDecl
  span : Span

structure ModuleDecl where
  name : Ident
  types : List TypeDecl
  span : Span

/-- The edition of the language that a unit asks for. -/
structure Edition where
  version : Nat
  span : Span
deriving DecidableEq, Repr

structure UseDecl where
  path : Path
  span : Span
deriving DecidableEq, Repr

structure SourceUnit where
  edition : Option Edition
  uses : List UseDecl
  modules : List ModuleDecl
  span : Span

end TypedTemplate
