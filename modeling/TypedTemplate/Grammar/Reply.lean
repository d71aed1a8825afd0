-- SUMMARY: The outcome of parsing from a list of lexemes, and parsers built from such outcomes.
import TypedTemplate.Fault.Grammar
import TypedTemplate.Token.Scan
import TypedTemplate.Tree.Expr

/-!
# Replies and parsers

A parser takes lexemes off the front of a list. Its reply holds the result or the
error that stopped it, the lexemes left, and errors that were recorded on the
way without stopping it. The lexemes left are never more than those given,
which is what lets productions call each other.
-/

namespace TypedTemplate

structure Reply (given : List Lexeme) (α : Type) where
  result : Except ParseError α
  rest : List Lexeme
  recorded : List ParseError
  le : rest.length ≤ given.length

namespace Reply

variable {given : List Lexeme} {α β : Type}

theorem all_left (given : List Lexeme) : given.length ≤ given.length := Nat.le_refl _

/-- Succeed with `a` and take nothing. -/
def ok (a : α) : Reply given α := ⟨.ok a, given, [], all_left given⟩

/-- Stop with `e` and take nothing. -/
def fail (e : ParseError) : Reply given α := ⟨.error e, given, [], all_left given⟩

/-- Record `es` before what the reply records. -/
def recording (es : List ParseError) (r : Reply given α) : Reply given α :=
  { r with recorded := es ++ r.recorded }

/-- The reply to a longer list, of which `given` is what was left. -/
def widen {outer : List Lexeme} (r : Reply given α) (h : given.length ≤ outer.length) :
    Reply outer α :=
  { r with le := Nat.le_trans r.le h }

/-- The reply to a list of one more lexeme, which was taken. -/
def taking {lexeme : Lexeme} (r : Reply given α) : Reply (lexeme :: given) α :=
  r.widen (Nat.le_succ _)

/-- Go on from where `r` succeeded. -/
@[inline] def andThen (r : Reply given α)
    (next : α → (rest : List Lexeme) → rest.length ≤ given.length → Reply rest β) :
    Reply given β :=
  match r with
  | ⟨.error e, rest, recorded, h⟩ => ⟨.error e, rest, recorded, h⟩
  | ⟨.ok a, rest, recorded, h⟩    => (next a rest h).recording recorded |>.widen h

end Reply

/-- A parser in a unit that ends at `finish`. -/
def Parse (α : Type) : Type := (finish : Place) → (given : List Lexeme) → Reply given α

namespace Parse

instance : Monad Parse where
  pure a := fun _ _ => .ok a
  bind p next := fun finish given =>
    (p finish given).andThen fun a rest _ => next a finish rest

/-- Stop with `e`. -/
def fail {α : Type} (e : ParseError) : Parse α := fun _ _ => .fail e

/-- The next token, which is left in place; at the end of the unit the end token. -/
def peek : Parse Token := fun finish given =>
  match given with
  | []          => .ok (.eof finish)
  | lexeme :: _ => .ok lexeme.token

/-- Take the next token. At the end of the unit there is nothing to take. -/
def advance : Parse Token := fun finish given =>
  match given with
  | []             => .ok (.eof finish)
  | lexeme :: rest => (Reply.ok lexeme.token : Reply rest Token).taking

/-- Take the next token if it is of the given kind. -/
def eat (kind : TokenKind) : Parse Bool := do
  let token ← peek
  if token.kind = kind then
    let _ ← advance
    return true
  else return false

/-- Take a token of the given kind. -/
def expect (kind : TokenKind) : Parse Token := do
  let token ← peek
  if token.kind = kind then advance
  else if token.kind = .eof then
    fail ⟨.unexpectedEof, token.span, "expected " ++ kind.description⟩
  else
    fail ⟨.expectedToken, token.span,
      "expected " ++ kind.description ++ ", found " ++ token.kind.description⟩

/-- Take an identifier. -/
def ident : Parse Ident := do
  let token ← peek
  if token.kind = .identifier then
    let _ ← advance
    return ⟨token.lexeme, token.span⟩
  else
    fail ⟨.expectedIdentifier, token.span,
      "expected identifier, found " ++ token.kind.description⟩

/-- Skip lexemes up to one of the kinds `stop` outside the braces that open on the way, or up to the
brace that closes what encloses them all. Neither is taken. -/
def skipTo (stop : List TokenKind) (depth : Nat) : List Lexeme → List Lexeme
  | []             => []
  | lexeme :: rest =>
    let kind := lexeme.token.kind
    if depth = 0 ∧ (kind = .rightBrace ∨ kind ∈ stop) then lexeme :: rest
    else if kind = .leftBrace then skipTo stop (depth + 1) rest
    else if kind = .rightBrace then skipTo stop (depth - 1) rest
    else skipTo stop depth rest

theorem length_skipTo_le (stop : List TokenKind) (depth : Nat) (lexemes : List Lexeme) :
    (skipTo stop depth lexemes).length ≤ lexemes.length := by
  fun_induction skipTo stop depth lexemes <;> simp_all <;> omega

/-- Give up on the current declaration or statement: skip to where the next may start. -/
def synchronize (stop : List TokenKind) : Parse PUnit := fun _ given =>
  ⟨.ok ⟨⟩, skipTo stop 0 given, [], length_skipTo_le stop 0 given⟩

end Parse

end TypedTemplate
