-- SUMMARY: The syntax trees of expressions.
import TypedTemplate.Model.Value
import TypedTemplate.Tree.Format
import TypedTemplate.Tree.Operator

/-!
# Expressions

Every node knows its span. Parentheses are kept as nodes of their own.
-/

namespace TypedTemplate

/-- A name with its place. -/
structure Ident where
  name : String
  span : Span
deriving DecidableEq, Repr

inductive Literal where
  | int (i : Int64)
  | float (x : Float)
  | bool (b : Bool)
  /-- The text without quotes, its escapes resolved. -/
  | str (s : String)
  | null

/-- The value of a literal. -/
def Literal.value : Literal → Value
  | .int i   => .int i
  | .float x => .float x
  | .bool b  => .bool b
  | .str s   => .str s
  | .null    => .null

mutual

inductive Expr where
  | literal (value : Literal) (span : Span)
  /-- A parameter or a `let` binding. -/
  | name (ident : Ident)
  | member (object : Expr) (field : Ident) (span : Span)
  | call (receiver : Expr) (method : Ident) (args : List Expr) (span : Span)
  | unary (op : UnaryOp) (operand : Expr) (span : Span)
  | binary (op : BinaryOp) (left right : Expr) (span : Span)
  | ternary (condition whenTrue whenFalse : Expr) (span : Span)
  | interpolated (segments : List Segment) (span : Span)
  | paren (inner : Expr) (span : Span)

/-- A piece of an interpolated string. -/
inductive Segment where
  /-- Literal text, its escapes and doubled braces resolved. -/
  | text (s : String)
  | hole (value : Expr) (format : Option FormatSpec) (span : Span)

end

namespace Expr

def span : Expr → Span
  | .literal _ s      => s
  | .name ident       => ident.span
  | .member _ _ s     => s
  | .call _ _ _ s     => s
  | .unary _ _ s      => s
  | .binary _ _ _ s   => s
  | .ternary _ _ _ s  => s
  | .interpolated _ s => s
  | .paren _ s        => s

/-- The expression inside any number of parentheses. -/
def unparenthesized : Expr → Expr
  | .paren inner _ => inner.unparenthesized
  | e              => e

end Expr

/-- Whether a segment is a hole. -/
def Segment.isHole : Segment → Bool
  | .text _     => false
  | .hole _ _ _ => true

end TypedTemplate
