-- SUMMARY: Faults found while cutting a unit into tokens.
import TypedTemplate.Source.Span

/-!
# Lexical faults
-/

namespace TypedTemplate

/-- What is wrong with a piece of text that is no token. -/
inductive LexFault where
  | unexpectedChar (c : Char)
  | unterminatedString
  | unterminatedHole
  /-- A closing brace in interpolated text that is not doubled. -/
  | unmatchedBrace
  | invalidEscape (c : Char)
  | invalidNumber (detail : String)
deriving DecidableEq, Repr

structure LexError where
  fault : LexFault
  span : Span
deriving DecidableEq, Repr

/-- The fault without its place. -/
def LexFault.message : LexFault → String
  | .unexpectedChar c   => "unexpected character '" ++ String.singleton c ++ "'"
  | .unterminatedString => "unterminated string"
  | .unterminatedHole   => "unterminated interpolation hole"
  | .unmatchedBrace     => "unmatched '\x7d' in interpolated string"
  | .invalidEscape c    => "invalid escape sequence '\\" ++ String.singleton c ++ "'"
  | .invalidNumber d    => "invalid number: " ++ d

/-- The fault with its place. -/
def LexError.message (e : LexError) : String :=
  match e.fault with
  | .invalidNumber detail => "invalid number at " ++ e.span.start ++ ": " ++ detail
  | fault                 => fault.message ++ " at " ++ e.span.start

end TypedTemplate
