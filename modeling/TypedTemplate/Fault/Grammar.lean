-- SUMMARY: Faults found while parsing a unit.
import TypedTemplate.Fault.Lexical

/-!
# Grammatical faults

Every parse error has a kind, a place and a message. Lexical faults take part as
the kind `invalidToken`, and all errors of one parse are reported together.
-/

namespace TypedTemplate

inductive ParseErrorKind where
  | expectedToken
  | unexpectedToken
  | unexpectedEof
  | expectedExpression
  | expectedType
  | expectedIdentifier
  | expectedStatement
  /-- A `module`, `type` or `fn` declaration was due. -/
  | expectedDeclaration
  /-- The edition header is malformed. -/
  | invalidHeader
  /-- An interpolation hole holds nothing but blanks. -/
  | emptyHole
  | invalidFormatSpec
  /-- A literal has no value. -/
  | invalidLiteral
  /-- The text is no token. -/
  | invalidToken
deriving DecidableEq, Repr

def ParseErrorKind.title : ParseErrorKind → String
  | .expectedToken       => "expected token"
  | .unexpectedToken     => "unexpected token"
  | .unexpectedEof       => "unexpected end of unit"
  | .expectedExpression  => "expected expression"
  | .expectedType        => "expected type"
  | .expectedIdentifier  => "expected identifier"
  | .expectedStatement   => "expected statement"
  | .expectedDeclaration => "expected declaration"
  | .invalidHeader       => "invalid unit header"
  | .emptyHole           => "empty interpolation hole"
  | .invalidFormatSpec   => "invalid format specifier"
  | .invalidLiteral      => "invalid literal"
  | .invalidToken        => "invalid token"

structure ParseError where
  kind : ParseErrorKind
  span : Span
  message : String
deriving DecidableEq, Repr

namespace ParseError

def ofLexError (e : LexError) : ParseError := ⟨.invalidToken, e.span, e.fault.message⟩

/-- The kind, the message and the place. -/
def text (e : ParseError) : String :=
  e.kind.title ++ ": " ++ e.message ++ " at " ++ e.span.start

/-- The errors of one parse by their places in the unit, without repeats. Errors at one place keep
their order. -/
def inOrder (errors : List ParseError) : List ParseError :=
  (errors.mergeSort fun a b =>
    a.span.line < b.span.line || (a.span.line == b.span.line && a.span.col ≤ b.span.col)).eraseReps

/-- The errors of one parse, one a line. -/
def textAll (errors : List ParseError) : String := "\n".intercalate (errors.map text)

end ParseError

end TypedTemplate
