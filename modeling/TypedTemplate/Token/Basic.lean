-- SUMMARY: The tokens of the unit language.
import TypedTemplate.Source.Place

/-!
# Tokens
-/

namespace TypedTemplate

inductive TokenKind where
  | intLiteral
  | floatLiteral
  /-- A text between quotes. The lexeme keeps quotes and escapes. -/
  | stringLiteral
  /-- A text between quotes after a dollar sign. The lexeme keeps the holes as written. -/
  | interpolatedString
  | identifier
  | useWord
  | moduleWord
  | typeWord
  | fnWord
  | letWord
  | returnWord
  | trueWord
  | falseWord
  | nullWord
  | leftBrace
  | rightBrace
  | leftParen
  | rightParen
  | leftBracket
  | rightBracket
  | less
  | greater
  | comma
  | semicolon
  | colon
  | colonColon
  | dot
  | arrow
  | hash
  | bang
  | equal
  | plus
  | minus
  | star
  | equalEqual
  | bangEqual
  | question
  | questionQuestion
  /-- The end of the unit. -/
  | eof
  /-- A text that is no token; its faults are reported separately. -/
  | invalid
deriving DecidableEq, Repr

namespace TokenKind

/-- How messages name the kind. -/
def description : TokenKind → String
  | .intLiteral         => "integer literal"
  | .floatLiteral       => "float literal"
  | .stringLiteral      => "string literal"
  | .interpolatedString => "interpolated string"
  | .identifier         => "identifier"
  | .useWord            => "'use'"
  | .moduleWord         => "'module'"
  | .typeWord           => "'type'"
  | .fnWord             => "'fn'"
  | .letWord            => "'let'"
  | .returnWord         => "'return'"
  | .trueWord           => "'true'"
  | .falseWord          => "'false'"
  | .nullWord           => "'null'"
  | .leftBrace          => "'\x7b'"
  | .rightBrace         => "'\x7d'"
  | .leftParen          => "'('"
  | .rightParen         => "')'"
  | .leftBracket        => "'['"
  | .rightBracket       => "']'"
  | .less               => "'<'"
  | .greater            => "'>'"
  | .comma              => "','"
  | .semicolon          => "';'"
  | .colon              => "':'"
  | .colonColon         => "'::'"
  | .dot                => "'.'"
  | .arrow              => "'->'"
  | .hash               => "'#'"
  | .bang               => "'!'"
  | .equal              => "'='"
  | .plus               => "'+'"
  | .minus              => "'-'"
  | .star               => "'*'"
  | .equalEqual         => "'=='"
  | .bangEqual          => "'!='"
  | .question           => "'?'"
  | .questionQuestion   => "'??'"
  | .eof                => "end of unit"
  | .invalid            => "invalid token"

def keywords : List (List Char × TokenKind) :=
  [("use".toList, .useWord), ("module".toList, .moduleWord), ("type".toList, .typeWord),
   ("fn".toList, .fnWord), ("let".toList, .letWord), ("return".toList, .returnWord),
   ("true".toList, .trueWord), ("false".toList, .falseWord), ("null".toList, .nullWord)]

/-- The kind of the word `cs`: a keyword or else an identifier. -/
def ofWord (cs : List Char) : TokenKind := (keywords.lookup cs).getD .identifier

end TokenKind

structure Token where
  kind : TokenKind
  /-- The text of the token; empty for an invalid one. -/
  lexeme : String
  span : Span
deriving DecidableEq, Repr

/-- The token that ends a unit at `p`. -/
def Token.eof (p : Place) : Token := ⟨.eof, "", p.span 0⟩

end TypedTemplate
