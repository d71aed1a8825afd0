-- SUMMARY: Parsing a text that is one expression: a lone one or that of an interpolation hole.
import TypedTemplate.Grammar.Expr
import TypedTemplate.Text.Blank

/-!
# Standalone expressions

A hole of an interpolated string is a text of its own: it is cut into lexemes at
its place in the unit and parsed by the same productions, so its errors point
into the unit. Interpolated strings in holes nest only as deep as the text is
long, since a hole is shorter than the string around it.
-/

namespace TypedTemplate

namespace Grammar

/-- The outcome of parsing a text that should be one expression: the expression, or all errors in
the order of the text. -/
abbrev Standalone : Type := Except (List ParseError) Expr

/-- Take the expression that starts the lexemes of a text and refuse what is left. -/
def wholeExpr (g : Grammar) (given : List Lexeme) : Reply given Expr :=
  (g.expr 0 given).andThen fun e rest _ =>
    match rest with
    | []          => .ok e
    | lexeme :: _ =>
      .fail ⟨.unexpectedToken, lexeme.token.span, "unexpected " ++ lexeme.token.kind.description⟩

/-- The lexical faults that a parser has met: those in the lexemes it took and in the next one, at
which it looked. It does not look further when the last one taken is a literal without a value. -/
def faultsMet {given : List Lexeme} {α : Type} (reply : Reply given α) : List ParseError :=
  let taken := given.length - reply.rest.length
  let looked :=
    match reply.result with
    | .error ⟨.invalidLiteral, _, _⟩ => taken
    | _                              => taken + 1
  (given.take looked).flatMap fun lexeme => lexeme.errors.map .ofLexError

/-- Parse the text of one expression that starts at `place`. -/
def standalone (interpolate : Token → Interpolation) (place : Place) (text : List Char) :
    Standalone :=
  let source := Lexemes.ofChars place text
  let reply := wholeExpr ⟨source.finish, interpolate⟩ source.lexemes
  let faults := faultsMet reply ++ reply.recorded
  match reply.result with
  | .ok e    => if faults.isEmpty then .ok e else .error (ParseError.inOrder faults)
  | .error e => .error (ParseError.inOrder (faults ++ [e]))

/-- The format specifier `spec` at `place`, blanks around it not counting, or the error in it. -/
def formatSpec (place : Place) (spec : List Char) : Except ParseError FormatSpec :=
  let trimmed := Text.trimChars spec
  let span := place.spanOf spec
  match FormatKind.parse trimmed with
  | some kind => .ok ⟨kind, span⟩
  | none      =>
    .error ⟨.invalidFormatSpec, span, s!"unknown format specifier '{String.ofList trimmed}'"⟩

/-- Read the text between the braces of the hole that opens at `place`, with `parse` for its
expression. An expression with errors is replaced by null. -/
def hole (parse : Place → List Char → Standalone) (place : Place) (text : List Char) :
    Segment × List ParseError :=
  let span := place.span (Text.byteSize text + 2)
  let start := place.next '\x7b'
  let (body, spec?) := splitFormat text
  if (Text.trimChars body).isEmpty then
    (.hole (.literal .null span) none span,
      [⟨.emptyHole, span, "interpolation hole has no expression"⟩])
  else
    let (value, valueErrors) :=
      match parse start body with
      | .ok e         => (e, [])
      | .error errors => (.literal .null span, errors)
    let (format, formatErrors) :=
      match spec?.map (formatSpec ((start.after body).next ':')) with
      | some (.ok spec) => (some spec, [])
      | some (.error e) => (none, [e])
      | none            => (none, [])
    (.hole value format span, valueErrors ++ formatErrors)

/-- The text between the quotes of an interpolated string token, with its place. -/
def interpolatedBody (token : Token) : Place × List Char :=
  (⟨token.span.line, token.span.col + 2⟩, (token.lexeme.toList.drop 2).dropLast)

/-- Read the pieces of an interpolated string with `parse` for the expressions of its holes. -/
def segments (parse : Place → List Char → Standalone) (ps : List Piece) : Interpolation :=
  let (segments, errors) := ps.foldl (fun (segments, errors) piece =>
    match piece with
    | .text cs       => (.text (String.ofList cs) :: segments, errors)
    | .hole place cs =>
      let (segment, found) := hole parse place cs
      (segment :: segments, found.reverse ++ errors)) (([] : List Segment), ([] : List ParseError))
  ⟨segments.reverse, errors.reverse⟩

/-- Read an interpolated string token in which interpolated strings are nested less than `depth`
deep. -/
def interpolation : (depth : Nat) → Token → Interpolation
  | 0,         _     => ⟨[], []⟩
  | depth + 1, token =>
    let (place, body) := interpolatedBody token
    segments (standalone (interpolation depth)) (pieces place body)

/-- The grammar of a text of `length` characters that ends at `finish`. -/
def ofText (length : Nat) (finish : Place) : Grammar := ⟨finish, interpolation (length + 1)⟩

end Grammar

/-- Parse a text that is one expression. -/
def Expr.parse (text : String) : Except (List ParseError) Expr :=
  Grammar.standalone (Grammar.interpolation (text.length + 1)) .first text.toList

end TypedTemplate
