-- SUMMARY: Parsing expressions by precedence climbing.
import TypedTemplate.Grammar.Hole
import TypedTemplate.Grammar.Reply

/-!
# Expressions

`expr` reads an operand and then climbs: as long as the next operator binds at
least as tightly as asked, it takes the operator and its right operand. The
lexemes left get fewer with every step, so the productions end.

How an interpolated string is read is a parameter here. An error inside one of its
holes does not stop the expression around it.
-/

namespace TypedTemplate

/-- The segments of an interpolated string and the errors in its holes. -/
structure Interpolation where
  segments : List Segment
  errors : List ParseError

/-- What the productions need to know besides the lexemes: where the unit ends and how an
interpolated string token is read. -/
structure Grammar where
  finish : Place
  interpolate : Token → Interpolation

namespace Grammar

/-- An integer literal, if it is in range. -/
def intLiteral (token : Token) : Except ParseError Literal :=
  let n : Int := Number.ofDigits token.lexeme.toList
  if n ≤ maxInt then .ok (.int (Int64.ofInt n))
  else .error ⟨.invalidLiteral, token.span, s!"integer literal '{token.lexeme}' is out of range"⟩

/-- The text between the quotes of a string token. -/
def stringBody (token : Token) : List Char := token.lexeme.toList.tail.dropLast

/-- The operand that one token makes, if it does. An invalid token has been reported already and
stands for null. -/
def atom? (g : Grammar) (token : Token) : Option (Except ParseError (Expr × List ParseError)) :=
  let literal (value : Literal) := some (.ok (.literal value token.span, []))
  match token.kind with
  | .intLiteral => some ((intLiteral token).map fun value => (.literal value token.span, []))
  | .floatLiteral => literal (.float (Number.readFloat token.lexeme.toList))
  | .stringLiteral => literal (.str (String.ofList (unescape (stringBody token))))
  | .trueWord => literal (.bool true)
  | .falseWord => literal (.bool false)
  | .nullWord => literal .null
  | .invalid => literal .null
  | .interpolatedString =>
    let i := g.interpolate token
    some (.ok (.interpolated i.segments token.span, i.errors))
  | .identifier => some (.ok (.name ⟨token.lexeme, token.span⟩, []))
  | _ => none

/-- The error for a token that starts no operand. -/
def noOperand (token : Token) : ParseError :=
  ⟨.expectedExpression, token.span, "expected expression, found " ++ token.kind.description⟩

mutual

/-- Parse an expression whose operators bind at least as tightly as `min`. -/
def expr (g : Grammar) (min : Nat) (given : List Lexeme) : Reply given Expr :=
  (g.operand given).andThen fun lhs rest _h => g.climb min lhs rest
termination_by 5 * given.length + 2

/-- Parse an operand with its unary operators. -/
def operand (g : Grammar) (given : List Lexeme) : Reply given Expr :=
  match given with
  | [] => .fail ⟨.unexpectedEof, g.finish.span 0, "expected expression"⟩
  | lexeme :: given =>
    let token := lexeme.token
    match UnaryOp.ofToken? token.kind with
    | some op =>
      ((g.expr unaryPower given).andThen fun e _ _ =>
        .ok (.unary op e (token.span.merge e.span))).taking
    | none =>
      match g.atom? token with
      | some (.ok (e, errors)) => ((Reply.ok e).recording errors).taking
      | some (.error e)        => (Reply.fail e).taking
      | none                   =>
        if token.kind = .leftParen then
          ((g.expr 0 given).andThen fun e rest _ =>
            (Parse.expect .rightParen g.finish rest).andThen fun close _ _ =>
              .ok (.paren e (token.span.merge close.span))).taking
        else .fail (noOperand token)
termination_by 5 * given.length + 1

/-- Extend `lhs` by the operators that come next, as long as they bind at least as tightly as
`min`. -/
def climb (g : Grammar) (min : Nat) (lhs : Expr) (given : List Lexeme) : Reply given Expr :=
  match given with
  | [] => .ok lhs
  | lexeme :: given =>
    let kind := lexeme.token.kind
    if kind = .dot then
      if memberPower < min then .ok lhs else
      ((Parse.ident g.finish given).andThen fun field rest _h =>
        (g.arguments? rest).andThen fun call rest' _h' =>
          let e :=
            match call with
            | none                 => .member lhs field (lhs.span.merge field.span)
            | some (args, closing) => .call lhs field args (lhs.span.merge closing)
          g.climb min e rest').taking
    else if kind = .question then
      if ternaryPower < min then .ok lhs else
      ((g.expr 0 given).andThen fun whenTrue rest _h =>
        (Parse.expect .colon g.finish rest).andThen fun _ rest' _h' =>
          (g.expr ternaryPower rest').andThen fun whenFalse rest'' _h'' =>
            g.climb min (.ternary lhs whenTrue whenFalse (lhs.span.merge whenFalse.span)) rest'').taking
    else
      match BinaryOp.ofToken? kind with
      | none    => .ok lhs
      | some op =>
        if op.leftPower < min then .ok lhs else
        ((g.expr op.rightPower given).andThen fun rhs rest _h =>
          g.climb min (.binary op lhs rhs (lhs.span.merge rhs.span)) rest).taking
termination_by 5 * given.length

/-- Parse the arguments of a call, if a parenthesis opens next, with the span of the one that
closes. -/
def arguments? (g : Grammar) (given : List Lexeme) : Reply given (Option (List Expr × Span)) :=
  match given with
  | [] => .ok none
  | opening :: given =>
    if opening.token.kind = .leftParen then
      ((g.arguments given).andThen fun args rest _ =>
        (Parse.expect .rightParen g.finish rest).andThen fun close _ _ =>
          .ok (some (args, close.span))).taking
    else .ok none
termination_by 5 * given.length

/-- Parse the arguments between two parentheses. -/
def arguments (g : Grammar) (given : List Lexeme) : Reply given (List Expr) :=
  if given.head?.any (·.token.kind = .rightParen) then .ok [] else g.argumentsOnto [] given
termination_by 5 * given.length + 4

/-- Parse expressions separated by commas, and put them behind those of `out`, which is in
reverse. -/
def argumentsOnto (g : Grammar) (out : List Expr) (given : List Lexeme) :
    Reply given (List Expr) :=
  (g.expr 0 given).andThen fun arg rest _h =>
    match rest with
    | [] => .ok (arg :: out).reverse
    | lexeme :: rest =>
      if lexeme.token.kind = .comma then (g.argumentsOnto (arg :: out) rest).taking
      else .ok (arg :: out).reverse
termination_by 5 * given.length + 3

end

end Grammar

end TypedTemplate
