-- SUMMARY: Parsing units: the header, declarations, types and statements.
import TypedTemplate.Grammar.Standalone
import TypedTemplate.Tree.Unit

/-!
# Units

One mistake should not hide the next. A faulty declaration or statement is
recorded and skipped up to where the next one may start. So parsing a unit never
stops early, and all its lexemes are taken.

Productions that are picked by a keyword get that keyword's token, already taken.
-/

namespace TypedTemplate

namespace Parse

variable {α : Type}

/-- Parse with `p`. An error is recorded, and `recover` skips what it spoils. -/
def orRecover (p : Parse α) (recover : Parse PUnit) : Parse (Option α) := fun finish given =>
  match p finish given with
  | ⟨.ok a, rest, recorded, h⟩    => ⟨.ok (some a), rest, recorded, h⟩
  | ⟨.error e, rest, recorded, h⟩ =>
    let r := recover finish rest
    ⟨.ok none, r.rest, recorded ++ e :: r.recorded, Nat.le_trans r.le h⟩

/-- Parse items as long as the next token's kind satisfies `more`, and put them behind those of
`out`; both `out` and `recorded` are in reverse. The first token of an item is taken for it. -/
def manyOnto (more : TokenKind → Bool) (item : Token → Parse α) (recover : Parse PUnit)
    (finish : Place) (out : List α) (recorded : List ParseError) {outer : List Lexeme}
    (given : List Lexeme) (h : given.length ≤ outer.length) : Reply outer (List α) :=
  match given, h with
  | [], h             => ⟨.ok out.reverse, [], recorded.reverse, h⟩
  | lexeme :: rest, h =>
    if more lexeme.token.kind then
      match (item lexeme.token).orRecover recover finish rest with
      | ⟨.ok (some a), rest', found, h'⟩ =>
        manyOnto more item recover finish (a :: out) (found.reverse ++ recorded) rest'
          (Nat.le_trans h' (Nat.le_of_succ_le h))
      | ⟨_, rest', found, h'⟩ =>
        manyOnto more item recover finish out (found.reverse ++ recorded) rest'
          (Nat.le_trans h' (Nat.le_of_succ_le h))
    else ⟨.ok out.reverse, lexeme :: rest, recorded.reverse, h⟩
termination_by given.length
decreasing_by all_goals exact Nat.lt_succ_of_le h'

/-- Parse items as long as the next token's kind satisfies `more`. -/
def many (more : TokenKind → Bool) (item : Token → Parse α) (recover : Parse PUnit) :
    Parse (List α) := fun finish given =>
  manyOnto more item recover finish [] [] given (Reply.all_left given)

/-- Parse a declaration that starts with the keyword `kind`. -/
def declaration (kind : TokenKind) (body : Token → Parse α) (token : Token) : Parse α :=
  if token.kind = kind then body token
  else fail ⟨.expectedDeclaration, token.span,
    "expected " ++ kind.description ++ ", found " ++ token.kind.description⟩

end Parse

namespace Grammar

open Parse

/-! ## Names and types -/

/-- Parse the further segments of a path, and put them behind those of `out`, which is in
reverse. -/
def segmentsOnto (finish : Place) (out : List Ident) (given : List Lexeme) :
    Reply given (List Ident) :=
  match given with
  | [] => .ok out.reverse
  | lexeme :: rest =>
    if lexeme.token.kind = .colonColon then
      ((ident finish rest).andThen fun segment rest' _h =>
        segmentsOnto finish (segment :: out) rest').taking
    else .ok out.reverse
termination_by given.length

def path : Parse Path := do
  let first ← ident
  let segments ← fun finish given => segmentsOnto finish [first] given
  return ⟨segments, first.span.merge (segments.getLast?.getD first).span⟩

/-- The span of the last segment of a path. -/
def lastSpan (p : Path) : Span := (p.segments.getLast?.map (·.span)).getD p.span

mutual

def typeRef (finish : Place) (given : List Lexeme) : Reply given TypeRef :=
  match given.head?.map (·.token) |>.getD (.eof finish) with
  | token =>
    if token.kind ≠ .identifier then
      .fail ⟨.expectedType, token.span, "expected type, found " ++ token.kind.description⟩
    else
      (path finish given).andThen fun p rest _h =>
        match rest with
        | [] => .ok (.mk p [] (p.span.merge (lastSpan p)))
        | opening :: rest =>
          if opening.token.kind = .less then
            ((typeArgsOnto finish [] rest).andThen fun args rest' _ =>
              (expect .greater finish rest').andThen fun close _ _ =>
                .ok (.mk p args (p.span.merge close.span))).taking
          else .ok (.mk p [] (p.span.merge (lastSpan p)))
termination_by 2 * given.length
decreasing_by all_goals simp only [List.length_cons] at *; omega

/-- Parse types separated by commas, and put them behind those of `out`, which is in reverse. -/
def typeArgsOnto (finish : Place) (out : List TypeRef) (given : List Lexeme) :
    Reply given (List TypeRef) :=
  (typeRef finish given).andThen fun arg rest _h =>
    match rest with
    | [] => .ok (arg :: out).reverse
    | lexeme :: rest =>
      if lexeme.token.kind = .comma then (typeArgsOnto finish (arg :: out) rest).taking
      else .ok (arg :: out).reverse
termination_by 2 * given.length + 1

end

/-! ## Statements -/

variable (g : Grammar)

/-- Parse an expression. -/
def value : Parse Expr := fun _ given => g.expr 0 given

def letBinding (start : Token) : Parse Stmt := do
  let name ← ident
  let _ ← expect .equal
  let e ← g.value
  let close ← expect .semicolon
  return .letBinding name e (start.span.merge close.span)

def ret (start : Token) : Parse Stmt := do
  let e ← g.value
  let close ← expect .semicolon
  return .ret e (start.span.merge close.span)

def statement (token : Token) : Parse Stmt :=
  match token.kind with
  | .letWord    => g.letBinding token
  | .returnWord => g.ret token
  | kind        =>
    fail ⟨.expectedStatement, token.span, "expected 'let' or 'return', found " ++ kind.description⟩

def block : Parse Block := do
  let opening ← expect .leftBrace
  let stmts ← many (· != .rightBrace) g.statement do
    synchronize [.semicolon, .letWord, .returnWord]
    let _ ← eat .semicolon
  let close ← expect .rightBrace
  return ⟨stmts, opening.span.merge close.span⟩

/-! ## Declarations -/

def param : Parse Param := do
  let name ← ident
  let _ ← expect .colon
  let type ← fun finish given => typeRef finish given
  return ⟨name, type, name.span.merge type.span⟩

/-- Parse parameters separated by commas, and put them behind those of `out`, which is in
reverse. -/
def paramsOnto (finish : Place) (out : List Param) (given : List Lexeme) :
    Reply given (List Param) :=
  (param finish given).andThen fun p rest _h =>
    match rest with
    | [] => .ok (p :: out).reverse
    | lexeme :: rest =>
      if lexeme.token.kind = .comma then (paramsOnto finish (p :: out) rest).taking
      else .ok (p :: out).reverse
termination_by given.length

def params : Parse (List Param) := fun finish given =>
  if given.head?.any (·.token.kind = .rightParen) then .ok [] else paramsOnto finish [] given

def functionDecl (start : Token) : Parse FunctionDecl := do
  let name ← ident
  let _ ← expect .leftParen
  let params ← params
  let _ ← expect .rightParen
  let _ ← expect .arrow
  let returnType ← fun finish given => typeRef finish given
  let body ← g.block
  return ⟨name, params, returnType, body, start.span.merge body.span⟩

def typeDecl (start : Token) : Parse TypeDecl := do
  let name ← ident
  let _ ← expect .leftBrace
  let functions ← many (· != .rightBrace) (declaration .fnWord g.functionDecl) (synchronize [.fnWord])
  let close ← expect .rightBrace
  return ⟨name, functions, start.span.merge close.span⟩

def moduleDecl (start : Token) : Parse ModuleDecl := do
  let name ← ident
  let _ ← expect .leftBrace
  let types ← many (· != .rightBrace) (declaration .typeWord g.typeDecl) (synchronize [.typeWord])
  let close ← expect .rightBrace
  return ⟨name, types, start.span.merge close.span⟩

/-! ## The unit -/

/-- The greatest edition that can be written. -/
def maxEdition : Nat := 0xFFFFFFFF

/-- Take a token of the header if it is of the given kind. -/
def headerToken (kind : TokenKind) : Parse Token := do
  let token ← peek
  if token.kind = kind then advance
  else fail ⟨.invalidHeader, token.span, "expected `#![edition = N]`"⟩

/-- Take the word that names the header. -/
def headerWord : Parse Token := do
  let token ← peek
  if token.lexeme = "edition" then headerToken .identifier
  else fail ⟨.invalidHeader, token.span, "expected `#![edition = N]`"⟩

/-- Parse the header after its hash. -/
def edition (start : Token) : Parse Edition := do
  let _ ← headerToken .bang
  let _ ← headerToken .leftBracket
  let _ ← headerWord
  let _ ← headerToken .equal
  let number ← headerToken .intLiteral
  let version := Number.ofDigits number.lexeme.toList
  if version > maxEdition then
    fail ⟨.invalidHeader, number.span, s!"edition '{number.lexeme}' is out of range"⟩
  else
    let close ← expect .rightBracket
    return ⟨version, start.span.merge close.span⟩

def useDecl (start : Token) : Parse UseDecl := do
  let p ← path
  let close ← expect .semicolon
  return ⟨p, start.span.merge close.span⟩

/-- Parse the header, if a hash comes first. -/
def header : Parse (Option Edition) := do
  let token ← peek
  if token.kind = .hash then
    let start ← advance
    (edition start).orRecover (synchronize [.useWord, .moduleWord])
  else return none

def declarations : Parse (Option Edition × List UseDecl × List ModuleDecl) := do
  let edition ← header
  let uses ← many (· == .useWord) useDecl do
    synchronize [.useWord, .moduleWord]
    let _ ← eat .semicolon
  let modules ← many (fun _ => true) (declaration .moduleWord g.moduleDecl) do
    synchronize [.moduleWord]
    let _ ← eat .rightBrace
  return (edition, uses, modules)

/-- The span from the first to the last token of a unit. -/
def unitSpan (source : Lexemes) : Span :=
  let spans := source.lexemes.map (·.token.span)
  (spans.head?.getD (source.finish.span 0)).merge (spans.getLast?.getD .nowhere)

end Grammar

/-- Parse a unit. All its errors are reported, lexical ones included, in the order of the text. -/
def SourceUnit.parse (text : String) : Except (List ParseError) SourceUnit :=
  let source := Lexemes.ofChars .first text.toList
  let g := Grammar.ofText text.length source.finish
  let reply := g.declarations source.finish source.lexemes
  let faults := source.lexemes.flatMap (fun lexeme => lexeme.errors.map .ofLexError)
  match reply.result, faults ++ reply.recorded with
  | .ok (edition, uses, modules), [] => .ok ⟨edition, uses, modules, Grammar.unitSpan source⟩
  | .ok _, errors                    => .error (ParseError.inOrder errors)
  | .error e, errors                 => .error (ParseError.inOrder (errors ++ [e]))

end TypedTemplate
