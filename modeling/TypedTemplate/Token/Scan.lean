-- SUMMARY: Cutting the next token off a text, and a whole text into tokens.
import TypedTemplate.Fault.Lexical
import TypedTemplate.Text.Blank
import TypedTemplate.Token.Basic

/-!
# Scanning

`scanToken` cuts one token off a text that starts with none of the trivia:
blanks, byte order marks and comments. `Lexeme.all` cuts a whole text. Nothing is
lost: a lexeme keeps the trivia before its token and the stretch of text it
was cut from, also where that stretch is no token.

An interpolated string is one token. Its holes are only passed over here, up to
the first closing brace outside the quotes of a nested string.
-/

namespace TypedTemplate

def isWordStart (c : Char) : Bool := c.isAlpha || c == '_'

def isWordChar (c : Char) : Bool := c.isAlphanum || c == '_'

/-- Characters that no string extends over. -/
def isLineEnd (c : Char) : Bool := c == '\n' || c == '\r'

/-- Characters that may follow a backslash. -/
def isEscape (c : Char) : Bool :=
  c == '"' || c == '\\' || c == 'n' || c == 'r' || c == 't' || c == '0' || c == '{' || c == '}'

/-- The longest start of `cs` that satisfies `p`, and what follows it. -/
def splitWhile (p : Char → Bool) (cs : List Char) : List Char × List Char :=
  (cs.takeWhile p, cs.dropWhile p)

/-! ## Trivia -/

/-- A character that separates tokens: a blank or a byte order mark. -/
def isSpace (c : Char) : Bool := c == '\uFEFF' || Text.isBlank c

/-- Skip trivia. The first flag says that a comment is being skipped, which ends before the line
feed. The characters skipped are put, in reverse, onto `skipped`. -/
def skipTrivia (comment : Bool) (skipped : List Char) : List Char → List Char × List Char
  | [] => (skipped.reverse, [])
  | c :: rest =>
    if comment && c != '\n' then skipTrivia true (c :: skipped) rest
    else if isSpace c then skipTrivia false (c :: skipped) rest
    else match c, rest with
      | '/', '/' :: rest' => skipTrivia true ('/' :: '/' :: skipped) rest'
      | _, _              => (skipped.reverse, c :: rest)

/-! ## Strings -/

/-- How the scan of a string ended. -/
inductive StringEnd where
  | closed
  | unterminated
  /-- The line ended inside the hole that opened at `opening`. -/
  | openHole (opening : Place)

/-- A string scanned up to `place`. -/
structure StringScan where
  /-- What was read, in reverse. -/
  taken : List Char
  rest : List Char
  place : Place
  /-- Faults inside the string, last first. -/
  errors : List LexError
  ending : StringEnd

/-- Where inside an interpolated string the scan is. -/
inductive StringMode where
  /-- In a string without holes. -/
  | plain
  /-- In the text of an interpolated string. -/
  | text
  /-- In the hole that opened at `opening`. -/
  | hole (opening : Place)
  /-- In a string inside that hole. -/
  | nested (opening : Place)

def StringMode.unfinished : StringMode → StringEnd
  | .plain | .text                   => .unterminated
  | .hole opening | .nested opening => .openHole opening

/-- How a scan goes on from one character. -/
inductive StringMove where
  /-- The line ends here. -/
  | stop
  /-- This is the closing quote. -/
  | close
  /-- Read this character. -/
  | one (mode : StringMode) (error : Option LexError)
  /-- Read this character and the next. -/
  | two (mode : StringMode) (error : Option LexError)

/-- A backslash takes the next character with it, unless the line ends there. -/
def escapeMove (mode : StringMode) (place : Place) (next : Option Char) : StringMove :=
  match next with
  | none   => .one mode none
  | some d =>
    if isLineEnd d then .one mode none
    else if isEscape d then .two mode none
    else .two mode (some ⟨.invalidEscape d, place.spanOf ['\\', d]⟩)

/-- How a scan in `mode` goes on from `c` at `place`, with `next` behind it. -/
def stringMove (mode : StringMode) (place : Place) (c : Char) (next : Option Char) : StringMove :=
  if isLineEnd c then .stop else
  match mode with
  | .plain =>
    if c == '\\' then escapeMove .plain place next
    else if c == '"' then .close
    else .one .plain none
  | .text =>
    if c == '\\' then escapeMove .text place next
    else if c == '"' then .close
    else if c == '{' then
      if next == some '{' then .two .text none else .one (.hole place) none
    else if c == '}' then
      if next == some '}' then .two .text none
      else .one .text (some ⟨.unmatchedBrace, place.span 1⟩)
    else .one .text none
  | .hole opening =>
    if c == '}' then .one .text none
    else if c == '"' then .one (.nested opening) none
    else .one (.hole opening) none
  | .nested opening =>
    if c == '\\' then escapeMove (.nested opening) place next
    else if c == '"' then .one (.hole opening) none
    else .one (.nested opening) none

/-- Scan a string from behind its opening quote. -/
def scanString (mode : StringMode) (place : Place) (taken : List Char) (errors : List LexError) :
    List Char → StringScan
  | [] => ⟨taken, [], place, errors, mode.unfinished⟩
  | c :: rest =>
    match stringMove mode place c rest.head? with
    | .stop  => ⟨taken, c :: rest, place, errors, mode.unfinished⟩
    | .close => ⟨c :: taken, rest, place.next c, errors, .closed⟩
    | .one mode' error =>
      scanString mode' (place.next c) (c :: taken) (error.toList ++ errors) rest
    | .two mode' error =>
      match rest with
      | d :: rest' =>
        scanString mode' (place.after [c, d]) (d :: c :: taken) (error.toList ++ errors) rest'
      | [] => ⟨c :: taken, [], place.next c, error.toList ++ errors, mode'.unfinished⟩

/-! ## Numbers -/

/-- What was read of a number, what is left, and its kind or what is wrong with it. -/
structure NumberScan where
  taken : List Char
  rest : List Char
  kind : Except String TokenKind

/-- The fractional part of a number, if a point and a digit come next. -/
def scanFraction : List Char → List Char × List Char
  | '.' :: d :: rest =>
    if d.isDigit then
      let (ds, rest) := splitWhile Char.isDigit (d :: rest)
      ('.' :: ds, rest)
    else ([], '.' :: d :: rest)
  | cs => ([], cs)

/-- The sign of an exponent, if there is one. -/
def scanSign : List Char → List Char × List Char
  | '+' :: rest => (['+'], rest)
  | '-' :: rest => (['-'], rest)
  | cs          => ([], cs)

/-- A number may not run into a word. -/
def endNumber (taken : List Char) (kind : TokenKind) (rest : List Char) : NumberScan :=
  match rest with
  | c :: _ =>
    if isWordStart c then
      let (word, rest) := splitWhile isWordChar rest
      ⟨taken ++ word, rest, .error "identifier characters directly after a number"⟩
    else ⟨taken, rest, .ok kind⟩
  | [] => ⟨taken, [], .ok kind⟩

/-- Scan the exponent, if there is one, of a number of which `taken` has been read. -/
def scanExponent (taken : List Char) (kind : TokenKind) (rest : List Char) : NumberScan :=
  match rest with
  | e :: afterE =>
    if e == 'e' || e == 'E' then
      let sign := scanSign afterE
      let ds := splitWhile Char.isDigit sign.2
      let taken := taken ++ e :: sign.1 ++ ds.1
      if ds.1.isEmpty then ⟨taken, ds.2, .error "expected digits in exponent"⟩
      else endNumber taken .floatLiteral ds.2
    else endNumber taken kind (e :: afterE)
  | [] => ⟨taken, [], .ok kind⟩

/-- Scan a number: digits, a fraction and an exponent. -/
def scanNumber (cs : List Char) : NumberScan :=
  let whole := splitWhile Char.isDigit cs
  let fraction := scanFraction whole.2
  scanExponent (whole.1 ++ fraction.1)
    (if fraction.1.isEmpty then .intLiteral else .floatLiteral) fraction.2

/-! ## Punctuation -/

/-- Marks of two characters. They win over marks of one. -/
def pairMark : Char → Char → Option TokenKind
  | ':', ':' => some .colonColon
  | '-', '>' => some .arrow
  | '=', '=' => some .equalEqual
  | '!', '=' => some .bangEqual
  | '?', '?' => some .questionQuestion
  | _,   _   => none

def singleMark : Char → Option TokenKind
  | '{' => some .leftBrace
  | '}' => some .rightBrace
  | '(' => some .leftParen
  | ')' => some .rightParen
  | '[' => some .leftBracket
  | ']' => some .rightBracket
  | '<' => some .less
  | '>' => some .greater
  | ',' => some .comma
  | ';' => some .semicolon
  | '.' => some .dot
  | '#' => some .hash
  | '+' => some .plus
  | '*' => some .star
  | ':' => some .colon
  | '-' => some .minus
  | '=' => some .equal
  | '!' => some .bang
  | '?' => some .question
  | _   => none

/-! ## Tokens -/

/-- A token with the text it was cut from. -/
structure Lexeme where
  /-- The trivia before the token. -/
  skipped : List Char
  /-- The text of the token, also of an invalid one. -/
  stretch : List Char
  token : Token
  errors : List LexError

/-- A lexeme and the text after it. -/
structure Scan where
  lexeme : Lexeme
  rest : List Char

namespace Scan

/-- A token that is all of the stretch from `start`. -/
def valid (start : Place) (kind : TokenKind) (stretch rest : List Char) : Scan :=
  ⟨⟨[], stretch, ⟨kind, String.ofList stretch, start.spanOf stretch⟩, []⟩, rest⟩

/-- An invalid token where the last of `errors` is. -/
def invalid (errors : List LexError) (last : LexError) (stretch rest : List Char) : Scan :=
  ⟨⟨[], stretch, ⟨.invalid, "", last.span⟩, errors ++ [last]⟩, rest⟩

end Scan

/-- The token for a string that opened at `start` with the characters of `scan` behind `opening`. -/
def StringScan.toScan (start : Place) (kind : TokenKind) (s : StringScan) : Scan :=
  let stretch := s.taken.reverse
  let errors := s.errors.reverse
  match s.ending with
  | .closed =>
    if errors.isEmpty then .valid start kind stretch s.rest
    else ⟨⟨[], stretch, ⟨.invalid, "", start.upTo s.place⟩, errors⟩, s.rest⟩
  | .unterminated     => .invalid errors ⟨.unterminatedString, start.upTo s.place⟩ stretch s.rest
  | .openHole opening => .invalid errors ⟨.unterminatedHole, opening.upTo s.place⟩ stretch s.rest

def NumberScan.toScan (start : Place) (n : NumberScan) : Scan :=
  match n.kind with
  | .ok kind      => .valid start kind n.taken n.rest
  | .error detail => .invalid [] ⟨.invalidNumber detail, start.spanOf n.taken⟩ n.taken n.rest

/-- Scan a mark: the longest that comes next. -/
def scanMark (start : Place) (c : Char) (rest : List Char) : Scan :=
  let single : Scan :=
    match singleMark c with
    | some kind => .valid start kind [c] rest
    | none      => .invalid [] ⟨.unexpectedChar c, start.spanOf [c]⟩ [c] rest
  match rest with
  | d :: rest' =>
    match pairMark c d with
    | some kind => .valid start kind [c, d] rest'
    | none      => single
  | [] => single

/-- Cut the first token off the text `c :: rest` at `start`, which has no trivia in front. -/
def scanToken (start : Place) (c : Char) (rest : List Char) : Scan :=
  if c == '"' then
    (scanString .plain (start.next c) [c] [] rest).toScan start .stringLiteral
  else if c == '$' && rest.head? == some '"' then
    (scanString .text (start.after ['$', '"']) ['"', '$'] [] rest.tail).toScan start
      .interpolatedString
  else if c.isDigit then
    (scanNumber (c :: rest)).toScan start
  else if isWordStart c then
    let (word, rest) := splitWhile isWordChar (c :: rest)
    .valid start (.ofWord word) word rest
  else scanMark start c rest

/-! ## Progress -/

theorem length_skipTrivia_le (comment : Bool) (skipped cs : List Char) :
    (skipTrivia comment skipped cs).2.length ≤ cs.length := by
  fun_induction skipTrivia comment skipped cs <;> simp_all <;> omega

theorem length_scanString_le (mode : StringMode) (place : Place) (taken : List Char)
    (errors : List LexError) (cs : List Char) :
    (scanString mode place taken errors cs).rest.length ≤ cs.length := by
  fun_induction scanString mode place taken errors cs <;> simp_all <;> omega

theorem length_splitWhile_le (p : Char → Bool) (cs : List Char) :
    (splitWhile p cs).2.length ≤ cs.length :=
  (List.dropWhile_sublist p).length_le

theorem length_scanFraction_le (cs : List Char) : (scanFraction cs).2.length ≤ cs.length := by
  unfold scanFraction
  split
  · rename_i d rest
    split
    · have := length_splitWhile_le Char.isDigit (d :: rest)
      grind
    · simp
  · simp

theorem length_scanSign_le (cs : List Char) : (scanSign cs).2.length ≤ cs.length := by
  unfold scanSign
  split <;> simp

theorem length_endNumber_le (taken : List Char) (kind : TokenKind) (rest : List Char) :
    (endNumber taken kind rest).rest.length ≤ rest.length := by
  unfold endNumber
  split
  · rename_i c cs
    split
    · exact length_splitWhile_le isWordChar (c :: cs)
    · simp
  · simp

theorem length_scanExponent_le (taken : List Char) (kind : TokenKind) (rest : List Char) :
    (scanExponent taken kind rest).rest.length ≤ rest.length := by
  unfold scanExponent
  split
  · rename_i e afterE
    have hsign := length_scanSign_le afterE
    have hds := length_splitWhile_le Char.isDigit (scanSign afterE).2
    split
    · simp only [List.length_cons]
      split
      · simp only
        omega
      · exact Nat.le_trans (length_endNumber_le ..) (by omega)
    · exact length_endNumber_le ..
  · simp

/-- A number takes at least its first digit. -/
theorem length_scanNumber_le {c : Char} (hc : c.isDigit = true) (cs : List Char) :
    (scanNumber (c :: cs)).rest.length ≤ cs.length := by
  have hwhole : (splitWhile Char.isDigit (c :: cs)).2.length ≤ cs.length := by
    simp only [splitWhile, List.dropWhile_cons, hc, if_true]
    exact (List.dropWhile_sublist _).length_le
  unfold scanNumber
  exact Nat.le_trans (length_scanExponent_le ..) (Nat.le_trans (length_scanFraction_le _) hwhole)

theorem length_scanMark_le (start : Place) (c : Char) (rest : List Char) :
    (scanMark start c rest).rest.length ≤ rest.length := by
  unfold scanMark Scan.valid Scan.invalid
  grind

theorem rest_toScan (start : Place) (kind : TokenKind) (s : StringScan) :
    (s.toScan start kind).rest = s.rest := by
  unfold StringScan.toScan Scan.valid Scan.invalid
  grind

theorem NumberScan.rest_toScan (start : Place) (n : NumberScan) :
    (n.toScan start).rest = n.rest := by
  unfold NumberScan.toScan Scan.valid Scan.invalid
  grind

/-- A token takes at least one character. -/
theorem length_scanToken_le (start : Place) (c : Char) (rest : List Char) :
    (scanToken start c rest).rest.length ≤ rest.length := by
  unfold scanToken
  split
  · rw [rest_toScan]
    exact length_scanString_le ..
  split
  · rw [rest_toScan]
    exact Nat.le_trans (length_scanString_le ..) (by simp)
  split
  · rename_i hc
    rw [NumberScan.rest_toScan]
    exact length_scanNumber_le hc rest
  split
  · rename_i hc
    have hw : isWordChar c = true := by
      simp only [isWordStart, isWordChar, Char.isAlphanum, Bool.or_eq_true] at hc ⊢
      grind
    simp only [Scan.valid, splitWhile, List.dropWhile_cons, hw, if_true]
    exact (List.dropWhile_sublist _).length_le
  · exact length_scanMark_le ..

/-! ## Whole texts -/

/-- A text cut into lexemes. -/
structure Lexemes where
  lexemes : List Lexeme
  /-- The trivia after the last token. -/
  trailing : List Char
  /-- Where the text ends. -/
  finish : Place

/-- Cut `text`, which starts at `place`, and put the lexemes behind those of `out`, which is in
reverse. -/
def Lexemes.ofCharsOnto (out : List Lexeme) (place : Place) (text : List Char) : Lexemes :=
  match h : skipTrivia false [] text with
  | (skipped, [])        => ⟨out.reverse, skipped, place.after skipped⟩
  | (skipped, c :: rest) =>
    let scan := scanToken (place.after skipped) c rest
    have : scan.rest.length < text.length :=
      Nat.lt_of_le_of_lt (length_scanToken_le (place.after skipped) c rest) (by
        have := length_skipTrivia_le false [] text
        rwa [h] at this)
    ofCharsOnto ({ scan.lexeme with skipped } :: out)
      ((place.after skipped).after scan.lexeme.stretch) scan.rest
termination_by text.length

/-- Cut a text that starts at `place`. -/
def Lexemes.ofChars (place : Place) (text : List Char) : Lexemes := ofCharsOnto [] place text

end TypedTemplate
