-- SUMMARY: Cutting the body of an interpolated string into text and holes.
import TypedTemplate.Source.Place

/-!
# Holes

The body of an interpolated string is cut twice: first into text and holes, then
each hole into its expression and its format specifier. Both cuts look at
characters only. A hole ends at the first closing brace outside quotes. Its
specifier starts at the first colon outside quotes and parentheses that
neither is half of a `::` nor belongs to a conditional.
-/

namespace TypedTemplate

/-- The character that a backslash and `c` stand for. -/
def resolveEscape : Char → Char
  | 'n' => '\n'
  | 'r' => '\r'
  | 't' => '\t'
  | '0' => '\x00'
  | c   => c

/-- Resolve the escapes of a string's body and put the result behind `out`, which is in reverse. -/
def unescapeOnto (out : List Char) : List Char → List Char
  | '\\' :: c :: rest => unescapeOnto (resolveEscape c :: out) rest
  | ['\\']            => out.reverse
  | c :: rest         => unescapeOnto (c :: out) rest
  | []                => out.reverse

/-- Resolve the escapes of a string's body. -/
def unescape (body : List Char) : List Char := unescapeOnto [] body

/-- A piece of the body of an interpolated string. -/
inductive Piece where
  /-- Text with its escapes and doubled braces resolved. -/
  | text (cs : List Char)
  /-- The text between the braces of the hole that opens at `place`. -/
  | hole (place : Place) (cs : List Char)
deriving DecidableEq, Repr

/-- Where in a body the cut is. Characters of the current piece are held in reverse. -/
inductive PieceMode where
  | text (cs : List Char)
  | hole (opening : Place) (cs : List Char) (quoted : Bool)

/-- The pieces of `out` with the current one on top. Empty text is no piece. -/
def PieceMode.finish (out : List Piece) : PieceMode → List Piece
  | .text []             => out
  | .text cs             => .text cs.reverse :: out
  | .hole opening cs _ => .hole opening cs.reverse :: out

/-- Cut the rest of a body at `place`. The pieces before the current one are in `out`, last first. -/
def cutPieces (out : List Piece) (mode : PieceMode) (place : Place) : List Char → List Piece
  | [] => (mode.finish out).reverse
  | c :: rest =>
    match mode with
    | .text cs =>
      if c == '\\' || (c == '{' && rest.head? == some '{') || (c == '}' && rest.head? == some '}') then
        match rest with
        | d :: rest' =>
          cutPieces out (.text ((if c == '\\' then resolveEscape d else d) :: cs))
            (place.after [c, d]) rest'
        | [] => (PieceMode.finish out (.text (c :: cs))).reverse
      else if c == '{' then
        cutPieces (PieceMode.finish out (.text cs)) (.hole place [] false) (place.next c) rest
      else cutPieces out (.text (c :: cs)) (place.next c) rest
    | .hole opening cs quoted =>
      if quoted && c == '\\' then
        match rest with
        | d :: rest' => cutPieces out (.hole opening (d :: c :: cs) quoted) (place.after [c, d]) rest'
        | []         => (PieceMode.finish out (.hole opening (c :: cs) quoted)).reverse
      else if c == '"' then
        cutPieces out (.hole opening (c :: cs) (!quoted)) (place.next c) rest
      else if c == '}' && !quoted then
        cutPieces (.hole opening cs.reverse :: out) (.text []) (place.next c) rest
      else cutPieces out (.hole opening (c :: cs) quoted) (place.next c) rest

/-- The pieces of a body that starts at `place`. -/
def pieces (place : Place) (body : List Char) : List Piece := cutPieces [] (.text []) place body

/-- Where in a hole the search for the specifier's colon is. -/
structure ColonSearch where
  /-- Open parentheses. -/
  depth : Nat
  /-- Conditionals whose colon is still to come. -/
  pending : Nat
  quoted : Bool

/-- Cut a hole's text at the colon of its specifier, if there is one. The characters before are put,
in reverse, onto `before`. -/
def splitFormatFrom (s : ColonSearch) (before : List Char) :
    List Char → List Char × Option (List Char)
  | [] => (before.reverse, none)
  | c :: rest =>
    let double :=
      if s.quoted then c == '\\'
      else (c == '?' || c == ':') && rest.head? == some c
    if double then
      match rest with
      | d :: rest' => splitFormatFrom s (d :: c :: before) rest'
      | []         => ((c :: before).reverse, none)
    else if c == '"' then splitFormatFrom { s with quoted := !s.quoted } (c :: before) rest
    else if s.quoted then splitFormatFrom s (c :: before) rest
    else if c == '(' then splitFormatFrom { s with depth := s.depth + 1 } (c :: before) rest
    else if c == ')' then splitFormatFrom { s with depth := s.depth - 1 } (c :: before) rest
    else if c == '?' && s.depth == 0 then
      splitFormatFrom { s with pending := s.pending + 1 } (c :: before) rest
    else if c == ':' && s.depth == 0 then
      if s.pending == 0 then (before.reverse, some rest)
      else splitFormatFrom { s with pending := s.pending - 1 } (c :: before) rest
    else splitFormatFrom s (c :: before) rest

/-- The expression of a hole and, if there is one, the specifier behind the colon. -/
def splitFormat (cs : List Char) : List Char × Option (List Char) :=
  splitFormatFrom ⟨0, 0, false⟩ [] cs

end TypedTemplate
