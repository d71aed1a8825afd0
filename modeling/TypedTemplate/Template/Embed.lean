-- SUMMARY: Template text as the inside of an interpolated string literal.

/-!
# Embedding template text

Line breaks are dropped and quotes are escaped, so that the text can stand in a
literal. A doubled quote becomes a bare one again: in a hole it opens a string, as
in `model.Tag ?? ""none""`.
-/

namespace TypedTemplate.Embed

def isLineBreak (c : Char) : Bool := c == '\n' || c == '\r'

/-- Put a backslash before each quote. -/
def escapeQuotes (cs : List Char) : List Char :=
  cs.flatMap fun c => if c == '"' then ['\\', '"'] else [c]

/-- Replace two escaped quotes by a bare one, from left to right. `out` holds the text so far in
reverse. -/
def bareQuotesOnto (out : List Char) : List Char → List Char
  | '\\' :: '"' :: '\\' :: '"' :: rest => bareQuotesOnto ('"' :: out) rest
  | c :: rest                          => bareQuotesOnto (c :: out) rest
  | []                                 => out.reverse

def embedChars (cs : List Char) : List Char :=
  bareQuotesOnto [] (escapeQuotes (cs.filter (!isLineBreak ·)))

/-- The text as it stands in the literal. -/
def embed (text : String) : String := String.ofList (embedChars text.toList)

end TypedTemplate.Embed
