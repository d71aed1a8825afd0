-- SUMMARY: A text between quotes, with escapes for what cannot be shown as it is.
import TypedTemplate.Number.Digits
import TypedTemplate.Text.Quoted.Table

/-!
# Quoted text

`quoted` is how a string value is shown to a developer: between double quotes,
with the usual backslash escapes, and with the code point in braces for a
character that has no glyph or that would join the character before it.
-/

namespace TypedTemplate.Text

def isPrintable (c : Char) : Bool := !inTable unprintableTable c

def isExtender (c : Char) : Bool := inTable extenderTable c

/-- The code point of `c` as an escape: `\u`, an opening brace, hexadecimal digits, a closing brace. -/
def codePointEscape (c : Char) : List Char :=
  ['\\', 'u', '\x7b'] ++ Number.digits .lower 16 c.toNat ++ ['\x7d']

/-- What `c` is written as between quotes. -/
def quotedChar (c : Char) : List Char :=
  match c with
  | '\x00' => ['\\', '0']
  | '\t'   => ['\\', 't']
  | '\r'   => ['\\', 'r']
  | '\n'   => ['\\', 'n']
  | '"'    => ['\\', '"']
  | '\\'   => ['\\', '\\']
  | _      => if isExtender c || !isPrintable c then codePointEscape c else [c]

def quoted (s : String) : String :=
  String.ofList ('"' :: s.toList.flatMap quotedChar ++ ['"'])

end TypedTemplate.Text
