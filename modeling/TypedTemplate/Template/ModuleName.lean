-- SUMMARY: Template ids as names of modules, and back.
import TypedTemplate.Fault.Rendering
import TypedTemplate.Number.Hex

/-!
# Module names

The module generated for a template is named after its id. ASCII letters and digits
stand for themselves. Every other character becomes an escape that starts with an
underscore: the common separators have one letter each, and the rest are written
as `_xHEX_` with the code point in upper case. No id is the start of two names, so
the name gives the id back.
-/

namespace TypedTemplate.ModuleName

/-- What every module name starts with. -/
def start : List Char := "Stencil_".toList

/-- What follows the module's name in the name of its type. -/
def typeEnding : String := "TemplateGenerator"

/-- The characters that have an escape of one letter. -/
def letterOf? : Char → Option Char
  | '/'  => some '_'
  | '.'  => some 'd'
  | '\\' => some 'b'
  | '_'  => some 'u'
  | '-'  => some 'h'
  | _    => none

/-- The character with a given escape. -/
def ofLetter? : Char → Option Char
  | '_' => some '/'
  | 'd' => some '.'
  | 'b' => some '\\'
  | 'u' => some '_'
  | 'h' => some '-'
  | _   => none

def encodeChar (c : Char) : List Char :=
  if c.isAlphanum then [c] else
  match letterOf? c with
  | some letter => ['_', letter]
  | none        => '_' :: 'x' :: Number.digits .upper 16 c.toNat ++ ['_']

def encode (cs : List Char) : List Char := start ++ cs.flatMap encodeChar

/-- Read escapes. `out` holds the characters so far in reverse, and `code` does so for the digits
of the code point that is being read, if one is. The end of the text also ends a code point. -/
def decodeOnto (out : List Char) : Option (List Char) → List Char → Option (List Char)
  | some code, [] =>
    match Number.hexChar? code.reverse with
    | some c => some (c :: out).reverse
    | none   => none
  | some code, '_' :: rest =>
    match Number.hexChar? code.reverse with
    | some c => decodeOnto (c :: out) none rest
    | none   => none
  | some code, d :: rest       => decodeOnto out (some (d :: code)) rest
  | none, []                   => some out.reverse
  | none, '_' :: 'x' :: rest   => decodeOnto out (some []) rest
  | none, '_' :: letter :: rest =>
    match ofLetter? letter with
    | some c => decodeOnto (c :: out) none rest
    | none   => none
  | none, ['_']                => none
  | none, c :: rest            => decodeOnto (c :: out) none rest

def decode (cs : List Char) : Option (List Char) :=
  if !start.isPrefixOf cs then none else
  match decodeOnto [] none (cs.drop start.length) with
  | some []  => none
  | result   => result

/-- The name of the module generated for a template. -/
def ofId (id : String) : Except SynthesisError String :=
  if id.isEmpty then .error .emptyTemplateId else .ok (String.ofList (encode id.toList))

/-- The id of the template that a module was generated for. -/
def id? (name : String) : Option String := (decode name.toList).map String.ofList

/-- The name of the type in a module. -/
def typeName (module : String) : String := module ++ typeEnding

/-- The name of the type in a module, with the module. -/
def typePath (module : String) : String := module ++ "::" ++ typeName module

/-- The name by which the type generated for a template is found. -/
def typePathOfId (id : String) : Except SynthesisError String := (ofId id).map typePath

end TypedTemplate.ModuleName
