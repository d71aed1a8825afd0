-- SUMMARY: White space characters and their removal from the ends of a text.
import TypedTemplate.Text.CodePoints

/-!
# Blank characters

`isBlank` is the White_Space property: the separators of every script and the
control characters that move to another position. It decides which characters
the unit language skips, which ones `trim` removes and which ones a model's
type name may contain without effect.
-/

namespace TypedTemplate.Text

def blankTable : Array CodeRange :=
  #[⟨0x9, 0xD⟩, ⟨0x20, 0x20⟩, ⟨0x85, 0x85⟩, ⟨0xA0, 0xA0⟩, ⟨0x1680, 0x1680⟩,
   ⟨0x2000, 0x200A⟩, ⟨0x2028, 0x2029⟩, ⟨0x202F, 0x202F⟩, ⟨0x205F, 0x205F⟩,
   ⟨0x3000, 0x3000⟩]

/-- Whether `c` has the White_Space property. -/
def isBlank (c : Char) : Bool := inTable blankTable c

/-- Drop the blank characters at both ends. -/
def trimChars (cs : List Char) : List Char :=
  ((cs.dropWhile isBlank).reverse.dropWhile isBlank).reverse

/-- Drop the blank characters at both ends. -/
def trim (s : String) : String := String.ofList (trimChars s.toList)

theorem isBlank_of_isWhitespace {c : Char} (h : c.isWhitespace = true) : isBlank c = true := by
  simp only [Char.isWhitespace, Bool.or_eq_true, decide_eq_true_eq] at h
  rcases h with ((h | h) | h) | h <;> subst h <;> decide

end TypedTemplate.Text
