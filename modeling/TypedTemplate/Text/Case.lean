-- SUMMARY: Upper and lower case forms of a text under the full Unicode mappings.
import TypedTemplate.Text.Case.Table

/-!
# Case mapping

`upper` and `lower` use the full mappings, so one character may become several
(`ß` becomes `SS`). The lower case of a capital sigma depends on where it
stands: at the end of a word it is `ς`, elsewhere `σ`.
-/

namespace TypedTemplate.Text

/-- The case form of `c` under the given runs and expansions; a character in neither is its own. -/
def caseForm (runs : Array CaseRun) (expansions : Array CaseExpansion) (c : Char) : List Char :=
  match findRange? (fun e => ⟨e.code, e.code⟩) expansions c.toNat with
  | some e => e.forms.map Char.ofNat
  | none   =>
    match findRange? CaseRun.range runs c.toNat with
    | some run =>
      if (c.toNat - run.range.first) % run.step == 0 then [Char.ofNat (c.toNat + run.shift).toNat]
      else [c]
    | none     => [c]

def upperChar (c : Char) : List Char :=
  if c.toNat < 0x80 then [c.toUpper] else caseForm upperRuns upperExpansions c

def lowerChar (c : Char) : List Char :=
  if c.toNat < 0x80 then [c.toLower] else caseForm lowerRuns lowerExpansions c

def isCased (c : Char) : Bool := inTable casedTable c

def isCaseIgnorable (c : Char) : Bool := inTable caseIgnorableTable c

/-- Whether the first character that is not skipped is a letter with case. -/
def startsCased (cs : List Char) : Bool :=
  match cs.dropWhile isCaseIgnorable with
  | c :: _ => isCased c
  | []     => false

/-- The lower case of a capital sigma between `before`, nearest character first, and `after`:
the final form when a letter precedes and none follows. -/
def lowerSigma (before after : List Char) : Char :=
  if startsCased before && !startsCased after then 'ς' else 'σ'

/-- Lower case of the second list, the first being what stands before it, nearest first.
The result is built in reverse onto `out`. -/
def lowerOnto (out before : List Char) : List Char → List Char
  | []      => out.reverse
  | c :: cs =>
    let form := if c == 'Σ' then [lowerSigma before cs] else lowerChar c
    lowerOnto (form.reverse ++ out) (c :: before) cs

def upper (s : String) : String := String.ofList (s.toList.flatMap upperChar)

def lower (s : String) : String := String.ofList (lowerOnto [] [] s.toList)

end TypedTemplate.Text
