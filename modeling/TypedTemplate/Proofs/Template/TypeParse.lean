-- SUMMARY: The accepted spellings that parse as a type are those that are clear.
import TypedTemplate.Proofs.Grammar.Spells
import TypedTemplate.Proofs.Template.Spelling

/-!
# Spellings that parse

A spelling has no trivia, so its tokens are all of its text, and the parse of a type prints the
tokens it took. An accepted spelling that parses in full is therefore the text of the parsed type,
and it parses just when it is clear.
-/

namespace TypedTemplate

open Grammar

/-! ## Texts of symbols -/

/-- How the marks of a type are spelled. -/
def TokenKind.typeMark? : TokenKind → Option (List Char)
  | .colonColon => some [':', ':']
  | .less       => some ['<']
  | .greater    => some ['>']
  | .comma      => some [',']
  | _           => none

/-- How the symbols of a type are spelled. -/
def Symbol.chars? : Symbol → Option (List Char)
  | .mark kind => kind.typeMark?
  | .name x    => some x.toList
  | _          => none

/-- One behind the other the symbols are spelled `cs`. -/
inductive Write : List Symbol → List Char → Prop where
  | nil : Write [] []
  | cons {s : Symbol} {ss : List Symbol} {w cs : List Char} :
      s.chars? = some w → Write ss cs → Write (s :: ss) (w ++ cs)

theorem Write.append {ss ss' : List Symbol} {cs cs' : List Char} (h : Write ss cs)
    (h' : Write ss' cs') : Write (ss ++ ss') (cs ++ cs') := by
  induction h with
  | nil => exact h'
  | cons hs _ ih =>
    rw [List.cons_append, List.append_assoc]
    exact .cons hs ih

/-- Marks are spelled in one way. -/
theorem Spelled.eq_of_typeMark {kind : TokenKind} {stretch rest w : List Char}
    (h : Spelled kind stretch rest) (hw : kind.typeMark? = some w) : stretch = w := by
  cases h with
  | string | interpolated => cases hw
  | number hnumber => rcases hnumber with rfl | rfl <;> cases hw
  | word =>
    rcases TokenKind.ofWord_eq stretch with hword | hword
    · rw [hword] at hw
      cases hw
    · have hnone := (by decide : ∀ v ∈ TokenKind.keywords, v.2.typeMark? = none) _ hword
      rw [hnone] at hw
      cases hw
  | pair hpair =>
    unfold pairMark at hpair
    split at hpair <;> cases hpair <;> cases hw
    rfl
  | mark hmark =>
    unfold singleMark at hmark
    split at hmark <;> cases hmark <;> cases hw <;> rfl

/-- The text of the lexeme is the spelling of its mark. -/
def Lexeme.Marked (lexeme : Lexeme) : Prop :=
  ∀ w, lexeme.token.kind.typeMark? = some w → lexeme.token.lexeme.toList = w

theorem Lexemes.marked {place : Place} {text : List Char}
    (h : ∀ lexeme ∈ (ofChars place text).lexemes, lexeme.errors = []) :
    ∀ lexeme ∈ (ofChars place text).lexemes, lexeme.Marked := by
  have hspelled := forall_mem_ofChars (P := fun lexeme => lexeme.errors = [] →
    ∀ w, lexeme.token.kind.typeMark? = some w → lexeme.stretch = w)
    (fun _ _ _ _ herrors _ hw => (spelled_scanToken herrors).eq_of_typeMark hw) place text
  intro lexeme hlexeme w hw
  have hkind : lexeme.token.kind ≠ .invalid := by
    intro hkind
    rw [hkind] at hw
    cases hw
  rw [verbatim place text lexeme hlexeme hkind, String.toList_ofList]
  exact hspelled lexeme hlexeme (h lexeme hlexeme) w hw

/-- Lexemes that spell symbols have the text of these. -/
theorem Spells.flatMap_lexeme {g : Grammar} {given rest : List Lexeme} {ss : List Symbol}
    {cs : List Char} (h : Spells g given ss rest) (hcs : Write ss cs)
    (hgiven : ∀ lexeme ∈ given, lexeme.Marked) :
    given.flatMap (·.token.lexeme.toList) = cs ++ rest.flatMap (·.token.lexeme.toList) := by
  induction h generalizing cs with
  | nil =>
    cases hcs
    rfl
  | @token lexeme given rest s ss hs _ ih =>
    cases hcs with
    | cons hw hcs =>
      obtain ⟨hmarked, hgiven⟩ := List.forall_mem_cons.1 hgiven
      rw [List.flatMap_cons, ih hcs hgiven, List.append_assoc]
      congr 1
      cases s with
      | mark kind => exact hmarked _ (by rw [(hs : lexeme.token.kind = kind)]; exact hw)
      | name x =>
        cases hw
        rw [hs.2]
      | number n => cases hw
      | expr e => cases hw
  | expr => cases hcs with | cons hw => cases hw

/-! ## Texts of types -/

theorem Path.Named.write {p : Path} (h : p.Named) : Write p.symbols p.text.toList := by
  obtain ⟨segments, span⟩ := p
  obtain ⟨x, xs, rfl⟩ := List.exists_cons_of_ne_nil h
  rw [symbols_path, Path.text]
  clear h
  induction xs generalizing x with
  | nil =>
    have hname := Write.cons (s := .name x.name) rfl .nil
    simpa [segmentSymbols, String.intercalate_singleton] using hname
  | cons y ys ih =>
    have hrest := Write.cons (s := .name x.name) rfl (.cons (s := .mark .colonColon) rfl (ih y))
    rw [List.map_cons, List.map_cons, toList_path]
    exact hrest

mutual

theorem TypeRef.Named.write {t : TypeRef} (h : t.Named) : Write t.symbols t.text.toList := by
  cases t with
  | mk p args span =>
    cases args with
    | nil =>
      rw [TypeRef.symbols, TypeRef.text]
      exact h.1.write
    | cons a as =>
      have hclose : Write [.mark .greater] ['>'] := .cons (w := ['>']) rfl .nil
      have hargs := (TypeRef.AllNamed.write h.2).append hclose
      rw [List.append_assoc] at hargs
      rw [TypeRef.symbols, TypeRef.toList_text_cons, List.append_assoc]
      exact h.1.write.append (.cons (w := ['<']) rfl hargs)
termination_by sizeOf t

theorem TypeRef.AllNamed.write {a : TypeRef} {as : List TypeRef} (h : TypeRef.AllNamed (a :: as)) :
    Write (TypeRef.listSymbols (a :: as)) (a.text.toList ++ as.flatMap (',' :: ·.text.toList)) := by
  cases as with
  | nil =>
    rw [TypeRef.listSymbols, List.flatMap_nil, List.append_nil]
    exact h.1.write
  | cons b bs =>
    rw [TypeRef.listSymbols, List.flatMap_cons]
    exact h.1.write.append (.cons (w := [',']) rfl (TypeRef.AllNamed.write h.2))
termination_by sizeOf (a :: as)

end

namespace Spelling

/-- The text is cut without faults and parses as a type, with nothing behind it. -/
def IsType (text : String) : Prop :=
  (∀ lexeme ∈ (Lexemes.ofChars .first text.toList).lexemes, lexeme.errors = []) ∧
    ∃ t, Parse.Yields (fun finish given => typeRef finish given)
      (Lexemes.ofChars .first text.toList).finish (Lexemes.ofChars .first text.toList).lexemes t []

theorem counts_of_isNameChar {c : Char} (h : isNameChar c = true) : Counts c := by
  rcases isNameChar_cases h with hword | rfl | rfl | rfl | rfl
  · exact (opens_of_isWordChar hword).1
  all_goals decide

/-- An accepted spelling parses as a type just when it is clear. -/
theorem isType_iff {raw name : String} (h : normalize raw = some name) :
    IsType name ↔ Clear name.toList := by
  constructor
  · rintro ⟨herrors, t, ht⟩
    have hnames : t.AllNames IsWord := Names.typeRef (names_ofChars herrors) ht
    obtain ⟨hspells, hnamed⟩ := typeRef_spells (g := ⟨.first, fun _ => ⟨[], []⟩⟩) ht
    have hlexemes := hspells.flatMap_lexeme hnamed.write (Lexemes.marked herrors)
    have hstretches := Lexemes.flatMap_stretch
      (fun c hc => counts_of_isNameChar ((normalize_eq_some h).1 c hc)) .first
    have hverbatim : (Lexemes.ofChars .first name.toList).lexemes.flatMap (·.token.lexeme.toList) =
        (Lexemes.ofChars .first name.toList).lexemes.flatMap (·.stretch) := by
      refine List.flatMap_congr fun lexeme hlexeme => ?_
      have hkind : lexeme.token.kind ≠ .invalid := fun hkind =>
        (Lexemes.sound _ _ lexeme hlexeme).1 hkind (herrors lexeme hlexeme)
      rw [Lexemes.verbatim _ _ lexeme hlexeme hkind, String.toList_ofList]
    have htext : t.text.toList ++ [] = name.toList := by
      rw [← hstretches, ← hverbatim, hlexemes]
      rfl
    rw [← htext]
    exact clear_text hnames (by simp) clear_nil
  · intro hclear
    obtain ⟨t, ht, rfl⟩ := exists_typeRef h hclear
    have hcuts : Cuts (t.text.toList ++ []) t.forms [] := ht.cuts (by simp)
    rw [List.append_nil] at hcuts
    refine ⟨hcuts.errors_eq_nil (fun f hf => (ht.plain_forms f hf).1) .first, ?_⟩
    have hforms : HaveForms (fun _ => True) (t.forms ++ [])
        (Lexemes.ofChars .first t.text.toList).lexemes :=
      ⟨by rw [List.append_nil, hcuts.forms_eq], fun _ _ => trivial⟩
    obtain ⟨t', rest, ht', hrest, -⟩ := ht.taken (by simp [EndsPath]) _ _ hforms
    obtain rfl : rest = [] := List.map_eq_nil_iff.1 hrest.forms
    exact ⟨t', ht'⟩

end Spelling

end TypedTemplate
