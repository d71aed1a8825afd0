-- SUMMARY: The unit parser accepts the unit grammar and gives the unit of the derivation.
import TypedTemplate.Proofs.Grammar.Declared

/-!
# Parsing units

A text is parsed as a unit when it lexes, its tokens derive from the start of the grammar with each
expression taken by the expression parser, and its edition is in range. The unit is that of the
derivation, of which there is only one.
-/

namespace TypedTemplate

namespace Grammar

open Parse

variable {g : Grammar} {finish : Place} {given mid rest : List Lexeme}

/-- The edition can be written. -/
def EditionFits (e? : Option Edition) : Prop := ∀ e ∈ e?, e.version ≤ maxEdition

/-- The symbols of the declarations of a unit. -/
def declaredSymbols (e? : Option Edition) (uses : List UseDecl) (ms : List ModuleDecl) :
    List Symbol :=
  (e?.map Edition.symbols).getD [] ++ uses.flatMap UseDecl.symbols ++ ms.flatMap ModuleDecl.symbols

theorem head_of_many {α : Type} {more : TokenKind → Bool} {item : Token → Parse α} {as : List α}
    (h : Many more item finish given as rest) :
    ∀ lexeme ∈ rest.head?, more lexeme.token.kind = false := by
  induction h with
  | nil hmore => exact hmore
  | cons _ _ _ ih => exact ih

theorem header_spells {e? : Option Edition} (h : header.Yields finish given e? rest) :
    Spells g given ((e?.map Edition.symbols).getD []) rest ∧ EditionFits e? := by
  obtain ⟨token, mid, hpeek, h⟩ := yields_bind.1 h
  obtain ⟨rfl, rfl⟩ := yields_peek.1 hpeek
  split at h
  case isTrue hhash =>
    obtain ⟨start, mid, rfl⟩ := exists_of_kind_nextToken (by decide) hhash
    obtain ⟨token, _, hadvance, h⟩ := yields_bind.1 h
    obtain ⟨rfl, rfl⟩ := yields_advance_cons.1 hadvance
    obtain ⟨e, rfl, hedition⟩ := yields_orRecover.1 h
    obtain ⟨hsymbols, hrange⟩ := edition_spells (g := g) hhash hedition
    exact ⟨hsymbols, by simpa [EditionFits] using hrange⟩
  case isFalse =>
    obtain ⟨rfl, rfl⟩ := yields_pure.1 h
    exact ⟨.nil, by simp [EditionFits]⟩

theorem declarations_spells {e? : Option Edition} {uses : List UseDecl} {ms : List ModuleDecl}
    (h : g.declarations.Yields finish given (e?, uses, ms) rest) :
    Spells g given (declaredSymbols e? uses ms) [] ∧ EditionFits e? ∧
      (∀ d ∈ uses, d.path.Named) ∧ ∀ m ∈ ms, m.Named := by
  obtain ⟨_, _, hheader, h⟩ := yields_bind.1 h
  obtain ⟨_, _, huses, h⟩ := yields_bind.1 h
  obtain ⟨_, rest', hms, h⟩ := yields_bind.1 h
  cases (yields_pure.1 h).1
  obtain ⟨hheaderSymbols, hfits⟩ := header_spells (g := g) hheader
  obtain ⟨husesSymbols, husesNamed⟩ := many_spells (g := g)
    (fun hmore => useDecl_spells (beq_iff_eq.1 hmore)) (yields_many.1 huses)
  have hmany := yields_many.1 hms
  obtain ⟨hmsSymbols, hmsNamed⟩ := many_spells (fun _ => moduleDecl_spells) hmany
  obtain rfl : rest' = [] := by
    cases rest' with
    | nil => rfl
    | cons lexeme rest' => exact absurd (head_of_many hmany lexeme rfl) (by decide)
  exact ⟨(hheaderSymbols.trans husesSymbols).trans hmsSymbols, hfits, husesNamed, hmsNamed⟩

/-- What comes next starts a declaration of a kind in `kinds`, or nothing comes. -/
def StartsWith (kinds : List TokenKind) (given : List Lexeme) : Prop :=
  ∀ lexeme ∈ given.head?, lexeme.token.kind ∈ kinds

theorem startsWith_modules {ms : List ModuleDecl}
    (h : Spells g given (ms.flatMap ModuleDecl.symbols) []) : StartsWith [.moduleWord] given := by
  cases ms with
  | nil =>
    obtain rfl := spells_nil.1 h
    simp [StartsWith]
  | cons m ms => exact h.head (P := (· ∈ [.moduleWord])) (by simp)

theorem startsWith_uses {uses : List UseDecl}
    (h : Spells g given (uses.flatMap UseDecl.symbols) mid)
    (hmid : StartsWith [.moduleWord] mid) : StartsWith [.useWord, .moduleWord] given := by
  cases uses with
  | nil =>
    obtain rfl := spells_nil.1 h
    exact fun lexeme hlexeme => List.mem_cons_of_mem _ (hmid lexeme hlexeme)
  | cons d uses => exact h.head (P := (· ∈ [.useWord, .moduleWord])) (by simp)

theorem exists_declarations (finish : Place) {e? : Option Edition} {uses : List UseDecl}
    {ms : List ModuleDecl} (hfits : EditionFits e?) (huses : ∀ d ∈ uses, d.path.Named)
    (hms : ∀ m ∈ ms, m.Named) (h : Spells g given (declaredSymbols e? uses ms) []) :
    ∃ e?' uses' ms', e?'.map Edition.bare = e?.map Edition.bare ∧
      uses'.map UseDecl.bare = uses.map UseDecl.bare ∧
        ms'.map ModuleDecl.bare = ms.map ModuleDecl.bare ∧
          g.declarations.Yields finish given (e?', uses', ms') [] := by
  obtain ⟨mid', h, hmodules⟩ := spells_append.1 h
  obtain ⟨mid, hheader, huse⟩ := spells_append.1 h
  have hstart' := startsWith_modules hmodules
  have hstart := startsWith_uses huse hstart'
  obtain ⟨ms', hbareModules, hmany'⟩ := exists_many finish
    (fun m hm {_ _} => begins_moduleDecl finish m (hms m hm)) hmodules (by simp)
  obtain ⟨uses', hbareUses, hmany⟩ := exists_many finish
    (fun d hd {_ _} => begins_useDecl finish d (huses d hd)) huse fun lexeme hlexeme => by
      simp [List.mem_singleton.1 (hstart' lexeme hlexeme)]
  have hdeclared {e?' : Option Edition} (he : header.Yields finish given e?' mid) :
      g.declarations.Yields finish given (e?', uses', ms') [] :=
    yields_bind.2 ⟨_, _, he, yields_bind.2 ⟨_, _, yields_many.2 hmany, yields_bind.2
      ⟨_, _, yields_many.2 hmany', yields_pure.2 ⟨rfl, rfl⟩⟩⟩⟩
  cases e? with
  | none =>
    -- without a header the first token is a keyword, so none is looked for
    obtain rfl := spells_nil.1 hheader
    refine ⟨none, uses', ms', rfl, hbareUses, hbareModules, hdeclared (header_of_ne_hash ?_)⟩
    intro lexeme hlexeme hhash
    have hmem := hstart lexeme hlexeme
    rw [hhash] at hmem
    exact absurd hmem (by decide)
  | some e =>
    obtain ⟨start, given', e', rfl, hhash, hbare, he⟩ :=
      exists_edition finish e hheader (hfits e rfl)
    exact ⟨some e', uses', ms', by simp [hbare], hbareUses, hbareModules,
      hdeclared (header_of_edition hhash he)⟩

/-- The number of a header is that of its lexemes. -/
theorem version_unique {e e' : Edition} {ss ss' : List Symbol} {rest' : List Lexeme}
    (h : Spells g given (e.symbols ++ ss) rest) (h' : Spells g given (e'.symbols ++ ss') rest') :
    e.version = e'.version := by
  simp only [Edition.symbols, List.cons_append, spells_mark, spells_name, spells_number] at h h'
  obtain ⟨_, _, rfl, -, _, _, rfl, -, _, _, rfl, -, _, _, rfl, -, _, _, rfl, -, _, _, rfl,
    ⟨-, hnumber⟩, -⟩ := h
  obtain ⟨_, _, heq, -, _, _, rfl, -, _, _, rfl, -, _, _, rfl, -, _, _, rfl, -, _, _, rfl,
    ⟨-, hnumber'⟩, -⟩ := h'
  cases heq
  exact hnumber.symm.trans hnumber'

/-- If one reading of the lexemes has an edition in range, every reading has. -/
theorem editionFits_of_spells {e? e?' : Option Edition} {uses uses' : List UseDecl}
    {ms ms' : List ModuleDecl} (hfits : EditionFits e?)
    (h : Spells g given (declaredSymbols e? uses ms) [])
    (h' : Spells g given (declaredSymbols e?' uses' ms') []) : EditionFits e?' := by
  rintro e' rfl
  have hhash : ∀ lexeme ∈ given.head?, lexeme.token.kind = .hash :=
    h'.head (P := (· = .hash)) rfl
  cases e? with
  | none =>
    obtain ⟨mid, huses, hms⟩ := spells_append.1 h
    have hstart := startsWith_uses huses (startsWith_modules hms)
    obtain ⟨lexeme, given, rfl, -⟩ := spells_mark.1 h'
    have hmem := hstart lexeme rfl
    rw [hhash lexeme rfl] at hmem
    exact absurd hmem (by decide)
  | some e =>
    simp only [declaredSymbols, Option.map_some, Option.getD_some, List.append_assoc] at h h'
    rw [← version_unique h h']
    exact hfits e rfl

end Grammar

/-! ## The theorem -/

namespace SourceUnit

open TypedTemplate.Expr (Lexes lexemesOf)

/-- The text is cut into lexemes that spell the symbols, with each expression taken by itself. -/
def Writes (text : String) (ss : List Symbol) : Prop :=
  Spells (Grammar.ofText text.length (Lexemes.ofChars .first text.toList).finish) (lexemesOf text)
    ss []

theorem parse_spells {text : String} {u : SourceUnit} (h : parse text = .ok u) :
    Lexes text ∧ Writes text u.symbols ∧ Grammar.EditionFits u.edition ∧ u.Named := by
  obtain ⟨e?, uses, ms, span⟩ := u
  obtain ⟨⟨rest, hyields⟩, hlexes⟩ := parse_eq_ok.1 ⟨span, h⟩
  obtain ⟨hsymbols, hfits, huses, hms⟩ := Grammar.declarations_spells hyields
  exact ⟨hlexes, hsymbols, hfits, huses, hms⟩

theorem exists_parse_of_writes {text : String} {t : SourceUnit} (hlexes : Lexes text)
    (hwrites : Writes text t.symbols) (hfits : Grammar.EditionFits t.edition) (ht : t.Named) :
    ∃ u, parse text = .ok u ∧ u.bare = t.bare := by
  obtain ⟨e?, uses, ms, hedition, huses, hms, hyields⟩ := Grammar.exists_declarations
    (Lexemes.ofChars .first text.toList).finish hfits ht.uses ht.modules hwrites
  obtain ⟨span, h⟩ := parse_eq_ok.2 ⟨⟨[], hyields⟩, hlexes⟩
  exact ⟨_, h, by simp [bare, hedition, huses, hms]⟩

/-- A text is a unit when it lexes, derives from the start of the grammar with each expression
taken by the expression parser, and has no edition out of range. Then the unit is that of the
derivation, its places aside, and there is no other derivation. So parsing undoes printing: a text
that prints a unit without places is parsed as that unit, and a text that is parsed prints its
unit. -/
theorem parse_iff_derivesUnit (text : String) :
    ((∃ u, parse text = .ok u) ↔
      Lexes text ∧ ∃ ss t, Writes text ss ∧ DerivesUnit ss t ∧ Grammar.EditionFits t.edition) ∧
    (∀ u, parse text = .ok u → ∀ ss t,
      Writes text ss ∧ DerivesUnit ss t ↔ ss = u.symbols ∧ t = u.bare) ∧
    (∀ t, t.bare = t → t.Named → Grammar.EditionFits t.edition → Lexes text →
      Writes text t.symbols → ∃ u, parse text = .ok u ∧ u.bare = t) ∧
    ∀ u, parse text = .ok u → u.Named ∧ Grammar.EditionFits u.edition ∧ Writes text u.symbols := by
  refine ⟨⟨?_, ?_⟩, ?_, ?_, ?_⟩
  · rintro ⟨u, hu⟩
    obtain ⟨hlexes, hwrites, hfits, hnamed⟩ := parse_spells hu
    refine ⟨hlexes, u.symbols, u.bare, hwrites, hnamed.derives, ?_⟩
    simpa [Grammar.EditionFits, bare, Edition.bare] using hfits
  · rintro ⟨hlexes, ss, t, hwrites, hderives, hfits⟩
    obtain ⟨rfl, -, hnamed⟩ := derivesUnit_iff.1 hderives
    obtain ⟨u, hu, -⟩ := exists_parse_of_writes hlexes hwrites hfits hnamed
    exact ⟨u, hu⟩
  · intro u hu ss t
    obtain ⟨hlexes, hwrites, hfits, hnamed⟩ := parse_spells hu
    constructor
    · rintro ⟨hwrites', hderives⟩
      obtain ⟨rfl, hbare, hnamed'⟩ := derivesUnit_iff.1 hderives
      -- The other unit is printed by the text as well, so parsing gives it back too.
      have hfits' := Grammar.editionFits_of_spells hfits hwrites hwrites'
      obtain ⟨u', hu', hbare'⟩ := exists_parse_of_writes hlexes hwrites' hfits' hnamed'
      cases hu.symm.trans hu'
      rw [hbare] at hbare'
      subst hbare'
      exact ⟨(derivesUnit_iff.1 hnamed.derives).1.symm, rfl⟩
    · rintro ⟨rfl, rfl⟩
      exact ⟨hwrites, hnamed.derives⟩
  · intro t hbare hnamed hfits hlexes hwrites
    obtain ⟨u, hu, hbare'⟩ := exists_parse_of_writes hlexes hwrites hfits hnamed
    exact ⟨u, hu, hbare'.trans hbare⟩
  · intro u hu
    obtain ⟨-, hwrites, hfits, hnamed⟩ := parse_spells hu
    exact ⟨hnamed, hfits, hwrites⟩

/-- A unit with a header, a namespace and a function of two parameters. -/
def boxText : String :=
  "#![edition = 1] use app; module M \x7b type T \x7b fn F(x: app::Box<int, string>, n: int) -> " ++
    "string \x7b let y = x ?? n; return y; \x7d \x7d \x7d"

theorem parse_iff_derivesUnit_box : Lexes boxText ∧ ∃ u, parse boxText = .ok u ∧
    Writes boxText u.symbols ∧ DerivesUnit u.symbols u.bare := by
  have hchars : boxText.toList = _ := toList_append_of_eq_ofList rfl rfl
  have hok : (parse boxText).isOk = true := by
    rw [parse, ← String.length_toList, hchars]
    decide +kernel
  cases hu : parse boxText with
  | error errors =>
    rw [hu] at hok
    cases hok
  | ok u =>
    obtain ⟨haccepts, hunique, -, -⟩ := parse_iff_derivesUnit boxText
    exact ⟨(haccepts.1 ⟨u, hu⟩).1, u, rfl, (hunique u hu _ _).2 ⟨rfl, rfl⟩⟩

end SourceUnit

end TypedTemplate
