-- SUMMARY: How a whole generated unit is cut and parsed, where its model type is a path of identifiers.
import TypedTemplate.Grammar.Standalone
import TypedTemplate.Proofs.Grammar.Takes
import TypedTemplate.Proofs.Template.Generated
import TypedTemplate.Proofs.Template.Hole
import TypedTemplate.Typing.Registry

/-!
# Written units

With the default namespaces and a model type whose name is a path of identifiers, all
tokens of a generated unit are known as soon as the template's literal is one token. So
the unit is parsed as one module with one type, whose one function returns the segments
of the template.
-/

namespace TypedTemplate

/-! ## Paths of identifiers -/

/-- The names of a path are identifiers. -/
def AreIdentifiers (xs : List String) : Prop := ∀ x ∈ xs, IsIdentifier x

theorem IsIdentifier.exists_cons {x : String} (h : IsIdentifier x) :
    ∃ c cs, x.toList = c :: cs ∧ isWordStart c = true ∧ ∀ d ∈ cs, isWordChar d = true := by
  obtain ⟨⟨c, hc, hstart⟩, hword, -⟩ := h
  cases hx : x.toList with
  | nil => simp [hx] at hc
  | cons d cs =>
    obtain rfl : d = c := by simpa [hx] using hc
    exact ⟨d, cs, rfl, hstart, fun e he => hword e (hx ▸ List.mem_cons_of_mem _ he)⟩

theorem toList_path (x y : String) (ys : List String) :
    ("::".intercalate (x :: y :: ys)).toList =
      x.toList ++ ':' :: ':' :: ("::".intercalate (y :: ys)).toList := by
  rw [String.intercalate_cons_cons]
  simp [String.toList_append]

/-- A path is made of its names' characters and colons. -/
theorem AreIdentifiers.chars {x : String} {xs : List String} (h : AreIdentifiers (x :: xs)) :
    ∀ c ∈ ("::".intercalate (x :: xs)).toList, isWordChar c = true ∨ c = ':' := by
  have hx := (h x List.mem_cons_self).2.1
  induction xs generalizing x with
  | nil =>
    rw [String.intercalate_singleton]
    exact fun c hc => .inl (hx c hc)
  | cons y ys ih =>
    have htail : AreIdentifiers (y :: ys) := fun z hz => h z (List.mem_cons_of_mem x hz)
    rw [toList_path]
    intro c hc
    rcases List.mem_append.1 hc with hc | hc
    · exact .inl (hx c hc)
    · simp only [List.mem_cons] at hc
      rcases hc with rfl | rfl | hc
      · exact .inr rfl
      · exact .inr rfl
      · exact ih htail (htail y List.mem_cons_self).2.1 c hc

namespace Spelling

theorem mem_of_occurs {word cs : List Char} (h : occurs word cs = true) : ∀ c ∈ word, c ∈ cs := by
  induction cs with
  | nil =>
    obtain rfl : word = [] := by simpa [occurs] using h
    exact fun c hc => hc
  | cons d cs ih =>
    simp only [occurs, Bool.or_eq_true, List.isPrefixOf_iff_prefix] at h
    rcases h with h | h
    · exact fun c hc => h.subset hc
    · exact fun c hc => List.mem_cons_of_mem d (ih h c hc)

theorem isPathFrom_wordChar {depth : Nat} {fresh : Bool} {c : Char} {cs : List Char}
    (hc : isWordChar c = true) (hfresh : fresh = true → c.isDigit = false) :
    isPathFrom depth fresh (c :: cs) = isPathFrom depth false cs := by
  have hdigit : (fresh && c.isDigit) = false := by
    cases hf : fresh with
    | false => rfl
    | true => simp [hfresh hf]
  rw [isPathFrom.eq_def]
  split
  case h_7 heq =>
    obtain ⟨rfl, rfl⟩ := List.cons.inj heq
    simp [hdigit]
  all_goals simp_all [isWordChar]

theorem isPathFrom_word {depth : Nat} {cs rest : List Char} (h : ∀ c ∈ cs, isWordChar c = true) :
    isPathFrom depth false (cs ++ rest) = isPathFrom depth false rest := by
  induction cs with
  | nil => rfl
  | cons c cs ih =>
    rw [List.cons_append, isPathFrom_wordChar (h c List.mem_cons_self) (by simp),
      ih fun d hd => h d (List.mem_cons_of_mem c hd)]

theorem isPathFrom_identifier {depth : Nat} {x : String} {rest : List Char} (h : IsIdentifier x) :
    isPathFrom depth true (x.toList ++ rest) = isPathFrom depth false rest := by
  obtain ⟨c, cs, hx, hstart, hword⟩ := h.exists_cons
  rw [hx, List.cons_append, isPathFrom_wordChar (isWordChar_of_isWordStart hstart)
    fun _ => isDigit_of_isWordStart hstart, isPathFrom_word hword]

theorem isPath_path {x : String} {xs : List String} (h : AreIdentifiers (x :: xs)) :
    isPath ("::".intercalate (x :: xs)).toList = true := by
  unfold isPath
  have hx := h x List.mem_cons_self
  induction xs generalizing x with
  | nil =>
    have hpath : isPathFrom 0 true (x.toList ++ []) = isPathFrom 0 false [] := isPathFrom_identifier hx
    rw [String.intercalate_singleton, ← List.append_nil x.toList, hpath]
    rfl
  | cons y ys ih =>
    have htail : AreIdentifiers (y :: ys) := fun z hz => h z (List.mem_cons_of_mem x hz)
    rw [toList_path, isPathFrom_identifier hx, isPathFrom]
    exact ih htail (htail y List.mem_cons_self)

theorem isBlank_of_isNameChar {c : Char} (hc : isNameChar c = true) : Text.isBlank c = false := by
  simp only [isNameChar, Bool.or_eq_true, beq_iff_eq] at hc
  rcases hc with (((hc | rfl) | rfl) | rfl) | rfl
  · have hopens := (opens_of_isWordChar hc).1.1
    simp only [isSpace, Bool.or_eq_false_iff] at hopens
    exact hopens.2
  all_goals decide

/-- What is spelled already is spelled as it stands. -/
theorem normalize_of_isPath {name : String} (hchars : ∀ c ∈ name.toList, isNameChar c = true)
    (hpath : isPath name.toList = true) : normalize name = some name := by
  have hblank : ∀ c ∈ name.toList, Text.isBlank c = false :=
    fun c hc => isBlank_of_isNameChar (hchars c hc)
  have hoccurs : ∀ word, ' ' ∈ word → occurs word name.toList = false := by
    intro word hword
    refine Bool.eq_false_iff.2 fun h => ?_
    exact absurd (hblank ' ' (mem_of_occurs h ' ' hword)) (by decide)
  have hfilter : name.toList.filter (!Text.isBlank ·) = name.toList :=
    List.filter_eq_self.2 fun c hc => by simp [hblank c hc]
  have hall : name.toList.all isNameChar = true := List.all_eq_true.2 hchars
  have hne : name.toList ≠ [] := by
    intro hnil
    simp [hnil, isPath, isPathFrom] at hpath
  have hdyn := hoccurs "dyn ".toList (by decide)
  have himpl := hoccurs "impl ".toList (by decide)
  unfold normalize
  simp only [hdyn, himpl, hfilter, hall, hpath]
  simp [hne]

/-- A path of identifiers is spelled as the host writes it. -/
theorem normalize_path {x : String} {xs : List String} (h : AreIdentifiers (x :: xs)) :
    normalize ("::".intercalate (x :: xs)) = some ("::".intercalate (x :: xs)) := by
  refine normalize_of_isPath (fun c hc => ?_) (isPath_path h)
  rcases h.chars c hc with hc | rfl
  · have hidentifier : isIdentifierChar c = true := hc
    simp [isNameChar, hidentifier]
  · decide

end Spelling

/-! ## Cutting -/

namespace Cuts

open Grammar

/-- A path of identifiers, where its last word ends. -/
theorem path {x : String} {xs : List String} (h : AreIdentifiers (x :: xs)) {rest : List Char}
    (hrest : ∀ c ∈ rest.head?, isWordChar c = false) :
    Cuts (("::".intercalate (x :: xs)).toList ++ rest) (pathForms (x :: xs)) rest := by
  have hx := h x List.mem_cons_self
  induction xs generalizing x with
  | nil =>
    rw [String.intercalate_singleton]
    exact Cuts.identifier hx hrest
  | cons y ys ih =>
    have htail : AreIdentifiers (y :: ys) := fun z hz => h z (List.mem_cons_of_mem x hz)
    rw [toList_path, List.append_assoc]
    refine (Cuts.identifier hx (by rintro _ ⟨⟩; decide)).trans ?_
    exact (Cuts.pair rfl).trans (ih htail (htail y List.mem_cons_self))

/-- The number one before a bracket. -/
theorem one (rest : List Char) : Cuts ('1' :: ']' :: rest) [⟨.intLiteral, "1"⟩] (']' :: rest) := by
  refine Cuts.scan (by decide) fun place => ?_
  rw [scanToken_digit _ (by decide)]
  exact ⟨rfl, rfl⟩

end Cuts

/-- A text is parsed when it is cut into tokens that the grammar takes for declarations: as a unit
with these declarations, or with the errors that were recorded. -/
theorem SourceUnit.parse_of_cuts {source : String} {fs : List Form} {I : Token → Prop}
    {D : Option Edition × List UseDecl × List ModuleDecl → Prop} {es : List ParseError}
    (hcuts : Cuts source.toList fs []) (hkinds : ∀ f ∈ fs, f.kind ≠ .invalid)
    (hI : ∀ token ∈ tokensOf .first source.toList, I token)
    (htakes : (Grammar.ofText source.length
      (Lexemes.ofChars .first source.toList).finish).declarations.Takes I fs D [] es) :
    (es = [] → ∃ u, SourceUnit.parse source = .ok u ∧ D (u.edition, u.uses, u.modules)) ∧
      (es ≠ [] → SourceUnit.parse source = .error (ParseError.inOrder es)) := by
  have hforms : HaveForms I fs (Lexemes.ofChars .first source.toList).lexemes :=
    ⟨hcuts.forms_eq .first, fun lexeme hlexeme => hI _ (List.mem_map_of_mem hlexeme)⟩
  obtain ⟨⟨e?, uses, ms⟩, rest, hreply, -, hD⟩ := htakes _ _ hforms
  have hfaults : (Lexemes.ofChars .first source.toList).lexemes.flatMap
      (fun lexeme => lexeme.errors.map ParseError.ofLexError) = [] :=
    List.flatMap_eq_nil_iff.2 fun lexeme hlexeme => by
      rw [hcuts.errors_eq_nil hkinds .first lexeme hlexeme, List.map_nil]
  unfold parse
  dsimp only
  rw [hfaults, List.nil_append]
  generalize (Grammar.ofText _ _).declarations _ _ = reply at hreply
  obtain ⟨result, left, recorded, hle⟩ := reply
  obtain ⟨rfl, -, rfl⟩ := hreply
  dsimp only
  cases recorded with
  | nil => exact ⟨fun _ => ⟨_, rfl, hD⟩, fun h => absurd rfl h⟩
  | cons e es => exact ⟨fun h => (List.cons_ne_nil e es h).elim, fun _ => rfl⟩

theorem SourceUnit.exists_parse_of_cuts {source : String} {fs : List Form}
    {D : Option Edition × List UseDecl × List ModuleDecl → Prop} (hcuts : Cuts source.toList fs [])
    (hkinds : ∀ f ∈ fs, f.kind ≠ .invalid)
    (htakes : (Grammar.ofText source.length
      (Lexemes.ofChars .first source.toList).finish).declarations.Takes (fun _ => True) fs D []) :
    ∃ u, SourceUnit.parse source = .ok u ∧ D (u.edition, u.uses, u.modules) :=
  (parse_of_cuts hcuts hkinds (fun _ _ => trivial) htakes).1 rfl

namespace GeneratedUnit

open Grammar

variable {moduleName typeName modelType body : String}

/-- The token of a literal with the text `body`. -/
def literalLexeme (body : List Char) : String := String.ofList ('$' :: '"' :: (body ++ ['"']))

/-- The tokens behind the template. -/
def closingForms : List Form :=
  [⟨.semicolon, ";"⟩, ⟨.rightBrace, "\x7d"⟩, ⟨.rightBrace, "\x7d"⟩, ⟨.rightBrace, "\x7d"⟩]

/-- What stands before the module is cut into the header and the namespaces. -/
theorem cuts_prologue {nss : List (List String)} (hnss : ∀ ns ∈ nss, ns ≠ [] ∧ AreIdentifiers ns)
    (rest : List Char) : Cuts (prologue (nss.map ("::".intercalate ·)) ++ rest)
      (editionForms "1" ++ useForms nss) rest := by
  have hstart : fixedForms "#![edition = ".toList = some [⟨.hash, "#"⟩, ⟨.bang, "!"⟩,
    ⟨.leftBracket, "["⟩, ⟨.identifier, "edition"⟩, ⟨.equal, "="⟩] := by decide +kernel
  have hend : fixedForms "]\n".toList = some [⟨.rightBracket, "]"⟩] := by decide +kernel
  have huse : fixedForms "use ".toList = some [⟨.useWord, "use"⟩] := by decide +kernel
  have hline : fixedForms ";\n".toList = some [⟨.semicolon, ";"⟩] := by decide +kernel
  have hprologue : prologue (nss.map ("::".intercalate ·)) = "#![edition = ".toList ++ '1' ::
      ("]\n".toList ++ nss.flatMap fun ns =>
        "use ".toList ++ (("::".intercalate ns).toList ++ ";\n".toList)) := by
    have hone : Number.decimal Options.edition = "1" := by decide +kernel
    simp [prologue, hone, List.flatMap_map, String.toList_append]
  have huses : Cuts ((nss.flatMap fun ns =>
      "use ".toList ++ (("::".intercalate ns).toList ++ ";\n".toList)) ++ rest) (useForms nss) rest := by
    clear hprologue
    induction nss with
    | nil => exact .refl rest
    | cons ns nss ih =>
      obtain ⟨⟨hne, hns⟩, htail⟩ := List.forall_mem_cons.1 hnss
      obtain ⟨x, xs, rfl⟩ := List.exists_cons_of_ne_nil hne
      have hforms : useForms ((x :: xs) :: nss) = [⟨.useWord, "use"⟩] ++
          (pathForms (x :: xs) ++ ([⟨.semicolon, ";"⟩] ++ useForms nss)) := by
        simp [useForms]
      rw [hforms, List.flatMap_cons]
      simp only [List.append_assoc]
      refine (Cuts.fixed _ huse _).trans ((Cuts.path hns (by rintro _ ⟨⟩; decide)).trans ?_)
      exact (Cuts.fixed _ hline _).trans (ih htail)
  rw [hprologue, List.append_assoc, List.cons_append, List.append_assoc]
  exact (Cuts.fixed _ hstart _).trans ((Cuts.one _).trans ((Cuts.fixed _ hend _).trans huses))

/-- The text behind the template. -/
def closing : List Char := ";\n        \x7d\n    \x7d\n\x7d\n".toList

theorem epilogue_eq (body : String) :
    epilogue body = '$' :: '"' :: (body.toList ++ '"' :: closing) := rfl

theorem cuts_closing : Cuts closing closingForms [] := by
  have hclosing : fixedForms closing = some closingForms := by decide +kernel
  have hend := Cuts.fixed closingForms hclosing []
  rwa [List.append_nil] at hend

theorem cuts_epilogue (h : FillsLiteral body.toList) :
    Cuts (epilogue body) (⟨.interpolatedString, literalLexeme body.toList⟩ :: closingForms) [] :=
  h.cuts.trans cuts_closing

/-- The tokens of a unit up to the template, where the model type has the tokens `ts`. -/
def formsBefore (nss : List (List String)) (moduleName typeName : String) (ts : List Form) :
    List Form :=
  (editionForms "1" ++ useForms nss) ++ (openingForms moduleName typeName ++ (ts ++ resultForms))

/-- The tokens of a unit. -/
def forms (nss : List (List String)) (moduleName typeName : String) (ts : List Form)
    (body : List Char) : List Form :=
  formsBefore nss moduleName typeName ts ++
    ⟨.interpolatedString, literalLexeme body⟩ :: closingForms

/-- A unit is cut into its tokens up to the template when its model type is. -/
theorem cuts_before {nss : List (List String)} {ts : List Form}
    (hnss : ∀ ns ∈ nss, ns ≠ [] ∧ AreIdentifiers ns) (h : Named moduleName typeName modelType)
    (htype : ∀ after : List Char, (∀ c ∈ after.head?, isWordChar c = false) →
      Cuts (modelType.toList ++ after) ts after) (body : String) :
    Cuts (text (nss.map ("::".intercalate ·)) moduleName typeName modelType body).toList
      (formsBefore nss moduleName typeName ts) (epilogue body) := by
  rw [toList_text]
  refine (cuts_prologue hnss _).trans ((cuts_opening h body).trans ((htype _ ?_).trans ?_))
  · rintro _ ⟨⟩
    decide
  · exact cuts_result body

theorem plain_formsBefore (nss : List (List String)) (moduleName typeName : String)
    {ts : List Form} (hts : ∀ f ∈ ts, f.Plain) :
    ∀ f ∈ formsBefore nss moduleName typeName ts, f.Plain := by
  have huses : ∀ f ∈ useForms nss, f.Plain := by
    intro f hf
    obtain ⟨ns, hns, hf⟩ := List.mem_flatMap.1 hf
    simp only [List.mem_cons, List.mem_append, List.not_mem_nil, or_false] at hf
    rcases hf with rfl | hf | rfl
    · decide
    · exact plain_pathForms ns f hf
    · decide
  intro f hf
  simp only [formsBefore, List.mem_append] at hf
  rcases hf with (hf | hf) | hf | hf | hf
  · exact (by decide : ∀ f ∈ editionForms "1", f.Plain) f hf
  · exact huses f hf
  · revert f
    simp [openingForms, Form.Plain]
  · exact hts f hf
  · exact (by decide : ∀ f ∈ resultForms, f.Plain) f hf

theorem plain_closingForms : ∀ f ∈ closingForms, f.Plain := by
  decide

theorem kinds_forms (nss : List (List String)) (moduleName typeName : String) {ts : List Form}
    (hts : ∀ f ∈ ts, f.Plain) (body : List Char) :
    ∀ f ∈ forms nss moduleName typeName ts body, f.kind ≠ .invalid := by
  intro f hf
  simp only [forms, List.mem_append, List.mem_cons] at hf
  rcases hf with hf | rfl | hf
  · exact (plain_formsBefore nss moduleName typeName hts f hf).1
  · simp
  · exact (plain_closingForms f hf).1

theorem cuts_text {nss : List (List String)} {ts : List Form}
    (hnss : ∀ ns ∈ nss, ns ≠ [] ∧ AreIdentifiers ns) (h : Named moduleName typeName modelType)
    (htype : ∀ after : List Char, (∀ c ∈ after.head?, isWordChar c = false) →
      Cuts (modelType.toList ++ after) ts after) (hbody : FillsLiteral body.toList) :
    Cuts (text (nss.map ("::".intercalate ·)) moduleName typeName modelType body).toList
      (forms nss moduleName typeName ts body.toList) [] :=
  (cuts_before hnss h htype body).trans (cuts_epilogue hbody)

/-! ## Parsing -/

/-- The unit has the module and the type, with the function that renders models of the type `xs` by
segments with `P`. -/
def Written (moduleName typeName : String) (xs : List String) (P : List Segment → Prop)
    (u : SourceUnit) : Prop :=
  Grammar.Declares 1 [Registry.standardNamespace]
    (Encloses moduleName typeName (ReturnsFrom entryPoint "model" xs P)) (u.edition, u.uses, u.modules)

/-- A unit is taken when its function is. -/
theorem takes_forms {g : Grammar} {I : Token → Prop} {nss : List (List String)} {ts : List Form}
    {body : List Char} {Q : FunctionDecl → Prop} {es : List ParseError} (hnss : ∀ ns ∈ nss, ns ≠ [])
    (moduleName typeName : String)
    (hfunction : ∀ start, (g.functionDecl start).Takes I
      (⟨.identifier, entryPoint⟩ :: ⟨.leftParen, "("⟩ :: ⟨.identifier, "model"⟩ :: ⟨.colon, ":"⟩ ::
        (ts ++ (resultForms ++ ⟨.interpolatedString, literalLexeme body⟩ :: closingForms)))
      Q [⟨.rightBrace, "\x7d"⟩, ⟨.rightBrace, "\x7d"⟩] es) :
    g.declarations.Takes I (forms nss moduleName typeName ts body)
      (Grammar.Declares 1 (nss.map ("::".intercalate ·)) (Encloses moduleName typeName Q)) [] es := by
  simp only [forms, formsBefore, List.append_assoc]
  exact takes_declarations (by decide) hnss fun start =>
    takes_moduleDecl start moduleName typeName hfunction

open TemplatePart in
/-- The unit of a template is parsed, with the template's contents as its segments. -/
theorem exists_parse {x : String} {xs : List String} {shape : Shape} {parts : List TemplatePart}
    (hxs : AreIdentifiers (x :: xs)) (h : Named moduleName typeName ("::".intercalate (x :: xs)))
    (hparts : ∀ p ∈ parts, p.Valid shape) (hbody : body.toList = parts.flatMap embedded) :
    ∃ u, SourceUnit.parse (text [Registry.standardNamespace] moduleName typeName
        ("::".intercalate (x :: xs)) body) = .ok u ∧
      Written moduleName typeName (x :: xs)
        (List.Forall₂ TemplateContent.Spells (contents [] parts)) u := by
  have hstandard : AreIdentifiers [Registry.standardNamespace] := by
    simp only [AreIdentifiers, List.mem_singleton, forall_eq]
    exact isIdentifier_of_head rfl (by decide) (by decide) (by decide)
  have hnss : ∀ ns ∈ [[Registry.standardNamespace]], ns ≠ [] ∧ AreIdentifiers ns := by
    simpa using hstandard
  have hliteral : FillsLiteral body.toList := by
    rw [hbody]
    exact (Scans.parts hparts).fillsLiteral
  have hcuts := cuts_text hnss h (fun _ => Cuts.path hxs) hliteral
  rw [hbody] at hcuts
  refine SourceUnit.exists_parse_of_cuts hcuts
    (kinds_forms _ moduleName typeName (plain_pathForms _) _)
    (takes_forms (fun ns hns => (hnss ns hns).1) moduleName typeName fun start =>
      takes_functionDecl ?_ start entryPoint "model" x xs)
  exact fun token hlexeme => exists_interpolation hparts _ hlexeme

end GeneratedUnit

end TypedTemplate
