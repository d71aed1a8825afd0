-- SUMMARY: A field can be read by a template just when its name is no keyword of the unit language.
import TypedTemplate.Proofs.Template.Render
import TypedTemplate.Proofs.Template.Synthesized

/-!
# Reading a field

The names of fields come from the host language, which has keywords of its own. The shortest
template that reads a field is a hole with just that in it. Its unit compiles for every field
whose name is an identifier of the unit language, and then renders the field's value. Where
the name is a keyword, the hole is no expression, and the unit is not parsed.
-/

namespace TypedTemplate

/-- The word is spelled like an identifier. It may be a keyword. -/
def HasIdentifierForm (x : String) : Prop :=
  (∃ c ∈ x.toList.head?, isWordStart c = true) ∧ ∀ c ∈ x.toList, isWordChar c = true

theorem HasIdentifierForm.isIdentifier_or_keyword {x : String} (h : HasIdentifierForm x) :
    IsIdentifier x ∨ ∃ kind, (x.toList, kind) ∈ TokenKind.keywords := by
  rcases TokenKind.ofWord_eq x.toList with hkind | hkeyword
  · exact .inl ⟨h.1, h.2, hkind⟩
  · exact .inr ⟨_, hkeyword⟩

/-- The template that shows a field. -/
def fieldTemplate (x : String) : String := "\x7bmodel." ++ x ++ "\x7d"

theorem template_field (x : String) :
    TemplatePart.template [.hole ⟨x, none⟩] = fieldTemplate x := by
  have hcode := TemplateHole.code_of_none (h := ⟨x, none⟩) rfl ['"', '"']
  rw [← String.toList_inj]
  simp [TemplatePart.template, TemplatePart.source, hcode, fieldTemplate]

/-! ## Keywords -/

/-- A hole that reads a field named by a keyword is part of a string, and no expression. -/
theorem parse_literal_keyword {x : String} {kind : TokenKind}
    (h : (x.toList, kind) ∈ TokenKind.keywords) :
    IsLiteral (GeneratedUnit.literal (fieldTemplate x)) ∧
      ∃ es, Expr.parse (GeneratedUnit.literal (fieldTemplate x)) = .error es := by
  have hall : ∀ w ∈ TokenKind.keywords,
      IsLiteral (GeneratedUnit.literal (fieldTemplate (String.ofList w.1))) ∧
        (Expr.parse (GeneratedUnit.literal (fieldTemplate (String.ofList w.1)))).isOk = false := by
    decide +kernel
  obtain ⟨hliteral, hfails⟩ := hall _ h
  rw [String.ofList_toList] at hliteral hfails
  refine ⟨hliteral, ?_⟩
  cases hparse : Expr.parse (GeneratedUnit.literal (fieldTemplate x)) with
  | ok e => simp [hparse, Except.isOk, Except.toBool] at hfails
  | error es => exact ⟨es, rfl⟩

/-- The host name of a plain shape is the text of a type. -/
theorem Shape.Plain.exists_typeRef {s : Shape} (h : s.Plain) :
    ∃ t : TypeRef, t.AllNames IsIdentifier ∧ t.text = s.hostName := by
  obtain ⟨x, xs, hxs, hpath⟩ := h.path
  let segments : List Ident := (x :: xs).map fun y => ⟨y, .nowhere⟩
  have hsegments : segments.map (·.name) = x :: xs := by simp [segments, Function.comp_def]
  refine ⟨.mk ⟨segments, .nowhere⟩ [] .nowhere, .mk hsegments hxs (by simp), ?_⟩
  rw [hpath, ← hsegments]
  rfl

/-- With the standard namespace only, the unit of a template is not parsed if the template's literal
is not. -/
theorem GeneratedUnit.exists_error {shape : Shape} {id template : String} {es : List ParseError}
    (hshape : shape.Plain) (hid : id ≠ "") (hliteral : IsLiteral (literal template))
    (hfails : Expr.parse (literal template) = .error es) :
    ∃ g es', synthesize [Registry.standardNamespace] [] id template shape = .ok g ∧
      SourceUnit.parse g.source = .error es' := by
  obtain ⟨g, hg⟩ : ∃ g, synthesize [Registry.standardNamespace] [] id template shape = .ok g := by
    simp [synthesize, hshape.typeName, ModuleName.ofId, hid]
  obtain ⟨modelType, htype, -, hnamed, hsource⟩ := synthesize_eq_ok hg
  obtain rfl : shape.hostName = modelType := Option.some.inj (hshape.typeName.symm.trans htype)
  obtain ⟨t, ht, htext⟩ := hshape.exists_typeRef
  have hstd : AreIdentifiers ["std"] := by
    simpa [AreIdentifiers] using ⟨⟨'s', rfl, by decide⟩, by decide, by decide⟩
  have hnss : ∀ ns ∈ [["std"]], ns ≠ [] ∧ AreIdentifiers ns := by simpa using hstd
  have hnames : ([Registry.standardNamespace] ++ []).eraseDups =
      [["std"]].map ("::".intercalate ·) := by decide
  have huses : ∀ ns ∈ [["std"]].map ("::".intercalate ·), IsNamespace ns := by
    simpa using ⟨"std", [], hstd, by decide⟩
  have hline : ∀ c ∈ (Embed.embed template).toList, c ≠ '\n' :=
    fun c hc hfeed => Embed.not_mem_embed template (hfeed ▸ hc)
  rw [literal_eq] at hliteral hfails
  rw [← htext, hnames] at hsource
  rw [← htext] at hnamed
  have hfilled := hliteral.fillsLiteral hline
  obtain ⟨-, herror⟩ := parse_text hnss ht hnamed hfilled hline (after_before huses hnamed)
  have hparse := herror es hfails
  rw [← hsource] at hparse
  exact ⟨g, _, hg, hparse⟩

namespace Engine

variable {shape : Shape} {id : String}

/-- No template compiles that reads a field named by a keyword. -/
theorem compileTemplate_keyword_ne_ok {x : String} {kind : TokenKind} (hshape : shape.Plain)
    (hid : id ≠ "") (h : (x.toList, kind) ∈ TokenKind.keywords) (o : Options) (catalog : Catalog)
    (a : Artifact) :
    (ofOptions o).compileTemplate catalog id (fieldTemplate x) shape [] ≠ .ok a := by
  intro ha
  obtain ⟨hliteral, es, hfails⟩ := parse_literal_keyword h
  obtain ⟨g, es', hg, herror⟩ := GeneratedUnit.exists_error hshape hid hliteral hfails
  obtain ⟨g', r, u, hg', -, hu, -⟩ := compileTemplate_eq_ok.1 ha
  obtain rfl : g = g' := Except.ok.inj (hg.symm.trans hg')
  rw [herror] at hu
  cases hu

end Engine

/-! ## Fields -/

/-- Among fields with distinct names each is found under its own. -/
theorem Shape.field_of_nodup {shape : Shape} {i : Nat} {f : Field}
    (hnames : (shape.fields.map (·.name)).Nodup) (hf : shape.fields[i]? = some f) :
    shape.field f.name = some (i, f) := by
  obtain ⟨hi, hget⟩ := List.getElem?_eq_some_iff.1 hf
  have hindex : shape.fieldIndex f.name = some i := by
    refine List.findIdx?_eq_some_iff_getElem.2 ⟨hi, by simp [hget], fun j hj => ?_⟩
    have hne := List.pairwise_iff_getElem.1 (List.pairwise_map.1 hnames) j i (by omega) hi hj
    simpa [hget] using hne
  rw [Shape.field, hindex]
  simp [hf]

/-- A field whose name is an identifier makes a template of one hole. -/
theorem wellFormed_field {shape : Shape} {i : Nat} {f : Field} (hname : IsIdentifier f.name)
    (hfield : shape.field f.name = some (i, f)) (hi : i < UInt16.size) :
    TemplatePart.WellFormed shape [.hole ⟨f.name, none⟩] := by
  refine ⟨?_, rfl, by simp, ?_⟩
  · rw [List.forall_mem_singleton]
    exact ⟨hname, ⟨i, f, hfield, nofun⟩, nofun⟩
  · intro h hh j hj
    obtain rfl : h = ⟨f.name, none⟩ := by simpa using hh
    obtain rfl : i = j := Option.some.inj ((Shape.mem_of_field hfield).1.symm.trans hj)
    exact hi

namespace Engine

variable {shape : Shape} {id : String}

/-- The template that shows a field compiles just when the field's name is no keyword. Then it
renders the text of the field's value for every model of the shape, on the first render and on
every later one. -/
theorem render_field {i : Nat} {f : Field} (hshape : shape.Plain)
    (hforms : ∀ g ∈ shape.fields, HasIdentifierForm g.name)
    (hnames : (shape.fields.map (·.name)).Nodup) (hfew : shape.fields.length ≤ UInt16.size)
    (hid : id ≠ "") (hf : shape.fields[i]? = some f) (o : Options) (catalog : Catalog) :
    ((∃ a, (ofOptions o).compileTemplate catalog id (fieldTemplate f.name) shape [] = .ok a) ↔
        ∀ kind, (f.name.toList, kind) ∉ TokenKind.keywords) ∧
      ((∀ kind, (f.name.toList, kind) ∉ TokenKind.keywords) →
        ∀ store : TemplateStore, store.text? id = some (fieldTemplate f.name) →
          ∀ qs : List EngineRequest, (∀ q ∈ qs, q.Uses id shape) →
            List.Forall₂ (fun q answer => ∀ m v, q = .render id shape m [] → shape.Fills m →
                m.field i = some v → answer = some (.ok v.render)) qs
              (EngineRequest.runAll (ofOptions o) catalog qs (.empty, store)).1) := by
  have hi : i < shape.fields.length := (List.getElem?_eq_some_iff.1 hf).1
  have hfield := Shape.field_of_nodup hnames hf
  have hartifact (hword : ∀ kind, (f.name.toList, kind) ∉ TokenKind.keywords) :
      ∃ a, (ofOptions o).compileTemplate catalog id (fieldTemplate f.name) shape [] = .ok a ∧
        ∀ m, shape.Fills m → Invoker.standard.invoke a id m =
          .ok (TemplatePart.renderAll shape m [.hole ⟨f.name, none⟩]) := by
    rcases (hforms f (List.mem_of_getElem? hf)).isIdentifier_or_keyword with hname | ⟨kind, hkind⟩
    · rw [← template_field]
      exact exists_artifact hshape hid (wellFormed_field hname hfield (Nat.lt_of_lt_of_le hi hfew)) o
        catalog
    · exact absurd hkind (hword kind)
  refine ⟨⟨?_, fun hword => ?_⟩, fun hword store hstore qs hqs => ?_⟩
  · rintro ⟨a, ha⟩ kind hkind
    exact compileTemplate_keyword_ne_ok hshape hid hkind o catalog a ha
  · obtain ⟨a, ha, -⟩ := hartifact hword
    exact ⟨a, ha⟩
  · obtain ⟨a, ha, hinvoke⟩ := hartifact hword
    refine (forall_render ha hstore hqs).imp fun q answer h m v hq hm hv => ?_
    have hvalue : shape.value m f.name = v := Option.some.inj ((hm.value hfield).symm.trans hv)
    rw [h m hq, invoke, hinvoke m hm, TemplatePart.renderAll_cons]
    simp [TemplatePart.renderAll, TemplatePart.render, TemplateHole.render, hvalue,
      Except.mapError]

end Engine

/-! ## A field named by a keyword -/

namespace Row

/-- A name and a type. -/
def shape : Shape := ⟨"app::Row", [⟨"Name", .str⟩, ⟨"type", .int⟩]⟩

def model : Instance := ⟨0, "app::Row", [some (.str "Ada"), some (.int 1)]⟩

theorem plain_shape : shape.Plain := by
  have happ : IsIdentifier "app" := ⟨⟨'a', rfl, by decide⟩, by decide, by decide⟩
  have hrow : IsIdentifier "Row" := ⟨⟨'R', rfl, by decide⟩, by decide, by decide⟩
  refine ⟨⟨"app", ["Row"], ?_, by decide⟩, by decide, ?_⟩
  · simp [AreIdentifiers, happ, hrow]
  · simp [Shape.Flat, shape, FieldKind.base]

theorem fills_model : shape.Fills model := by
  refine ⟨rfl, fun i hi => ?_⟩
  match i, (hi : i < 2) with
  | 0, _ => exact ⟨_, rfl⟩
  | 1, _ => exact ⟨_, rfl⟩

theorem hasIdentifierForm_name : ∀ g ∈ shape.fields, HasIdentifierForm g.name := by
  have hname : HasIdentifierForm "Name" := ⟨⟨'N', rfl, by decide⟩, by decide⟩
  have htype : HasIdentifierForm "type" := ⟨⟨'t', rfl, by decide⟩, by decide⟩
  simp [shape, hname, htype]

/-- The name is shown, twice. -/
theorem render_field_name :
    (∃ a, (Engine.ofOptions ⟨false, .debug⟩).compileTemplate #[] "row" (fieldTemplate "Name") shape
        [] = .ok a) ∧
      (EngineRequest.runAll (Engine.ofOptions ⟨false, .debug⟩) #[]
        [.render "row" shape model [], .render "row" shape model []]
        (.empty, ⟨[("row", fieldTemplate "Name")], 0⟩)).1 = [some (.ok "Ada"), some (.ok "Ada")] := by
  have hfield : shape.fields[0]? = some ⟨"Name", .str⟩ := rfl
  have hword : ∀ kind, ("Name".toList, kind) ∉ TokenKind.keywords := by
    intro kind
    simp [TokenKind.keywords]
  have huses : ∀ q ∈ [.render "row" shape model [], .render "row" shape model []],
      EngineRequest.Uses "row" shape q := by
    simp [EngineRequest.Uses]
  obtain ⟨hcompiles, hrenders⟩ := Engine.render_field plain_shape hasIdentifierForm_name (by decide)
    (by decide) (by decide : "row" ≠ "") hfield ⟨false, .debug⟩ #[]
  refine ⟨hcompiles.2 hword, ?_⟩
  have hall := hrenders hword ⟨[("row", fieldTemplate "Name")], 0⟩ rfl _ huses
  obtain ⟨_, _, hfirst, hrest, heq⟩ := List.forall₂_cons_left_iff.1 hall
  obtain ⟨_, _, hlast, hnil, rfl⟩ := List.forall₂_cons_left_iff.1 hrest
  obtain rfl := List.forall₂_nil_left_iff.1 hnil
  rw [heq, hfirst model _ rfl fills_model rfl, hlast model _ rfl fills_model rfl]
  rfl

/-- The type cannot be shown. -/
theorem not_render_field_type :
    shape.Plain ∧ (∀ g ∈ shape.fields, HasIdentifierForm g.name) ∧
      (shape.fields.map (·.name)).Nodup ∧ shape.fields[1]? = some ⟨"type", .int⟩ ∧
      shape.Fills model ∧ model.field 1 = some (.int 1) ∧
      (∀ a, (Engine.ofOptions .standard).compileTemplate #[] "row" (fieldTemplate "type") shape [] ≠
        .ok a) ∧
      ((Engine.ofOptions .standard).render #[] "row" shape model [] .empty
        ⟨[("row", fieldTemplate "type")], 0⟩).1 ≠ .ok (Value.int 1).render := by
  have hkeyword : ("type".toList, TokenKind.typeWord) ∈ TokenKind.keywords := by decide
  have hfails := Engine.compileTemplate_keyword_ne_ok plain_shape (by decide : "row" ≠ "") hkeyword
    .standard #[]
  refine ⟨plain_shape, hasIdentifierForm_name, by decide, rfl, fills_model, rfl, hfails, fun hok => ?_⟩
  have hstore : (⟨[("row", fieldTemplate "type")], 0⟩ : TemplateStore).text? "row" =
      some (fieldTemplate "type") := rfl
  rw [Engine.render_empty hstore] at hok
  cases hcompile : (Engine.ofOptions .standard).compileTemplate #[] "row" (fieldTemplate "type") shape
      [] with
  | error e =>
    rw [hcompile] at hok
    cases hok
  | ok a => exact hfails a hcompile

end Row

end TypedTemplate
