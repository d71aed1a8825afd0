-- SUMMARY: What templates of texts, braces and holes render, on the first render and on every later one.
import Mathlib.Data.List.Nodup
import Mathlib.Data.Nat.Digits.Defs
import TypedTemplate.Proofs.Template.Reach
import TypedTemplate.Proofs.Template.Session

/-!
# Rendering

With the default namespaces a template renders every model that fills its shape to what
its parts show, in any session that keeps the template's text. Two limits are those of the
code: the field of a hole has an index that is a word, and the quotes of a text stay apart.
-/

namespace TypedTemplate

variable {shape : Shape} {id : String}

/-- The request keeps the text of the template `id`, and renders it for models of the shape and with
no namespaces of its own. -/
def EngineRequest.Uses (id : String) (shape : Shape) : EngineRequest → Prop
  | .render id' s _ extra => id' = id → s = shape ∧ extra = []
  | .insert id' _ | .remove id' => id' ≠ id
  | .invalidate _ | .clear => True

namespace Engine

/-- Every render of a template gives what the template compiles to. -/
theorem forall_render {e : Engine} {catalog : Catalog} {template : String}
    {x : Except RenderError Artifact} (hx : e.compileTemplate catalog id template shape [] = x)
    {store : TemplateStore} (hstore : store.text? id = some template) {qs : List EngineRequest}
    (hqs : ∀ q ∈ qs, q.Uses id shape) :
    List.Forall₂ (fun q answer => ∀ m, q = .render id shape m [] → answer = some (invoke id m x)) qs
      (EngineRequest.runAll e catalog qs (.empty, store)).1 := by
  have hrespects : ∀ q ∈ qs, q.Respects e catalog id template x := by
    intro q hq
    have huses := hqs q hq
    cases q with
    | render id' s m extra =>
      intro hid
      obtain ⟨rfl, rfl⟩ := huses hid
      exact hx
    | insert id' text => exact huses
    | remove id' => exact huses
    | invalidate id' => trivial
    | clear => trivial
  exact ((serves_empty hstore x).runAll hrespects).imp fun q answer h m hm => h shape m [] hm

/-- A template renders every model that fills the shape to what its parts show, on the first render
and on every later one. -/
theorem render_template {parts : List TemplatePart} (hshape : shape.Plain) (hid : id ≠ "")
    (hparts : TemplatePart.WellFormed shape parts) (o : Options) (catalog : Catalog)
    {store : TemplateStore} (hstore : store.text? id = some (TemplatePart.template parts))
    {qs : List EngineRequest} (hqs : ∀ q ∈ qs, q.Uses id shape) :
    List.Forall₂ (fun q answer => ∀ m, q = .render id shape m [] → shape.Fills m →
        answer = some (.ok (TemplatePart.renderAll shape m parts))) qs
      (EngineRequest.runAll (ofOptions o) catalog qs (.empty, store)).1 := by
  obtain ⟨a, ha, hinvoke⟩ := exists_artifact hshape hid hparts o catalog
  refine (forall_render ha hstore hqs).imp fun q answer h m hq hm => ?_
  rw [h m hq, invoke, hinvoke m hm]
  rfl

end Engine

/-! ## A greeting -/

namespace Greeting

/-- A name and, for some, a nickname. -/
def person : Shape := ⟨"app::Person", [⟨"Name", .str⟩, ⟨"Nick", .optional .str⟩]⟩

def fred : Instance := ⟨0, "app::Person", [some (.str "Fred"), some .null]⟩

/-- A name in quotes and in braces, and the nickname if there is one. -/
def parts : List TemplatePart :=
  [.text "\"Hi\" ".toList, .brace true, .hole ⟨"Name", none⟩, .brace false, .text " aka ".toList,
   .hole ⟨"Nick", some "none".toList⟩]

theorem plain_person : person.Plain := by
  have happ : IsIdentifier "app" := ⟨⟨'a', rfl, by decide⟩, by decide, by decide⟩
  have hperson : IsIdentifier "Person" := ⟨⟨'P', rfl, by decide⟩, by decide, by decide⟩
  refine ⟨⟨"app", ["Person"], ?_, by decide⟩, by decide, ?_⟩
  · simp [AreIdentifiers, happ, hperson]
  · simp [Shape.Flat, person, FieldKind.base]

theorem fills_fred : person.Fills fred := by
  refine ⟨rfl, fun i hi => ?_⟩
  match i, (hi : i < 2) with
  | 0, _ => exact ⟨_, rfl⟩
  | 1, _ => exact ⟨_, rfl⟩

theorem wellFormed_parts : TemplatePart.WellFormed person parts := by
  have hname : IsIdentifier "Name" := ⟨⟨'N', rfl, by decide⟩, by decide, by decide⟩
  have hnick : IsIdentifier "Nick" := ⟨⟨'N', rfl, by decide⟩, by decide, by decide⟩
  have hindex : ∀ x i, person.fieldIndex x = some i → i < UInt16.size := by
    intro x i hi
    have hlt : i < 2 := (List.findIdx?_eq_some_iff_getElem.1 hi).1
    exact Nat.lt_trans hlt (by decide)
  refine ⟨?_, by decide, by decide, fun h _ => hindex h.field⟩
  simp only [parts, List.forall_mem_cons, List.not_mem_nil, false_implies, implies_true, and_true]
  refine ⟨⟨by decide, by decide⟩, trivial, ⟨hname, ⟨0, _, rfl, by decide⟩, ?_⟩, trivial,
    ⟨by decide, by decide⟩, ⟨hnick, ⟨1, _, rfl, fun _ => rfl⟩, ?_⟩⟩
  · rintro _ ⟨⟩
  · rintro _ ⟨⟩
    decide

/-- Two renders with another template in between. -/
theorem render_template_greeting :
    ∃ x y, (EngineRequest.runAll (Engine.ofOptions .standard) #[]
      [.render "hi" person fred [], .insert "bye" "\x7b", .render "bye" person fred [],
       .render "hi" person fred []] (.empty, ⟨[("hi", TemplatePart.template parts)], 0⟩)).1 =
      [some (.ok "\"Hi\" \x7bFred\x7d aka none"), x, y,
       some (.ok "\"Hi\" \x7bFred\x7d aka none")] := by
  have hrender : TemplatePart.renderAll person fred parts = "\"Hi\" \x7bFred\x7d aka none" := by
    decide
  have hstore : (⟨[("hi", TemplatePart.template parts)], 0⟩ : TemplateStore).text? "hi" =
      some (TemplatePart.template parts) := rfl
  have huses : ∀ q ∈ [.render "hi" person fred [], .insert "bye" "\x7b",
      .render "bye" person fred [], .render "hi" person fred []], EngineRequest.Uses "hi" person q := by
    simp [EngineRequest.Uses]
  have hall :=
    Engine.render_template plain_person (by decide) wellFormed_parts .standard #[] hstore huses
  obtain ⟨_, _, hfirst, hmore, heq⟩ := List.forall₂_cons_left_iff.1 hall
  obtain ⟨x, _, -, hothers, rfl⟩ := List.forall₂_cons_left_iff.1 hmore
  obtain ⟨y, _, -, hrest, rfl⟩ := List.forall₂_cons_left_iff.1 hothers
  obtain ⟨_, _, hlast, hnil, rfl⟩ := List.forall₂_cons_left_iff.1 hrest
  obtain rfl := List.forall₂_nil_left_iff.1 hnil
  exact ⟨x, y, by rw [heq, hfirst fred rfl fills_fred, hlast fred rfl fills_fred, hrender]⟩

end Greeting

/-! ## Fields out of reach -/

namespace Wide

/-- The number behind a letter, its last digit first. -/
def name (i : Nat) : String := String.ofList ('x' :: (Nat.digits 10 i).map Nat.digitChar)

/-- A shape with `n` fields. -/
def record (n : Nat) : Shape := ⟨"app::P", (List.range n).map fun i => ⟨name i, .bool⟩⟩

def model (n : Nat) : Instance := ⟨0, "app::P", List.replicate n (some (.bool true))⟩

/-- A hole for the field at `i`. -/
def parts (i : Nat) : List TemplatePart := [.hole ⟨name i, none⟩]

theorem isIdentifier_name (i : Nat) : IsIdentifier (name i) := by
  refine isIdentifier_of_head (c := 'x') (by simp [name]) (by decide) (by decide) ?_
  intro c hc
  rw [name, String.toList_ofList] at hc
  rcases List.mem_cons.1 hc with rfl | hc
  · decide
  · obtain ⟨d, hd, rfl⟩ := List.mem_map.1 hc
    exact (by decide : ∀ d < 10, isWordChar (Nat.digitChar d) = true) d
      (Nat.digits_lt_base (by decide) hd)

theorem name_injective : Function.Injective name := by
  have hread : ∀ i, Nat.ofDigits 10 ((name i).toList.tail.map fun c => c.toNat - 48) = i := by
    intro i
    have hdigits : ∀ d ∈ Nat.digits 10 i, (Nat.digitChar d).toNat - 48 = d := fun d hd =>
      (by decide : ∀ d < 10, (Nat.digitChar d).toNat - 48 = d) d (Nat.digits_lt_base (by decide) hd)
    rw [name, String.toList_ofList, List.tail_cons, List.map_map]
    have hmap : (Nat.digits 10 i).map ((fun c => c.toNat - 48) ∘ Nat.digitChar) = Nat.digits 10 i :=
      (List.map_congr_left hdigits).trans (List.map_id _)
    rw [hmap, Nat.ofDigits_digits]
  intro i j hij
  rw [← hread i, ← hread j, hij]

theorem nodup_record (n : Nat) : ((record n).fields.map (·.name)).Nodup := by
  have hnames : (record n).fields.map (·.name) = (List.range n).map name := by
    simp [record]
  rw [hnames]
  exact List.nodup_range.map name_injective

theorem field_record {n i : Nat} (hi : i < n) : (record n).field (name i) = some (i, ⟨name i, .bool⟩) := by
  have hindex : (record n).fieldIndex (name i) = some i := by
    refine List.findIdx?_eq_some_iff_getElem.2 ⟨by simpa [record] using hi, by simp [record], ?_⟩
    intro j hj
    simpa [record] using fun h => absurd (name_injective h) (Nat.ne_of_lt hj)
  rw [Shape.field, hindex]
  simp [record, hi]

theorem plain_record (n : Nat) : (record n).Plain := by
  have happ : IsIdentifier "app" := ⟨⟨'a', rfl, by decide⟩, by decide, by decide⟩
  have hp : IsIdentifier "P" := ⟨⟨'P', rfl, by decide⟩, by decide, by decide⟩
  refine ⟨⟨"app", ["P"], ?_, by simp [record]⟩, rfl, ?_⟩
  · simp [AreIdentifiers, happ, hp]
  · simp [Shape.Flat, record, FieldKind.base]

theorem fills_model (n : Nat) : (record n).Fills (model n) := by
  refine ⟨rfl, fun i hi => ⟨.bool true, ?_⟩⟩
  have hi : i < n := by simpa [record] using hi
  simp [InstanceOf.field, model, hi]

theorem valid_parts {n i : Nat} (hi : i < n) : ∀ p ∈ parts i, p.Valid (record n) := by
  intro p hp
  obtain rfl := List.mem_singleton.1 hp
  exact ⟨isIdentifier_name i, ⟨i, _, field_record hi, nofun⟩, nofun⟩

theorem isIdentifier_field {n : Nat} {f : Field} (hf : f ∈ (record n).fields) :
    IsIdentifier f.name := by
  obtain ⟨i, -, rfl⟩ := List.mem_map.1 hf
  exact isIdentifier_name i

/-- The value of a field whose index is no word is never rendered. -/
theorem render_ne_ok {n i : Nat} (hi : i < n) (hlong : UInt16.size ≤ i) (o : Options)
    (catalog : Catalog) (text : String) :
    ((Engine.ofOptions o).render catalog "t" (record n) (model n) [] .empty
      ⟨[("t", TemplatePart.template (parts i))], 0⟩).1 ≠ .ok text := by
  intro hok
  have hstore : (⟨[("t", TemplatePart.template (parts i))], 0⟩ : TemplateStore).text? "t" =
      some (TemplatePart.template (parts i)) := rfl
  rw [Engine.render_empty hstore] at hok
  cases hcompile : (Engine.ofOptions o).compileTemplate catalog "t" (TemplatePart.template (parts i))
      (record n) [] with
  | error e =>
    rw [hcompile] at hok
    cases hok
  | ok a =>
    have hreach := Engine.inReach_of_compileTemplate (plain_record n) (by decide) (valid_parts hi) rfl
      hcompile ⟨name i, none⟩ List.mem_cons_self
    have hindex := hreach i (Shape.mem_of_field (field_record hi)).1
    exact Nat.not_lt.2 hlong hindex

/-- A shape with 65537 fields has a valid hole that does not render the field's value. -/
theorem render_ne_ok_last :
    (record 65537).Plain ∧ ((record 65537).fields.map (·.name)).Nodup ∧
      (∀ f ∈ (record 65537).fields, IsIdentifier f.name) ∧ (record 65537).Fills (model 65537) ∧
      (∀ p ∈ parts 65536, p.Valid (record 65537)) ∧
      ((Engine.ofOptions .standard).render #[] "t" (record 65537) (model 65537) [] .empty
        ⟨[("t", TemplatePart.template (parts 65536))], 0⟩).1 ≠
          .ok (TemplatePart.renderAll (record 65537) (model 65537) (parts 65536)) :=
  have hlast : 65536 < 65537 := Nat.lt_succ_self _
  ⟨plain_record _, nodup_record _, fun _ => isIdentifier_field, fills_model _, valid_parts hlast,
    render_ne_ok hlast (Nat.le_refl _) _ _ _⟩

end Wide

/-! ## Plain text -/

namespace Engine

/-- Text without braces and backslashes renders as itself without its line breaks, when its quotes
are apart once the line breaks are dropped. -/
theorem render_text {text : String} (hshape : shape.Plain) (hid : id ≠ "")
    (htext : ∀ c ∈ text.toList, c ≠ '\x7b' ∧ c ≠ '\x7d' ∧ c ≠ '\\')
    (hapart : quotesApart (text.toList.filter (!Embed.isLineBreak ·)) = true) (o : Options)
    (catalog : Catalog) {store : TemplateStore} (hstore : store.text? id = some text)
    {qs : List EngineRequest} (hqs : ∀ q ∈ qs, q.Uses id shape) :
    List.Forall₂ (fun q answer => ∀ m, q = .render id shape m [] → shape.Fills m →
        answer = some (.ok (String.ofList (text.toList.filter (!Embed.isLineBreak ·))))) qs
      (EngineRequest.runAll (ofOptions o) catalog qs (.empty, store)).1 := by
  have htemplate : TemplatePart.template [.text text.toList] = text := by
    simp [TemplatePart.template, TemplatePart.source]
  have hparts : TemplatePart.WellFormed shape [.text text.toList] := by
    refine ⟨?_, rfl, by simp, ?_⟩
    · simpa [TemplatePart.Valid] using ⟨htext, hapart⟩
    · simp
  obtain ⟨a, ha, hinvoke⟩ := exists_artifact hshape hid hparts o catalog
  rw [htemplate] at ha
  refine (forall_render ha hstore hqs).imp fun q answer h m hq hm => ?_
  rw [h m hq, invoke, hinvoke m hm, TemplatePart.renderAll_cons]
  simp [TemplatePart.renderAll, TemplatePart.render, Except.mapError]

end Engine

namespace Greeting

/-- Quotes and a line break, twice. -/
theorem render_text_quoted :
    (EngineRequest.runAll (Engine.ofOptions ⟨false, .debug⟩) #[]
      [.render "q" person fred [], .render "q" person fred []]
      (.empty, ⟨[("q", "say \"hi\" \r\n\"twice\"")], 0⟩)).1 =
      [some (.ok "say \"hi\" \"twice\""), some (.ok "say \"hi\" \"twice\"")] := by
  have hstore : (⟨[("q", "say \"hi\" \r\n\"twice\"")], 0⟩ : TemplateStore).text? "q" =
      some "say \"hi\" \r\n\"twice\"" := rfl
  have huses : ∀ q ∈ [.render "q" person fred [], .render "q" person fred []],
      EngineRequest.Uses "q" person q := by
    simp [EngineRequest.Uses]
  have hall := Engine.render_text plain_person (by decide) (by decide) (by decide) ⟨false, .debug⟩ #[]
    hstore huses
  obtain ⟨_, _, hfirst, hrest, heq⟩ := List.forall₂_cons_left_iff.1 hall
  obtain ⟨_, _, hlast, hnil, rfl⟩ := List.forall₂_cons_left_iff.1 hrest
  obtain rfl := List.forall₂_nil_left_iff.1 hnil
  rw [heq, hfirst fred rfl fills_fred, hlast fred rfl fills_fred]
  decide

/-- Quotes that meet when a line break is dropped do not render at all. -/
theorem render_text_meeting :
    person.Plain ∧ person.Fills fred ∧
      (∀ c ∈ "a\"\n\"b".toList, c ≠ '\x7b' ∧ c ≠ '\x7d' ∧ c ≠ '\\') ∧
      ((Engine.ofOptions .standard).render #[] "t" person fred [] .empty
        ⟨[("t", "a\"\n\"b")], 0⟩).1 ≠ .ok "a\"\"b" := by
  refine ⟨plain_person, fills_fred, by decide, fun hok => ?_⟩
  have hfails : ((GeneratedUnit.synthesize [Registry.standardNamespace] [] "t" "a\"\n\"b"
      person).toOption.all fun g => !(SourceUnit.parse g.source).isOk) = true := by
    decide +kernel
  have hstore : (⟨[("t", "a\"\n\"b")], 0⟩ : TemplateStore).text? "t" = some "a\"\n\"b" := rfl
  rw [Engine.render_empty hstore] at hok
  cases hcompile : (Engine.ofOptions .standard).compileTemplate #[] "t" "a\"\n\"b" person [] with
  | error e =>
    rw [hcompile] at hok
    cases hok
  | ok a =>
    obtain ⟨g, r, u, hg, -, hu, -⟩ := Engine.compileTemplate_eq_ok.1 hcompile
    have hg : GeneratedUnit.synthesize [Registry.standardNamespace] [] "t" "a\"\n\"b" person = .ok g := hg
    rw [hg] at hfails
    simp [Except.toOption, hu, Except.isOk, Except.toBool] at hfails

end Greeting

end TypedTemplate
