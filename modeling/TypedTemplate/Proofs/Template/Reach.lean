-- SUMMARY: A template compiles only if its fields have indices that are words.
import TypedTemplate.Proofs.Template.Compiled

/-!
# Fields in reach

The code of a field read holds the field's index as a word. So no template compiles that
reads a field further back in its shape.
-/

namespace TypedTemplate

namespace Context

variable {c : Context} {shape : Shape} {P P' : Pool} {code : Code}

/-- A hole that compiles reads a field in reach. -/
theorem inReach_of_infer (hc : c.Models shape) {h : TemplateHole} {e : Expr} {t : Ty}
    (he : h.Spells e) (hok : c.infer e P = ⟨.ok t, code, P'⟩) : h.InReach shape := by
  have hread : ∀ {a b d : Span} {P P' : Pool} {code : Code} {t : Ty},
      c.infer (.member (.name ⟨"model", a⟩) ⟨h.field, b⟩ d) P = ⟨.ok t, code, P'⟩ → h.InReach shape := by
    intro a b d P P' code t hok
    obtain ⟨u, _, _, _, hname, hmember, -⟩ := Emit.bind_ok.1 hok
    obtain ⟨slot, l, hget, rfl, -⟩ := name_ok hname
    obtain ⟨index, hrule, hfield⟩ := member_ok hmember
    obtain ⟨slot', l', hmodel, htype⟩ := hc.scope
    obtain ⟨s, hs, rfl⟩ := hc.registered
    obtain rfl : l = l' := congrArg Prod.snd (Option.some.inj (hget.symm.trans hmodel))
    obtain ⟨id, s', f, v, hkind, hs', hf, -⟩ := Rule.member_ok hrule
    have hid : id = 0 := by
      rw [htype] at hkind
      exact (TyKind.model.inj hkind).symm
    obtain rfl : s = s' := Option.some.inj (hs.symm.trans (hid ▸ hs'))
    intro i hi
    obtain rfl : index = i := Option.some.inj ((s.shape.mem_of_field hf).1.symm.trans hi)
    exact (Emit.getField_ok.1 hfield).1
  cases he with
  | read a b d hdefault => exact hread hok
  | orText a b d d' d'' hdefault =>
    obtain ⟨_, _, hbinary⟩ := fold_type hok
    obtain ⟨_, _, _, _, hleft, -⟩ := Emit.bind_ok.1 hbinary
    exact hread hleft

theorem inReach_of_segments (hc : c.Models shape) {contents : List TemplateContent}
    {segments : List Segment} {p q : Pieces}
    (hspells : List.Forall₂ TemplateContent.Spells contents segments)
    (hok : c.inferSegmentsOnto p [] segments P = ⟨.ok q, code, P'⟩) :
    ∀ h, .hole h ∈ contents → h.InReach shape := by
  induction hspells generalizing p P code with
  | nil => exact fun _ hh => nomatch hh
  | @cons content segment contents segments hfirst _ ih =>
    obtain ⟨q', _, _, _, hsegment, hrest, -⟩ := segments_ok hok
    intro h hh
    rcases List.mem_cons.1 hh with rfl | hh
    · cases hfirst with
      | hole span he =>
        obtain ⟨_, _, _, _, _, hinfer, -⟩ := hole_ok hsegment
        exact inReach_of_infer hc he hinfer
    · exact ih hrest h hh

end Context

/-- A unit that compiles reads fields in reach. -/
theorem Signature.Renders.inReach_of_compile {r : Registry} {o : Options} {shape : Shape}
    {contents : List TemplateContent} {s : Signature} {u : SourceUnit} {q : String} {a : Artifact}
    (h : s.Renders shape (List.Forall₂ TemplateContent.Spells contents)) (hr : r.Knows shape)
    (hflat : shape.Flat) (hu : u.signatures r = ([⟨q, [s]⟩], [])) (ha : u.compile r o = .ok a) :
    ∀ h, .hole h ∈ contents → h.InReach shape := by
  obtain ⟨scope, hscope, hmodel⟩ := h.exists_scope
  obtain ⟨stmt, hstmts, segments, span, span', rfl, hspells⟩ := h.body
  have hmodels : Context.Models ⟨r, o, scope⟩ shape := ⟨hmodel, ⟨_, hr.shape?, rfl⟩, hflat⟩
  have hself : s.namesItself = false := by
    rw [Signature.namesItself, hstmts]
    rfl
  have herrors : Diagnostics.hasErrors (s.compile r o .empty []).2.2 = false := by
    have hfinal := (SourceUnit.compile_eq_ok ha).1
    rw [SourceUnit.final, SourceUnit.registered, hu] at hfinal
    simpa [Compilation.after] using hfinal
  have hfaults := Signature.faults_eq_nil hself herrors
  have hbody : s.body .empty [] = .start scope .empty [] := by
    simp only [Signature.body, hscope]
  rw [Signature.faults, hbody, hstmts, Body.faults, List.append_eq_nil_iff,
    Option.toList_eq_nil_iff] at hfaults
  obtain ⟨code, P, hret⟩ := Body.fault?_ret hfaults.1
  obtain ⟨t, _, _, hinfer, -⟩ := Body.ret_ok hret
  obtain ⟨_, _, hinterpolated⟩ := Context.fold_type hinfer
  obtain ⟨p, _, _, _, hsegments, -⟩ := Emit.bind_ok.1 hinterpolated
  exact Context.inReach_of_segments hmodels hspells hsegments

/-- A template that compiles reads fields in reach. -/
theorem Engine.inReach_of_compileTemplate {shape : Shape} {parts : List TemplatePart} {id : String}
    {o : Options} {catalog : Catalog} {a : Artifact} (hshape : shape.Plain) (hid : id ≠ "")
    (hvalid : ∀ p ∈ parts, p.Valid shape) (hapart : TemplatePart.textsApart parts = true)
    (ha : (ofOptions o).compileTemplate catalog id (TemplatePart.template parts) shape [] = .ok a) :
    ∀ h, .hole h ∈ TemplatePart.contents [] parts → h.InReach shape := by
  obtain ⟨g, u, xs, hg, hmodel, -, hxs, hparse, hwritten⟩ :=
    GeneratedUnit.exists_written hshape hid hvalid hapart
  obtain ⟨r, hregistry, hr⟩ := Registry.exists_registry hshape o catalog
  obtain ⟨s, hsignatures, hs⟩ := hwritten.exists_signature hr hshape hxs
  obtain ⟨g', r', u', hg', hregistry', hparse', hcompile⟩ := compileTemplate_eq_ok.1 ha
  obtain rfl : g = g' := Except.ok.inj (hg.symm.trans hg')
  obtain rfl : r = r' := Except.ok.inj ((hmodel ▸ hregistry).symm.trans hregistry')
  obtain rfl : u = u' := Except.ok.inj (hparse.symm.trans hparse')
  exact hs.inReach_of_compile hr hshape.flat hsignatures hcompile

end TypedTemplate
