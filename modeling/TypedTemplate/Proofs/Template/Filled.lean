-- SUMMARY: The segments of a template compile, and evaluate to what the template's parts show.
import TypedTemplate.Proofs.Compile.Body
import TypedTemplate.Proofs.Compile.Budget
import TypedTemplate.Proofs.Semantics.Leaves
import TypedTemplate.Proofs.Template.Hole

/-!
# Filled templates

Against a flat model the segments of a template are well typed, whatever its fields are.
The only limits met are those on constants and pieces, at most two constants and one piece
for each content. Evaluated, the segments join what the parts of the template show.
-/

namespace TypedTemplate

/-! ## Flat models -/

theorem FieldKind.base_ne_optional (k k' : FieldKind) : k.base ≠ .optional k' := by
  induction k with
  | optional k ih => exact ih
  | _ => simp [base]

/-- No field holds a model. -/
def Shape.Flat (s : Shape) : Prop := ∀ f ∈ s.fields, ∀ i, f.kind.base ≠ .object i

/-- The value of a field of a model, null if it has none. -/
def Shape.value (s : Shape) (m : Instance) (name : String) : Value :=
  ((s.fieldIndex name).bind m.field).getD .null

/-- The model is of the shape's type and has all its fields. -/
structure Shape.Fills (s : Shape) (m : Instance) : Prop where
  typeName : m.typeName = s.hostName
  fields : ∀ i < s.fields.length, ∃ v, m.field i = some v

theorem Shape.mem_of_field {s : Shape} {name : String} {i : Nat} {f : Field}
    (h : s.field name = some (i, f)) : s.fieldIndex name = some i ∧ s.fields[i]? = some f := by
  obtain ⟨j, hj, hf⟩ := Option.bind_eq_some_iff.1 h
  obtain ⟨f', hf', heq⟩ := Option.map_eq_some_iff.1 hf
  obtain ⟨rfl, rfl⟩ := Prod.mk.inj heq
  exact ⟨hj, hf'⟩

theorem Shape.Fills.value {s : Shape} {m : Instance} (h : s.Fills m) {name : String} {i : Nat}
    {f : Field} (hf : s.field name = some (i, f)) : m.field i = some (s.value m name) := by
  obtain ⟨hindex, hfield⟩ := s.mem_of_field hf
  obtain ⟨v, hv⟩ := h.fields i (List.getElem?_eq_some_iff.1 hfield).1
  rw [Shape.value, hindex, Option.bind_some, hv]
  rfl

/-- A field that holds no model has a type. -/
theorem Ty.exists_ofField? (r : Registry) {k : FieldKind} (h : ∀ i, k.base ≠ .object i) :
    ∃ t, Ty.ofField? r k = some t ∧ (k.base = .str → t.kind = .str) := by
  unfold ofField?
  cases hbase : k.base with
  | optional k' => exact absurd hbase (k.base_ne_optional k')
  | object i => exact absurd hbase (h i)
  | str => exact ⟨_, rfl, fun _ => rfl⟩
  | bool => exact ⟨_, rfl, fun h => by cases h⟩
  | int => exact ⟨_, rfl, fun h => by cases h⟩
  | float => exact ⟨_, rfl, fun h => by cases h⟩

/-! ## Holes -/

namespace TemplateHole

/-- The index of the hole's field is a word. -/
def InReach (shape : Shape) (h : TemplateHole) : Prop :=
  ∀ i, shape.fieldIndex h.field = some i → i < UInt16.size

theorem Spells.constant?_eq_none {h : TemplateHole} {e : Expr} (he : h.Spells e) :
    e.constant? = none := by
  cases he <;> rfl

end TemplateHole

/-! ## Compiling -/

namespace Context

variable {c : Context} {shape : Shape} {n count left : Nat}

/-- The name `model` has the type of the shape, which is registered first. -/
structure Models (c : Context) (shape : Shape) : Prop where
  scope : ∃ slot l, c.scope.get? "model" = some (slot, l) ∧ l.type = .model 0
  registered : ∃ s, c.registry.shape? 0 = some s ∧ s.shape = shape
  flat : shape.Flat

theorem fold_of_constant? {e : Expr} {m : Emit Ty} (h : e.constant? = none) : c.fold e m = m := by
  unfold fold
  split
  · rename_i hv
    split at hv
    · rw [h] at hv
      cases hv
    · cases hv
  · rfl

theorem Models.member (hc : c.Models shape) {name : String} {i : Nat} {f : Field}
    (hf : shape.field name = some (i, f)) :
    ∃ t, Rule.member c.registry (.model 0) name = .ok (i, t) ∧ (f.kind.base = .str → t.kind = .str) := by
  obtain ⟨s, hs, rfl⟩ := hc.registered
  have hmem : f ∈ s.shape.fields := List.mem_of_getElem? (s.shape.mem_of_field hf).2
  obtain ⟨t, ht, hstr⟩ := Ty.exists_ofField? c.registry (hc.flat f hmem)
  refine ⟨t.orNull false, ?_, hstr⟩
  simp [Rule.member, Ty.model, hs, hf, ht]

/-- A read of a field costs its name. -/
theorem affords_read (hc : c.Models shape) {name : String} {i : Nat} {f : Field}
    (hf : shape.field name = some (i, f)) (hi : i < UInt16.size) (s s' s'' : Span) :
    (c.infer (.member (.name ⟨"model", s⟩) ⟨name, s'⟩ s'')).Affords (n + 1) fun t k =>
      k = n ∧ (f.kind.base = .str → t.kind = .str) := by
  obtain ⟨slot, l, hget, hl⟩ := hc.scope
  obtain ⟨t, hrule, hstr⟩ := hc.member hf
  have hname : (c.name ⟨"model", s⟩).Affords (n + 1) fun t k => t = .model 0 ∧ k = n + 1 := by
    unfold Context.name
    rw [hget]
    exact Emit.affords_instr.bind fun _ _ hk => Emit.affords_pure ⟨hl, hk⟩
  refine hname.bind fun t' k h => ?_
  obtain ⟨rfl, rfl⟩ := h
  unfold Context.member
  rw [hrule]
  refine Emit.affords_lift.bind fun found k h => ?_
  obtain ⟨rfl, rfl⟩ := h
  exact (Emit.affords_getField hi).bind fun _ k hk => Emit.affords_pure ⟨hk, hstr⟩

/-- A field or else a text costs two constants, and a jump over one push. -/
theorem affords_coalesce (hc : c.Models shape) {name text : String} {i : Nat} {f : Field}
    (hf : shape.field name = some (i, f)) (hi : i < UInt16.size) (hbase : f.kind.base = .str)
    (s s' s'' d d' : Span) :
    (c.infer (.binary .coalesce (.member (.name ⟨"model", s⟩) ⟨name, s'⟩ s'')
      (.literal (.str text) d) d')).Affords (n + 2) fun _ k => k = n := by
  have hpush : ∀ k, Emit.Affords (do Emit.instr d' .pop; c.infer (.literal (.str text) d)) (k + 1)
      fun t left => t = Ty.str ∧ left = k := by
    intro k
    refine Emit.affords_instr.bind fun _ _ hleft => ?_
    subst hleft
    exact (Emit.affords_constant _).bind fun _ _ hleft => Emit.affords_pure ⟨rfl, hleft⟩
  have hshort : ∀ pool a code pool',
      (do Emit.instr d' .pop; c.infer (.literal (.str text) d)) pool = ⟨.ok a, code, pool'⟩ →
        code.size ≤ 4 := by
    intro pool a code pool' h
    obtain ⟨_, _, _, _, hpop, hliteral, rfl⟩ := Emit.bind_ok.1 h
    obtain ⟨rfl, rfl⟩ := Emit.instr_ok.1 hpop
    obtain ⟨_, _, _, _, hstr, hpure, rfl⟩ := Emit.bind_ok.1 hliteral
    obtain ⟨-, rfl, rfl⟩ := Emit.constant_ok.1 hstr
    obtain ⟨-, rfl, -⟩ := Emit.pure_ok.1 hpure
    simp [Code.size, Instr.size, Instr.bytes, Instr.operands, wordBytes]
    split <;> simp
  have hnone : (Expr.binary .coalesce (.member (.name ⟨"model", s⟩) ⟨name, s'⟩ s'')
      (.literal (.str text) d) d').constant? = none := rfl
  have hfold := fold_of_constant? (c := c) (m := do
    let a ← c.infer (.member (.name ⟨"model", s⟩) ⟨name, s'⟩ s'')
    let b ← Emit.jumpOver d' .jumpIfNotNull 0 do
      Emit.instr d' .pop
      c.infer (.literal (.str text) d)
    Emit.lift d' (Rule.coalesce c.registry a b)) hnone
  rw [infer, hfold]
  refine (affords_read hc hf hi s s' s'').bind fun t k h => ?_
  obtain ⟨rfl, hkind⟩ := h
  refine (Emit.affords_jumpOver (hpush n) hshort (by decide)).bind fun u k h => ?_
  obtain ⟨rfl, rfl⟩ := h
  have hrule : Rule.coalesce c.registry t .str = .ok .str := by
    simp [Rule.coalesce, hkind hbase, Ty.str]
  rw [hrule]
  exact Emit.affords_lift.imp fun _ _ h => h.2

theorem affords_hole (hc : c.Models shape) {h : TemplateHole} {e : Expr} (hspells : h.Spells e)
    (hh : h.Valid shape) (hreach : h.InReach shape) : (c.infer e).Affords (n + 2) fun _ k => n ≤ k := by
  obtain ⟨i, f, hf, hbase⟩ := hh.field
  have hi : i < UInt16.size := hreach i (shape.mem_of_field hf).1
  cases hspells with
  | read s s' s'' _ =>
    refine ((affords_read hc hf hi s s' s'').imp fun _ k hk => ?_).of_le (Nat.le_succ _)
    exact Nat.le_of_eq hk.1.symm
  | orText s s' s'' d d' hdefault =>
    have hstr := hbase (by rw [hdefault]; rfl)
    exact (affords_coalesce hc hf hi hstr s s' s'' d d').imp fun _ k hk => Nat.le_of_eq hk.symm

/-- A content costs at most two constants and one piece. -/
theorem affords_segment (hc : c.Models shape) {content : TemplateContent} {s : Segment} {p : Pieces}
    (hspells : content.Spells s)
    (hcontent : ∀ h, content = .hole h → h.Valid shape ∧ h.InReach shape)
    (hp : p.Within (n + 2) count left) :
    (c.inferSegment p s).Affords left (Pieces.Within n (count + 1)) := by
  cases hspells with
  | text cs =>
    exact (p.affords_addText c.options.folds _ hp).imp fun q k hq =>
      ⟨Nat.le_trans (by omega) hq.1, hq.2⟩
  | @hole h e span he =>
    obtain ⟨hh, hreach⟩ := hcontent h rfl
    have hnone : (if c.options.folds then e.constant?.bind (Value.foldHole? none) else none) = none := by
      rw [he.constant?_eq_none]
      split <;> rfl
    simp only [inferSegment, hnone]
    refine (Pieces.affords_flush hp).bind fun q k hq => ?_
    obtain ⟨hpending, hk, hq⟩ := hq
    have hformat : ∀ t left, n ≤ left → (c.format t none).Affords left fun _ left => n ≤ left :=
      fun _ _ hleft => Emit.affords_pure hleft
    have hhole := ((affords_hole hc he hh hreach).bind hformat).of_le hk
    refine hhole.bind fun _ left hleft => Emit.affords_pure ?_
    have howed : Pieces.owed ⟨q.count + 1, false, q.pending, c.holeSpan e none⟩ = 0 := by
      rw [Pieces.owed, hpending]
      rfl
    refine ⟨?_, ?_⟩
    · rw [howed]
      exact hleft
    · rw [howed]
      exact Nat.succ_le_succ hq

theorem affords_segments (hc : c.Models shape) {contents : List TemplateContent}
    {segments : List Segment} {p : Pieces}
    (hspells : List.Forall₂ TemplateContent.Spells contents segments)
    (hcontents : ∀ h, .hole h ∈ contents → h.Valid shape ∧ h.InReach shape)
    (hp : p.Within (n + 2 * contents.length) count left) :
    (c.inferSegmentsOnto p [] segments).Affords left
      (Pieces.Within n (count + contents.length)) := by
  induction hspells generalizing p count left with
  | nil => exact Emit.affords_pure hp
  | @cons content s contents segments hs _ ih =>
    rw [inferSegmentsOnto_cons]
    have hfirst := affords_segment (n := n + 2 * contents.length) hc hs
      (fun h hh => hcontents h (hh ▸ List.mem_cons_self)) hp
    refine hfirst.bind fun q k hq => ?_
    have hlength : count + (content :: contents).length = count + 1 + contents.length := by
      rw [List.length_cons]
      omega
    rw [hlength]
    exact ih (fun h hh => hcontents h (List.mem_cons_of_mem _ hh)) hq

/-- A template costs two constants for each of its contents, and two more. -/
theorem affords_interpolated (hc : c.Models shape) {contents : List TemplateContent}
    {segments : List Segment} (hspells : List.Forall₂ TemplateContent.Spells contents segments)
    (hcontents : ∀ h, .hole h ∈ contents → h.Valid shape ∧ h.InReach shape)
    (hlength : contents.length < UInt16.size) (span : Span) :
    (c.infer (.interpolated segments span)).Affords (2 * contents.length + 2) fun t _ => t = .str := by
  have hjoin : (do
      let pieces ← c.inferSegmentsOnto (.start span) [] segments
      pieces.join span : Emit Ty).Affords (2 * contents.length + 2) fun t k => t = .str ∧ 1 ≤ k := by
    have hstart : (Pieces.start span).Within (2 + 2 * contents.length) 0 (2 * contents.length + 2) :=
      ⟨by rw [Pieces.owed]; simp [Pieces.start]; omega, Nat.le_refl _⟩
    refine (affords_segments hc hspells hcontents hstart).bind fun q k hq => ?_
    exact Pieces.affords_join hq (by omega)
  rw [infer]
  unfold fold
  split
  · rename_i v hv
    obtain ⟨s, rfl⟩ : ∃ s, v = .str s := by
      split at hv
      · obtain ⟨s, -, hs⟩ := Option.map_eq_some_iff.1 hv
        exact ⟨s, hs.symm⟩
      · cases hv
    refine hjoin.silently.bind fun t k ht => ?_
    obtain ⟨rfl, hk⟩ := ht
    refine ((Emit.affords_constant (.str s)).of_le hk).bind fun _ _ _ => ?_
    exact Emit.affords_pure rfl
  · exact hjoin.imp fun _ _ h => h.1

end Context

/-! ## Rendering -/

/-- The text that a content shows for a model. -/
def TemplateContent.render (s : Shape) (m : Instance) : TemplateContent → String
  | .text cs => String.ofList cs
  | .hole h  => h.render (s.value m h.field)

/-- The text that a part shows for a model. -/
def TemplatePart.render (s : Shape) (m : Instance) : TemplatePart → String
  | .text cs => String.ofList (cs.filter (!Embed.isLineBreak ·))
  | .brace b => String.ofList [braceChar b]
  | .hole h  => h.render (s.value m h.field)

/-- The text that a template shows for a model. -/
def TemplatePart.renderAll (s : Shape) (m : Instance) (ps : List TemplatePart) : String :=
  String.join (ps.map (·.render s m))

theorem TemplatePart.renderAll_cons (s : Shape) (m : Instance) (p : TemplatePart)
    (ps : List TemplatePart) : renderAll s m (p :: ps) = p.render s m ++ renderAll s m ps := by
  rw [renderAll, List.map_cons, String.join_cons]
  rfl

/-- The contents of parts show what the parts show. -/
theorem TemplatePart.join_contents (s : Shape) (m : Instance) (ps : List TemplatePart) :
    ∀ pending, String.join ((contents pending ps).map (·.render s m)) =
      String.ofList pending ++ renderAll s m ps := by
  have htext : ∀ cs, String.join ((textContent cs).map (·.render s m)) = String.ofList cs := by
    intro cs
    cases cs <;> simp [textContent, TemplateContent.render, String.join_cons]
  induction ps with
  | nil =>
    intro pending
    rw [contents, htext, renderAll]
    simp
  | cons p ps ih =>
    intro pending
    cases p with
    | hole h =>
      rw [contents, List.map_append, String.join_append, htext, List.map_cons, String.join_cons, ih [],
        renderAll_cons, String.ofList_nil, String.empty_append]
      rfl
    | text cs =>
      rw [contents, ih, renderAll_cons, ← String.append_assoc, TemplatePart.render]
      · simp [chars?]
      · simp
    | brace b =>
      rw [contents, ih, renderAll_cons, ← String.append_assoc, TemplatePart.render]
      · simp [chars?, -String.ofList_cons]
      · simp

/-- A model by its name. -/
def Env.ofModel (m : Instance) : Env := [⟨"model", .model 0, .object m⟩]

section

variable {r : Registry} {checked : Bool} {s : RegisteredShape} {m : Instance}

theorem eval_read (hshape : r.shape? 0 = some s) (hm : s.shape.Fills m) {name : String} {i : Nat}
    {f : Field} (hf : s.shape.field name = some (i, f)) (a b c : Span) :
    (Expr.member (.name ⟨"model", a⟩) ⟨name, b⟩ c).eval r checked (Env.ofModel m) =
      .ok (s.shape.value m name) := by
  have hindex := (s.shape.mem_of_field hf).1
  have hvalue := hm.value hf
  have hname : (Expr.name ⟨"model", a⟩).eval r checked (Env.ofModel m) = .ok (.object m) := rfl
  have hkind : (Expr.name ⟨"model", a⟩).kind r (Env.ofModel m) = .model 0 := rfl
  rw [Expr.eval, hname, hkind]
  simp [Value.evalField, Registry.fieldIndex?, hshape, hindex, hvalue, bind, Except.bind]

/-- The value of a hole has the text that the hole shows. -/
theorem eval_hole (hshape : r.shape? 0 = some s) (hm : s.shape.Fills m) {h : TemplateHole} {e : Expr}
    (he : h.Spells e) (hh : h.Valid s.shape) (span : Span) :
    (Segment.hole e none span).eval r checked (Env.ofModel m) =
      .ok (h.render (s.shape.value m h.field)) := by
  obtain ⟨i, f, hf, -⟩ := hh.field
  cases he with
  | read a b c hdefault =>
    rw [Segment.eval, eval_read hshape hm hf, TemplateHole.render, hdefault]
    rfl
  | @orText t a b c d d' hdefault =>
    rw [Segment.eval, Expr.eval, eval_read hshape hm hf, TemplateHole.render, hdefault]
    cases hnull : (s.shape.value m h.field).isNull <;>
      simp [hnull, bind, Except.bind, Expr.eval, Literal.value, Value.evalHole, Value.render, pure, Except.pure]

/-- The segments of a template join what its contents show. -/
theorem evalAll_segments (hshape : r.shape? 0 = some s) (hm : s.shape.Fills m)
    {contents : List TemplateContent} {segments : List Segment}
    (hspells : List.Forall₂ TemplateContent.Spells contents segments)
    (hcontents : ∀ h, .hole h ∈ contents → h.Valid s.shape) :
    Segment.evalAll r checked (Env.ofModel m) segments =
      .ok (String.join (contents.map (·.render s.shape m))) := by
  induction hspells with
  | nil => rfl
  | @cons content segment contents segments hfirst _ ih =>
    have hsegment : segment.eval r checked (Env.ofModel m) = .ok (content.render s.shape m) := by
      cases hfirst with
      | text cs => rfl
      | hole span he => exact eval_hole hshape hm he (hcontents _ List.mem_cons_self) span
    rw [Segment.evalAll, hsegment, ih fun h hh => hcontents h (List.mem_cons_of_mem _ hh),
      List.map_cons, String.join_cons]
    rfl

end

/-- No segment of a template has a float literal. -/
theorem TemplateContent.leavesAll_of_spells {contents : List TemplateContent} {segments : List Segment}
    (hspells : List.Forall₂ TemplateContent.Spells contents segments) :
    (Segment.leavesAll segments).any Expr.isFloat = false := by
  induction hspells with
  | nil => rfl
  | @cons content segment contents segments hfirst _ ih =>
    have hsegment : segment.leaves.any Expr.isFloat = false := by
      cases hfirst with
      | text cs => rfl
      | hole span he => cases he <;> rfl
    rw [Segment.leavesAll, List.any_append, hsegment, ih]
    rfl

end TypedTemplate
