-- SUMMARY: What a successful compilation of an expression is made of, and the type it finds.
import TypedTemplate.Proofs.Code.Emission
import TypedTemplate.Proofs.Compile.Rule
import TypedTemplate.Proofs.Compile.Scope

/-!
# Inferred types

An expression that compiles is well typed: the type found by the compiler is the
static one, in a release build as well, where a constant expression is compiled
before its code is replaced.
-/

namespace TypedTemplate

namespace Context

variable {c : Context} {P P' : Pool} {code : Code} {t : Ty} {span : Span}

/-! ## Types -/

/-- A folded expression has been compiled as well. -/
theorem fold_ok {e : Expr} {m : Emit Ty} (h : c.fold e m P = ⟨.ok t, code, P'⟩) :
    (∃ v c₁ P₁, (if c.options.folds then e.constant? else none) = some v ∧
      m P = ⟨.ok t, c₁, P₁⟩ ∧ Emit.value e.span v P₁ = ⟨.ok ⟨⟩, code, P'⟩) ∨
    ((if c.options.folds then e.constant? else none) = none ∧ m P = ⟨.ok t, code, P'⟩) := by
  unfold fold at h
  cases hv : (if c.options.folds then e.constant? else none) with
  | none =>
    rw [hv] at h
    exact .inr ⟨rfl, h⟩
  | some v =>
    rw [hv] at h
    simp only [Emit.bind_ok, Emit.silently_ok, Emit.pure_ok] at h
    obtain ⟨_, _, P₁, _, ⟨rfl, c₁, hm⟩, ⟨_, c₂, P₂, _, hvalue, ⟨rfl, rfl, rfl⟩, rfl⟩, rfl⟩ := h
    refine .inl ⟨v, c₁, P₁, rfl, hm, ?_⟩
    simpa using hvalue

theorem fold_type {e : Expr} {m : Emit Ty} (h : c.fold e m P = ⟨.ok t, code, P'⟩) :
    ∃ c₁ P₁, m P = ⟨.ok t, c₁, P₁⟩ := by
  rcases fold_ok h with ⟨_, c₁, P₁, -, hm, -⟩ | ⟨-, hm⟩
  · exact ⟨c₁, P₁, hm⟩
  · exact ⟨code, P', hm⟩

theorem literal_type {l : Literal} (h : literal span l P = ⟨.ok t, code, P'⟩) : t = l.type := by
  cases l <;>
    · simp only [literal, Emit.bind_ok, Emit.pure_ok] at h
      obtain ⟨_, _, _, _, -, ⟨rfl, -⟩, -⟩ := h
      rfl

theorem name_ok {x : Ident} (h : c.name x P = ⟨.ok t, code, P'⟩) :
    ∃ slot l, c.scope.get? x.name = some (slot, l) ∧ t = l.type ∧
      code = [⟨x.span.line, .getLocal (UInt8.ofNat slot)⟩] ∧ P' = P := by
  unfold name at h
  cases hget : c.scope.get? x.name with
  | none =>
    rw [hget] at h
    simp [Emit.fail] at h
  | some found =>
    obtain ⟨slot, l⟩ := found
    rw [hget] at h
    simp only [Emit.bind_ok, Emit.instr_ok, Emit.pure_ok] at h
    obtain ⟨_, _, _, _, ⟨rfl, rfl⟩, ⟨rfl, rfl, rfl⟩, rfl⟩ := h
    exact ⟨slot, l, rfl, rfl, by simp, rfl⟩

theorem member_ok {u : Ty} {field : Ident} (h : c.member t field span P = ⟨.ok u, code, P'⟩) :
    ∃ index, Rule.member c.registry t field.name = .ok (index, u) ∧
      Emit.getField span index field.name P = ⟨.ok ⟨⟩, code, P'⟩ := by
  simp only [member, Emit.bind_ok, Emit.lift_ok, Emit.pure_ok] at h
  obtain ⟨⟨index, u'⟩, _, _, _, ⟨hrule, rfl, rfl⟩, ⟨_, _, _, _, hfield, ⟨rfl, rfl, rfl⟩, rfl⟩, rfl⟩ := h
  exact ⟨index, hrule, by simpa using hfield⟩

theorem call_ok {u : Ty} {method : Ident} {args : List Expr}
    (h : c.call t method args span P = ⟨.ok u, code, P'⟩) :
    ∃ is, args = [] ∧ Rule.method c.registry method.name t = .ok (is, u) ∧
      code = Code.on span.line is ∧ P' = P := by
  simp only [call, Emit.bind_ok, Emit.lift_ok, Emit.ruling_ok] at h
  obtain ⟨⟨is', u'⟩, _, _, _, ⟨hrule, rfl, rfl⟩, ⟨_, _, _, _, ⟨hargs, rfl, rfl⟩, ⟨is, hok, rfl, rfl⟩, rfl⟩, rfl⟩ := h
  cases hok
  refine ⟨is', ?_, hrule, rfl, rfl⟩
  unfold Rule.arguments at hargs
  split at hargs
  · exact List.length_eq_zero_iff.1 ‹_›
  · simp at hargs

theorem format_ok {format : Option FormatSpec} {a : PUnit}
    (h : c.format t format P = ⟨.ok a, code, P'⟩) :
    Rule.takes format t = true ∧ P' = P ∧
      code = (format.map fun spec => ⟨spec.span.line, .format spec.kind⟩).toList := by
  cases format with
  | none =>
    simp only [Context.format, Emit.pure_ok] at h
    exact ⟨rfl, h.2.2, h.2.1⟩
  | some spec =>
    simp only [Context.format, Emit.bind_ok, Emit.lift_ok, Emit.instr_ok] at h
    obtain ⟨_, _, _, _, ⟨hrule, rfl, rfl⟩, ⟨rfl, rfl⟩, rfl⟩ := h
    refine ⟨?_, rfl, rfl⟩
    unfold Rule.format at hrule
    split at hrule
    · assumption
    · simp at hrule

/-- A hole is replaced by its text, or its value is pushed behind the pending text. -/
theorem hole_ok {p q : Pieces} {e : Expr} {format : Option FormatSpec}
    (h : c.inferSegment p (.hole e format span) P = ⟨.ok q, code, P'⟩) :
    ∃ t c₁ P₁ c₂ P₂, c.infer e P₁ = ⟨.ok t, c₁, P₂⟩ ∧
      c.format t format P₂ = ⟨.ok ⟨⟩, c₂, P'⟩ ∧
      ((∃ s, (if c.options.folds then e.constant?.bind (Value.foldHole? format) else none) = some s ∧
          code = [] ∧
          q = { p with span := c.holeSpan e format, pending := some (p.pending.getD "" ++ s) }) ∨
        ((if c.options.folds then e.constant?.bind (Value.foldHole? format) else none) = none ∧
          ∃ p' c₀, p.flush P = ⟨.ok p', c₀, P₁⟩ ∧ code = c₀ ++ (c₁ ++ c₂) ∧
            q = { p' with
              count := p'.count + 1, onlyText := false, span := c.holeSpan e format })) := by
  simp only [inferSegment] at h
  cases hs : (if c.options.folds then e.constant?.bind (Value.foldHole? format) else none) with
  | some s =>
    simp only [hs, Emit.bind_ok, Emit.silently_ok, Pieces.addText, if_true, Emit.pure_ok] at h
    obtain ⟨_, _, _, _, ⟨rfl, _, t, c₁, P₂, c₂, he, hformat, rfl⟩, ⟨rfl, rfl, rfl⟩, rfl⟩ := h
    exact ⟨t, c₁, P, c₂, P₂, he, hformat, .inl ⟨s, rfl, rfl, rfl⟩⟩
  | none =>
    simp only [hs, Emit.bind_ok, Emit.pure_ok] at h
    obtain ⟨p', c₀, P₁, _, hflush, ⟨_, _, _, _, ⟨t, c₁, P₂, c₂, he, hformat, rfl⟩,
      ⟨rfl, rfl, rfl⟩, rfl⟩, rfl⟩ := h
    exact ⟨t, c₁, P₁, c₂, P₂, he, hformat, .inr ⟨rfl, p', c₀, hflush, by simp, rfl⟩⟩

theorem segments_ok {p q : Pieces} {s : Segment} {rest : List Segment}
    (h : c.inferSegmentsOnto p [] (s :: rest) P = ⟨.ok q, code, P'⟩) :
    ∃ p' c₁ P₁ c₂, c.inferSegment p s P = ⟨.ok p', c₁, P₁⟩ ∧
      c.inferSegmentsOnto p' [] rest P₁ = ⟨.ok q, c₂, P'⟩ ∧ code = c₁ ++ c₂ := by
  rw [inferSegmentsOnto_cons, Emit.bind_ok] at h
  exact h

/-- The pending text is pushed, and then the pieces are joined unless one string is all. -/
theorem join_ok {p : Pieces} (h : p.join span P = ⟨.ok t, code, P'⟩) :
    t = .str ∧ ∃ q c₁ P₁ c₂, p.flush P = ⟨.ok q, c₁, P₁⟩ ∧ code = c₁ ++ c₂ ∧
      ((q.count = 0 ∧ Emit.str span "" P₁ = ⟨.ok ⟨⟩, c₂, P'⟩) ∨
        (q.count = 1 ∧ q.onlyText = true ∧ c₂ = [] ∧ P' = P₁) ∨
        (q.count < UInt16.size ∧ c₂ = [⟨span.line, .buildString (UInt16.ofNat q.count)⟩] ∧
          P' = P₁)) := by
  simp only [Pieces.join, Emit.bind_ok] at h
  obtain ⟨q, c₁, P₁, _, hflush, h, rfl⟩ := h
  by_cases hzero : q.count = 0
  · simp only [hzero, if_true, Emit.bind_ok, Emit.pure_ok] at h
    obtain ⟨_, c₂, _, _, hstr, ⟨rfl, rfl, rfl⟩, rfl⟩ := h
    exact ⟨rfl, q, c₁, P₁, c₂, hflush, by simp, .inl ⟨hzero, hstr⟩⟩
  · by_cases hone : q.count = 1 ∧ q.onlyText = true
    · rw [if_neg hzero, if_pos hone, Emit.pure_ok] at h
      obtain ⟨rfl, rfl, rfl⟩ := h
      exact ⟨rfl, q, c₁, _, [], hflush, rfl, .inr (.inl ⟨hone.1, hone.2, rfl, rfl⟩)⟩
    · simp only [hzero, hone, if_false, Emit.bind_ok, Emit.counted_ok, Emit.pure_ok] at h
      obtain ⟨_, c₂, _, _, ⟨hcount, rfl, rfl⟩, ⟨rfl, rfl, rfl⟩, rfl⟩ := h
      exact ⟨rfl, q, c₁, _, _, hflush, by simp, .inr (.inr ⟨hcount, rfl, rfl⟩)⟩

mutual

/-- The type found by the compiler is the static one. -/
theorem infer_type {Γ : Typing} (hs : c.scope.Types Γ) : (e : Expr) → ∀ {P P' : Pool} {t : Ty}
    {code : Code}, c.infer e P = ⟨.ok t, code, P'⟩ → e.type? c.registry Γ = some t
  | .literal l span, _, _, _, _, h => by
    rw [literal_type h]
    rfl
  | .name x, _, _, _, _, h => by
    obtain ⟨slot, l, hget, rfl, -, -⟩ := name_ok h
    exact hs x.name slot l hget
  | .member e field span, _, _, _, _, h => by
    simp only [infer, Emit.bind_ok] at h
    obtain ⟨t, _, _, _, he, h, -⟩ := h
    obtain ⟨index, hrule, -⟩ := member_ok h
    exact type?_member.2 ⟨t, index, infer_type hs e he, hrule⟩
  | .call e method args span, _, _, _, _, h => by
    obtain ⟨_, _, h⟩ := fold_type h
    simp only [Emit.bind_ok] at h
    obtain ⟨t, _, _, _, he, h, -⟩ := h
    obtain ⟨is, hargs, hrule, -, -⟩ := call_ok h
    exact type?_call.2 ⟨t, is, infer_type hs e he, hargs, hrule⟩
  | .unary op e span, _, _, _, _, h => by
    obtain ⟨_, _, h⟩ := fold_type h
    simp only [Emit.bind_ok, Emit.ruling_ok] at h
    obtain ⟨t, _, _, _, he, ⟨is, hrule, -, -⟩, -⟩ := h
    obtain ⟨js, hrule⟩ := Rule.unary_standard hrule
    exact type?_unary.2 ⟨t, js, infer_type hs e he, hrule⟩
  | .binary op l r span, _, _, _, _, h => by
    by_cases hop : op = .coalesce
    · subst hop
      obtain ⟨_, _, h⟩ := fold_type h
      simp only [Emit.bind_ok, Emit.jumpOver_ok, Emit.lift_ok] at h
      obtain ⟨a, _, _, _, hl, ⟨b, _, _, _, ⟨_, ⟨_, _, _, _, -, hr, -⟩, -⟩, ⟨hrule, -⟩, -⟩, -⟩ := h
      exact type?_coalesce.2 ⟨a, b, infer_type hs l hl, infer_type hs r hr, hrule⟩
    · rw [c.infer_binary l r span hop] at h
      obtain ⟨_, _, h⟩ := fold_type h
      simp only [Emit.bind_ok, Emit.ruling_ok] at h
      obtain ⟨a, _, _, _, hl, ⟨b, _, _, _, hr, ⟨is, hrule, -, -⟩, -⟩, -⟩ := h
      obtain ⟨js, hrule⟩ := Rule.binary_standard hrule
      exact type?_binary.2 ⟨a, b, js, infer_type hs l hl, infer_type hs r hr, hrule⟩
  | .ternary e t f span, _, _, _, _, h => by
    obtain ⟨_, _, h⟩ := fold_type h
    simp only [Emit.bind_ok, Emit.jumpOver_ok, Emit.lift_ok] at h
    obtain ⟨k, _, _, _, he, ⟨_, _, _, _, ⟨hcondition, -, -⟩,
      ⟨a, _, _, _, ⟨_, ht, -, -⟩, ⟨b, _, _, _, ⟨_, hf, -, -⟩, ⟨hrule, -, -⟩, -⟩, -⟩, -⟩, -⟩ := h
    have hbool : k = .bool := by
      unfold Rule.condition at hcondition
      split at hcondition
      · assumption
      · simp at hcondition
    subst hbool
    exact type?_ternary.2 ⟨a, b, infer_type hs e he, infer_type hs t ht, infer_type hs f hf, hrule⟩
  | .interpolated parts span, _, _, _, _, h => by
    obtain ⟨_, _, h⟩ := fold_type h
    simp only [Emit.bind_ok] at h
    obtain ⟨q, _, _, _, hparts, hjoin, -⟩ := h
    exact type?_interpolated.2 ⟨inferSegments_typed hs parts hparts, (join_ok hjoin).1⟩
  | .paren e span, _, _, _, _, h => by
    obtain ⟨_, _, h⟩ := fold_type h
    exact infer_type hs e h

theorem inferSegment_typed {Γ : Typing} (hs : c.scope.Types Γ) : (s : Segment) →
    ∀ {p q : Pieces} {P P' : Pool} {code : Code}, c.inferSegment p s P = ⟨.ok q, code, P'⟩ →
      s.typed c.registry Γ = true
  | .text _, _, _, _, _, _, _ => rfl
  | .hole e format span, _, _, _, _, _, h => by
    obtain ⟨t, _, _, _, _, he, hformat, -⟩ := hole_ok h
    exact typed_hole.2 ⟨t, infer_type hs e he, (format_ok hformat).1⟩

theorem inferSegments_typed {Γ : Typing} (hs : c.scope.Types Γ) : (segments : List Segment) →
    ∀ {p q : Pieces} {P P' : Pool} {code : Code},
      c.inferSegmentsOnto p [] segments P = ⟨.ok q, code, P'⟩ →
      Segment.allTyped c.registry Γ segments = true
  | [], _, _, _, _, _, _ => rfl
  | s :: rest, _, _, _, _, _, h => by
    obtain ⟨_, _, _, _, hfirst, hrest, -⟩ := segments_ok h
    simp [Segment.allTyped, inferSegment_typed hs s hfirst, inferSegments_typed hs rest hrest]

end

end Context

end TypedTemplate
