-- SUMMARY: The debug code of a constant expression pushes the value that a release build replaces it by.
import TypedTemplate.Proofs.Compile.Expr
import TypedTemplate.Proofs.Compile.Floats
import TypedTemplate.Proofs.Compile.Level
import TypedTemplate.Proofs.Grammar.Numerals
import TypedTemplate.Proofs.Semantics.Soundness

/-!
# Constants and the code for them

A release build pushes the value of a constant expression, a debug build runs its code. The value
is computed from values alone, while the code is chosen by static types. Both give the same value:
the code never fails, whatever is on the stack and in the locals, for no constant mentions a name.
The sign of a zero agrees too, as a parsed expression has no literal zeros of two signs.
-/

namespace TypedTemplate

/-! ## Leaves of constants -/

mutual

/-- A constant expression mentions no name. -/
theorem name_notMem_leaves (x : Ident) : (e : Expr) → ∀ {v : Value}, e.constant? = some v →
    .name x ∉ e.leaves
  | .literal l span, _, _ => by simp [Expr.leaves]
  | .name y, _, hv => by simp [Expr.constant?] at hv
  | .member e field span, _, hv => by simp [Expr.constant?] at hv
  | .call e method args span, _, hv => by
    simp only [Expr.constant?] at hv
    split at hv
    · rename_i hargs
      obtain rfl := List.isEmpty_iff.1 hargs
      obtain ⟨v, hv, -⟩ := Option.bind_eq_some_iff.1 hv
      simpa [Expr.leaves, Expr.leavesAll] using name_notMem_leaves x e hv
    · simp at hv
  | .unary op e span, y, hv => by
    obtain ⟨v, hv, -⟩ := Option.bind_eq_some_iff.1 (hv : e.constant?.bind _ = some y)
    exact name_notMem_leaves x e hv
  | .binary op l r span, _, hv => by
    have hoperands : ∃ v w, l.constant? = some v ∧ r.constant? = some w := by
      by_cases hop : op = .coalesce
      · subst hop
        exact ⟨_, _, constant?_coalesce hv⟩
      · obtain ⟨v, w, hl, hr, -⟩ := constant?_binary hop hv
        exact ⟨v, w, hl, hr⟩
    obtain ⟨v, w, hl, hr⟩ := hoperands
    simp [Expr.leaves, name_notMem_leaves x l hl, name_notMem_leaves x r hr]
  | .ternary e t f span, _, hv => by
    obtain ⟨k, v, w, he, ht, hf, -⟩ := constant?_ternary hv
    simp [Expr.leaves, name_notMem_leaves x e he, name_notMem_leaves x t ht,
      name_notMem_leaves x f hf]
  | .interpolated parts span, y, hv => by
    obtain ⟨s, hs, -⟩ :=
      Option.map_eq_some_iff.1 (hv : (Segment.constantOnto? "" parts).map _ = some y)
    exact name_notMem_leavesAll x parts hs
  | .paren e span, _, hv => name_notMem_leaves x e hv

theorem name_notMem_leaves_segment (x : Ident) : (s : Segment) → ∀ {t : String},
    s.constant? = some t → .name x ∉ s.leaves
  | .text s, _, _ => by simp [Segment.leaves]
  | .hole e format span, s, hs => by
    obtain ⟨v, hv, -⟩ := Option.bind_eq_some_iff.1 (hs : e.constant?.bind _ = some s)
    exact name_notMem_leaves x e hv

theorem name_notMem_leavesAll (x : Ident) : (segments : List Segment) → ∀ {out s : String},
    Segment.constantOnto? out segments = some s → .name x ∉ Segment.leavesAll segments
  | [], _, _, _ => by simp [Segment.leavesAll]
  | s :: rest, _, _, hs => by
    simp only [Segment.constantOnto?] at hs
    split at hs
    · rename_i t ht
      simp [Segment.leavesAll, name_notMem_leaves_segment x s ht, name_notMem_leavesAll x rest hs]
    · simp at hs

end

mutual

/-- The floats that debug code reads are literals of the expression. -/
theorem mem_leaves_of_mem_loads {x : Float} : (e : Expr) → x ∈ e.loads false →
    ∃ span, .literal (.float x) span ∈ e.leaves
  | .literal l span, h => by
    cases l with
    | float y =>
      obtain rfl : x = y := List.mem_singleton.1 h
      exact ⟨span, List.mem_singleton.2 rfl⟩
    | _ => cases h
  | .name _, h => by cases h
  | .member e _ _, h => mem_leaves_of_mem_loads e h
  | .call e _ args _, h => by
    obtain ⟨span, hmem⟩ := mem_leaves_of_mem_loads e h
    exact ⟨span, List.mem_append_left _ hmem⟩
  | .unary _ e _, h => mem_leaves_of_mem_loads e h
  | .binary _ l r _, h => by
    rcases List.mem_append.1 h with h | h
    · obtain ⟨span, hmem⟩ := mem_leaves_of_mem_loads l h
      exact ⟨span, List.mem_append_left _ hmem⟩
    · obtain ⟨span, hmem⟩ := mem_leaves_of_mem_loads r h
      exact ⟨span, List.mem_append_right _ hmem⟩
  | .ternary e t f _, h => by
    rcases List.mem_append.1 h with h | h
    · obtain ⟨span, hmem⟩ := mem_leaves_of_mem_loads e h
      exact ⟨span, List.mem_append_left _ hmem⟩
    rcases List.mem_append.1 h with h | h
    · obtain ⟨span, hmem⟩ := mem_leaves_of_mem_loads t h
      exact ⟨span, List.mem_append_right _ (List.mem_append_left _ hmem)⟩
    · obtain ⟨span, hmem⟩ := mem_leaves_of_mem_loads f h
      exact ⟨span, List.mem_append_right _ (List.mem_append_right _ hmem)⟩
  | .interpolated parts _, h => mem_leavesAll_of_mem_loadsAll parts h
  | .paren e _, h => mem_leaves_of_mem_loads e h

theorem mem_leavesAll_of_mem_loadsAll {x : Float} : (segments : List Segment) →
    x ∈ Segment.loadsAll false segments →
    ∃ span, .literal (.float x) span ∈ Segment.leavesAll segments
  | [], h => by cases h
  | .text _ :: rest, h => mem_leavesAll_of_mem_loadsAll rest h
  | .hole e _ _ :: rest, h => by
    rcases List.mem_append.1 h with h | h
    · obtain ⟨span, hmem⟩ := mem_leaves_of_mem_loads e h
      exact ⟨span, List.mem_append_left _ hmem⟩
    · obtain ⟨span, hmem⟩ := mem_leavesAll_of_mem_loadsAll rest h
      exact ⟨span, List.mem_append_right _ hmem⟩

end

/-! ## Scopes -/

namespace Context

variable {c : Context} {s : Scope} {P pool : Pool} {code : Code} {span : Span}

/-- The context in another scope. -/
def inScope (c : Context) (s : Scope) : Context := { c with scope := s }

theorem lastSpan_inScope : (e : Expr) → (c.inScope s).lastSpan e = c.lastSpan e
  | .paren e span => by
    simp only [lastSpan, lastSpan_inScope e]
    rfl
  | .literal _ _ | .name _ | .member _ _ _ | .call _ _ _ _ | .unary _ _ _ | .binary _ _ _ _
  | .ternary _ _ _ _ | .interpolated _ _ => rfl

mutual

/-- An expression is compiled alike in scopes that agree on the names it mentions. -/
theorem infer_inScope : (e : Expr) →
    (∀ x : Ident, .name x ∈ e.leaves → s.get? x.name = c.scope.get? x.name) →
    (c.inScope s).infer e = c.infer e
  | .literal _ _, _ => rfl
  | .name x, h => by simp only [infer, name, inScope, h x (List.mem_singleton.2 rfl)]
  | .member e field span, h => by
    simp only [infer, infer_inScope e h]
    rfl
  | .call e method args span, h => by
    simp only [infer, infer_inScope e fun x hx => h x (List.mem_append_left _ hx)]
    rfl
  | .unary op e span, h => by
    simp only [infer, infer_inScope e h]
    rfl
  | .binary op l r span, h => by
    have hl := infer_inScope l fun x hx => h x (List.mem_append_left _ hx)
    have hr := infer_inScope r fun x hx => h x (List.mem_append_right _ hx)
    by_cases hop : op = .coalesce
    · subst hop
      simp only [infer, hl, hr]
      rfl
    · rw [infer_binary _ l r span hop, infer_binary _ l r span hop, hl, hr]
      rfl
  | .ternary e t f span, h => by
    have he := infer_inScope e fun x hx => h x (List.mem_append_left _ hx)
    have ht := infer_inScope t fun x hx => h x (List.mem_append_right _ (List.mem_append_left _ hx))
    have hf := infer_inScope f fun x hx => h x (List.mem_append_right _ (List.mem_append_right _ hx))
    simp only [infer, he, ht, hf]
    rfl
  | .interpolated parts span, h => by
    simp only [infer, inferSegments_inScope _ _ parts h]
    rfl
  | .paren e span, h => by
    simp only [infer, infer_inScope e h]
    rfl

theorem inferSegment_inScope (p : Pieces) : (segment : Segment) →
    (∀ x : Ident, .name x ∈ segment.leaves → s.get? x.name = c.scope.get? x.name) →
    (c.inScope s).inferSegment p segment = c.inferSegment p segment
  | .text _, _ => rfl
  | .hole e format span, h => by
    simp only [inferSegment, infer_inScope e h, holeSpan, lastSpan_inScope]
    rfl

theorem inferSegments_inScope (p : Pieces) (out : Code) : (segments : List Segment) →
    (∀ x : Ident, .name x ∈ Segment.leavesAll segments → s.get? x.name = c.scope.get? x.name) →
    (c.inScope s).inferSegmentsOnto p out segments = c.inferSegmentsOnto p out segments
  | [], _ => rfl
  | segment :: rest, h => by
    funext P
    simp only [inferSegmentsOnto,
      inferSegment_inScope p segment fun x hx => h x (List.mem_append_left _ hx)]
    split
    · rw [inferSegments_inScope _ _ rest fun x hx => h x (List.mem_append_right _ hx)]
    · rfl

end

/-! ## Constants in a debug build -/

theorem infer_inScope_of_constant {e : Expr} {v : Value} (hv : e.constant? = some v) :
    (c.inScope s).infer e = c.infer e :=
  infer_inScope e fun x hx => absurd hx (name_notMem_leaves x e hv)

/-- The code of a debug build reads the floats of an expression with one zero as they are. -/
theorem keeps_loads (hlevel : c.options.level = .debug) {e : Expr} (he : OneZero e.leaves)
    (hpool : pool.Consistent) (hdraws : pool.Draws fun x => x ∈ e.loads false) :
    (c.build pool).Keeps (e.loads (c.build pool).folds) := by
  have hfolds : (c.build pool).folds = false := by simp [build, Options.folds, hlevel]
  rw [hfolds]
  refine fun x hx => hdraws.readFloat_eq hpool (fun x y hx hy hx0 hy0 => ?_) hx
  obtain ⟨span, hx⟩ := mem_leaves_of_mem_loads e hx
  obtain ⟨span', hy⟩ := mem_leaves_of_mem_loads e hy
  exact he x y span span' hx hy hx0 hy0

/-- A debug build compiles a constant expression to code that pushes its value. -/
theorem constant_pushes_value (hlevel : c.options.level = .debug) {e : Expr} {t : Ty} {v : Value}
    (he : OneZero e.leaves) (h : c.infer e .empty = ⟨.ok t, code, pool⟩)
    (hv : e.constant? = some v) (locals : Array Value) : code.Pushes pool locals (.ok v) := by
  have hc : c.options.folds = false := by simp [Options.folds, hlevel]
  have hpool : pool.Consistent := by
    have hgrows := (c.grows_infer e .empty).consistent Pool.consistent_empty
    rwa [h] at hgrows
  have hdraws : pool.Draws fun x => x ∈ e.loads false := by
    have hdraws := draws_infer hc e (fun _ hx => hx) _ Pool.draws_empty
    rwa [h] at hdraws
  -- no name is looked up, so any frame is one of the empty scope
  have hempty := Scope.agrees_empty [] locals
  rw [← infer_inScope_of_constant (s := .empty) hv] at h
  have htype : e.type? c.registry (Env.typing []) = some t :=
    infer_type (c := c.inScope .empty) hempty.types e h
  have hpushes : code.Pushes pool locals
      (e.evalBy c.registry (c.build pool) c.options.overflowChecks []) :=
    infer_pushes (c := c.inScope .empty) hpool hempty e h (Pool.Within.refl _)
  have hkeeps := keeps_loads hlevel he hpool hdraws
  rwa [evalBy_eq_eval e htype hkeeps, (constant_sound e htype hv).2] at hpushes

/-- A debug build compiles a constant hole to code that pushes a value with its text. -/
theorem constant_hole_pushes (hlevel : c.options.level = .debug) {e : Expr}
    {format : Option FormatSpec} {p q : Pieces} {text : String} (he : OneZero e.leaves)
    (hpending : p.pending = none)
    (h : c.inferSegment p (.hole e format span) .empty = ⟨.ok q, code, pool⟩)
    (htext : (Segment.hole e format span).constant? = some text) (locals : Array Value) :
    ∃ w, w.render = text ∧ code.Pushes pool locals (.ok w) := by
  obtain ⟨v, hv, hfold⟩ := Option.bind_eq_some_iff.1 (htext : e.constant?.bind _ = some text)
  obtain ⟨t, c₁, P₁, c₂, P₂, hinfer, hformat, h⟩ := hole_ok h
  obtain ⟨-, rfl, hc₂⟩ := format_ok hformat
  rcases h with ⟨s, hs, -⟩ | ⟨-, p', c₀, hflush, rfl, -⟩
  · simp [Options.folds, hlevel] at hs
  · simp only [Pieces.flush, hpending, Emit.pure_ok] at hflush
    obtain ⟨-, rfl, rfl⟩ := hflush
    have hvalue := constant_pushes_value hlevel he hinfer hv locals
    obtain ⟨y, hy, hrender⟩ := hole_pushes hvalue hc₂
    rw [Except.bind, Value.foldHole?_eval hfold] at hrender
    cases y with
    | error e => cases hrender
    | ok w => exact ⟨w, Except.ok.inj hrender, hy⟩

/-- In a debug build of a parsed expression the code of what is constant pushes that constant,
whatever it finds on the stack and in the locals, and never fails. Only an expression with float
zeros of both signs could read one of them wrong, and none is parsed. -/
theorem constant_runs :
    (∀ text e, Expr.parse text = .ok e → OneZero e.leaves) ∧
    (∀ text u, SourceUnit.parse text = .ok u → OneZero u.leaves) ∧
    ∀ (c : Context) (e : Expr), c.options.level = .debug → OneZero e.leaves →
      (∀ t code pool v, c.infer e .empty = ⟨.ok t, code, pool⟩ → e.constant? = some v →
        ∀ stack locals, code.Runs pool ⟨stack, locals⟩ (.ok ⟨v :: stack, locals⟩)) ∧
      ∀ format span p q code pool text, p.pending = none →
        c.inferSegment p (.hole e format span) .empty = ⟨.ok q, code, pool⟩ →
        (Segment.hole e format span).constant? = some text →
        ∀ stack locals, ∃ w, w.render = text ∧
          code.Runs pool ⟨stack, locals⟩ (.ok ⟨w :: stack, locals⟩) := by
  refine ⟨fun _ _ h => (Expr.fromNumerals_parse h).oneZero,
    fun _ _ h => (SourceUnit.fromNumerals_parse h).oneZero, fun c e hlevel he => ⟨?_, ?_⟩⟩
  · intro t code pool v h hv stack locals
    exact constant_pushes_value hlevel he h hv locals stack
  · intro format span p q code pool text hpending h htext stack locals
    obtain ⟨w, hw, hpushes⟩ := constant_hole_pushes hlevel he hpending h htext locals
    exact ⟨w, hw, hpushes stack⟩

/-- The code that negates the zero of the pool gives the negative zero, and its text. -/
theorem constant_runs_negZero :
    let c : Context := ⟨.empty #[], ⟨true, .debug⟩, .empty⟩
    let e := Zero.neg Zero.literal
    let hole : Segment := .hole e none .nowhere
    c.options.level = .debug ∧ OneZero e.leaves ∧ e.constant? = some (.float (-0.0)) ∧
      (∃ code pool, c.infer e .empty = ⟨.ok .float, code, pool⟩ ∧ ∀ stack locals,
        code.Runs pool ⟨stack, locals⟩ (.ok ⟨.float (-0.0) :: stack, locals⟩)) ∧
      (Pieces.start .nowhere).pending = none ∧ hole.constant? = some "-0" ∧
      ∃ q code pool, c.inferSegment (.start .nowhere) hole .empty = ⟨.ok q, code, pool⟩ ∧
        ∀ stack locals, ∃ w, w.render = "-0" ∧
          code.Runs pool ⟨stack, locals⟩ (.ok ⟨w :: stack, locals⟩) := by
  intro c e hole
  obtain ⟨code, hinfer⟩ := Zero.only_negLiteral c
  have hzero : OneZero e.leaves := by
    intro x y span span' hx hy _ _
    obtain ⟨⟨rfl⟩, -⟩ : _ ∧ _ := Expr.literal.inj (List.mem_singleton.1 hx)
    obtain ⟨⟨rfl⟩, -⟩ : _ ∧ _ := Expr.literal.inj (List.mem_singleton.1 hy)
    rfl
  have hhole : hole.constant? = some "-0" := by decide +kernel
  have hpush : (c.infer e >>= fun t => c.format t none) .empty = ⟨.ok ⟨⟩, code, Zero.pool⟩ :=
    Emit.bind_ok.2 ⟨_, _, _, [], hinfer, rfl, (List.append_nil code).symm⟩
  have hsegment : c.inferSegment (.start .nowhere) hole .empty =
      ⟨.ok ⟨1, false, none, e.span⟩, code, Zero.pool⟩ :=
    Emit.bind_ok.2 ⟨.start .nowhere, [], .empty, code, rfl,
      Emit.bind_ok.2 ⟨⟨⟩, _, _, [], hpush, rfl, (List.append_nil code).symm⟩, rfl⟩
  obtain ⟨-, -, hruns⟩ := constant_runs
  obtain ⟨hvalue, htext⟩ := hruns c e rfl hzero
  exact ⟨rfl, hzero, rfl, ⟨code, _, hinfer, hvalue _ _ _ _ hinfer rfl⟩, rfl, hhole,
    _, code, _, hsegment, htext none _ _ _ _ _ _ rfl hsegment hhole⟩

end Context

end TypedTemplate
