-- SUMMARY: Debug and release builds report the same, unless one of them does not fit the limits of the code.
import TypedTemplate.Proofs.Compile.Unit
import TypedTemplate.Proofs.Semantics.Constant

/-!
# Agreement of builds

Both builds check an expression in the same walk, so they stop at the same errors.
What a release build does besides, it does where a debug build pushes: it pushes a
value, or a piece that was pending. Such a step can fail only because an index or a
distance does not fit a word. The builds therefore agree up to limits: they give the
same type, or the same error, or one of them stops at a limit. Code and pools are not
compared.
-/

namespace TypedTemplate

open Diagnostics

/-- The error is that the code does not fit the limits of its encoding. -/
def CompilationError.isLimit (e : CompilationError) : Bool :=
  match e.fault with
  | .limitExceeded _ => true
  | _                => false

/-- Related results or the same error. An outcome cut short by a limit goes with any other. -/
inductive AgreeWith {α β : Type} (R : α → β → Prop) :
    Except CompilationError α → Except CompilationError β → Prop
  | ok {a : α} {b : β} : R a b → AgreeWith R (.ok a) (.ok b)
  | error (e : CompilationError) : AgreeWith R (.error e) (.error e)
  | limitLeft {e : CompilationError} (y : Except CompilationError β) : e.isLimit = true →
      AgreeWith R (.error e) y
  | limitRight {e : CompilationError} (x : Except CompilationError α) : e.isLimit = true →
      AgreeWith R x (.error e)

/-! ## Constant values -/

/-- The value is no model instance. -/
def Value.Plain (v : Value) : Prop := ∀ m, v ≠ .object m

namespace Value

variable {v w x : Value}

theorem plain_fitOr {checked signed : Bool} {n : Int} (h : fitOr checked signed n = .ok x) :
    x.Plain := by
  unfold fitOr fit? ofSigned? ofWide? at h
  grind [Plain]

theorem plain_foldUnary? {op : UnaryOp} (h : foldUnary? op v = some x) : x.Plain := by
  unfold foldUnary? at h
  split at h
  · simp [Plain, ← Option.some.inj h]
  · simp at h
  · simp [Plain, ← Option.some.inj h]
  · have hneg := toOption_eq_some h
    unfold neg at hneg
    split at hneg
    · exact plain_fitOr hneg
    · simp at hneg

theorem plain_foldArith? {op : ArithOp} (h : foldArith? op v w = some x) : x.Plain := by
  unfold foldArith? at h
  split at h
  · split at h
    · simp [Plain, ← Option.some.inj h]
    · simp at h
  · have harith := toOption_eq_some h
    unfold arith at harith
    split at harith
    · exact plain_fitOr harith
    · simp at harith

theorem plain_foldBinary? {op : BinaryOp} (h : foldBinary? op v w = some x) : x.Plain := by
  cases op with
  | add =>
    simp only [foldBinary?] at h
    split at h
    · simp [Plain, ← Option.some.inj h]
    · exact plain_foldArith? h
  | sub => exact plain_foldArith? h
  | mul => exact plain_foldArith? h
  | equal =>
    obtain ⟨e, -, rfl⟩ := Option.map_eq_some_iff.1 h
    simp [Plain]
  | notEqual =>
    obtain ⟨e, -, rfl⟩ := Option.map_eq_some_iff.1 h
    simp [Plain]
  | coalesce => simp [foldBinary?] at h

theorem plain_foldMethod? {name : String} (h : foldMethod? name v = some x) : x.Plain := by
  unfold foldMethod? at h
  split at h <;> first | simp [Plain, ← Option.some.inj h, Text.count] | simp at h

end Value

/-- No model instance is the value of a constant expression. -/
theorem Expr.plain_constant? : (e : Expr) → ∀ {x : Value}, e.constant? = some x → x.Plain
  | .literal l span, x, h => by
    obtain rfl := Option.some.inj h
    cases l <;> simp [Value.Plain, Literal.value]
  | .name y, x, h => by simp [Expr.constant?] at h
  | .member e field span, x, h => by simp [Expr.constant?] at h
  | .call e method args span, x, h => by
    simp only [Expr.constant?] at h
    split at h
    · obtain ⟨v, -, hx⟩ := Option.bind_eq_some_iff.1 h
      exact Value.plain_foldMethod? hx
    · simp at h
  | .unary op e span, x, h => by
    obtain ⟨v, -, hx⟩ := Option.bind_eq_some_iff.1 h
    exact Value.plain_foldUnary? hx
  | .binary op l r span, x, h => by
    by_cases hop : op = .coalesce
    · subst hop
      exact plain_constant? r (constant?_coalesce h).2
    · obtain ⟨v, w, -, -, hx⟩ := constant?_binary hop h
      exact Value.plain_foldBinary? hx
  | .ternary e t f span, x, h => by
    obtain ⟨b, v, w, -, hv, hw, rfl⟩ := constant?_ternary h
    cases b with
    | true => exact plain_constant? t hv
    | false => exact plain_constant? f hw
  | .interpolated parts span, x, h => by
    obtain ⟨s, -, rfl⟩ := Option.map_eq_some_iff.1 h
    simp [Value.Plain]
  | .paren e span, x, h => plain_constant? e h

namespace Emit

variable {α β γ δ : Type} {R : α → β → Prop} {S : γ → δ → Prop}

/-! ## Results of steps -/

theorem result_bind (m : Emit α) (next : α → Emit γ) (P : Pool) :
    ((m >>= next) P).result = (m P).result.bind fun a => (next a (m P).pool).result := by
  simp only [Bind.bind]
  cases m P with
  | mk result code P' => cases result <;> rfl

theorem result_silently (m : Emit α) (P : Pool) : (m.silently P).result = (m P).result := by
  unfold silently
  cases m P with
  | mk result code P' => cases result <;> rfl

/-! ## Steps that fail at limits only -/

/-- The action fails at limits only. -/
def Bounded (m : Emit α) : Prop := ∀ P e, (m P).result = .error e → e.isLimit = true

theorem bounded_pure (a : α) : Bounded (pure a) := by
  intro P e h
  cases h

theorem bounded_instr (span : Span) (i : Instr) : Bounded (instr span i) := by
  intro P e h
  cases h

theorem bounded_instrs (span : Span) (is : List Instr) : Bounded (instrs span is) := by
  intro P e h
  cases h

theorem Bounded.bind {m : Emit α} {next : α → Emit γ} (hm : m.Bounded)
    (hnext : ∀ a, (next a).Bounded) : (m >>= next).Bounded := by
  intro P e h
  rw [result_bind] at h
  cases hresult : (m P).result with
  | ok a =>
    rw [hresult] at h
    exact hnext a _ e h
  | error e' =>
    rw [hresult] at h
    cases h
    exact hm P _ hresult

theorem bounded_word (span : Span) (n : Nat) (message : String) : Bounded (word span n message) := by
  unfold word
  split
  · exact bounded_pure _
  · intro P e h
    cases h
    rfl

theorem bounded_constantIndex (span : Span) (c : Constant) : Bounded (constantIndex span c) :=
  fun P e h => bounded_word span _ _ (P.add c).2 e h

theorem bounded_constant (span : Span) (c : Constant) : Bounded (constant span c) :=
  (bounded_constantIndex span c).bind fun _ => bounded_instr span _

theorem bounded_counted (span : Span) (n : Nat) (what : String) (i : UInt16 → Instr) :
    Bounded (counted span n what i) :=
  (bounded_word span n _).bind fun _ => bounded_instr span _

theorem bounded_int (span : Span) (i : Int64) : Bounded (int span i) := by
  unfold int
  split
  · exact bounded_instr span _
  · split
    · exact bounded_instr span _
    · exact bounded_constant span _

theorem bounded_getField (span : Span) (index : Nat) (name : String) :
    Bounded (getField span index name) :=
  (bounded_word span index _).bind fun _ =>
    (bounded_constantIndex span _).bind fun _ => bounded_instr span _

theorem bounded_value (span : Span) {v : Value} (hv : v.Plain) :
    Bounded (value span v) := by
  cases v with
  | null => exact bounded_instr span _
  | bool b => exact bounded_instr span _
  | int i => exact bounded_int span i
  | object m => exact absurd rfl (hv m)
  | _ => exact bounded_constant span _

theorem bounded_pushText (p : Pieces) (s : String) : Bounded (p.pushText s) :=
  (bounded_constant p.span _).bind fun _ => bounded_pure _

theorem bounded_flush (p : Pieces) : Bounded p.flush := by
  unfold Pieces.flush
  split
  · exact bounded_pushText _ _
  · exact bounded_pure _

theorem bounded_addText (p : Pieces) (keep : Bool) (s : String) : Bounded (p.addText keep s) := by
  unfold Pieces.addText
  split
  · exact bounded_pure _
  · exact bounded_pushText _ _

/-! ## Agreement -/

/-- From any two pools the actions end with results that agree up to limits. -/
def Agrees (R : α → β → Prop) (m : Emit α) (m' : Emit β) : Prop :=
  ∀ P P', AgreeWith R (m P).result (m' P').result

theorem agrees_pure {a : α} {b : β} (h : R a b) : Agrees R (pure a) (pure b) := fun _ _ => .ok h

theorem agrees_fail (fault : SemanticFault) (span : Span) :
    Agrees R (fail fault span) (fail fault span) := fun _ _ => .error _

theorem agrees_lift (span : Span) (x : Except SemanticFault α) :
    Agrees Eq (lift span x) (lift span x) := by
  cases x with
  | ok a => exact agrees_pure rfl
  | error f => exact agrees_fail f span

/-- Actions that fail at limits only agree if their results are related. -/
theorem Bounded.agrees {m : Emit α} {m' : Emit β} (hm : m.Bounded) (hm' : m'.Bounded)
    (hR : ∀ {P P' a b}, (m P).result = .ok a → (m' P').result = .ok b → R a b) :
    Agrees R m m' := by
  intro P P'
  cases h : (m P).result with
  | error e => exact .limitLeft _ (hm P e h)
  | ok a =>
    cases h' : (m' P').result with
    | error e => exact .limitRight _ (hm' P' e h')
    | ok b => exact .ok (hR h h')

theorem Agrees.bind {m : Emit α} {m' : Emit β} {next : α → Emit γ} {next' : β → Emit δ}
    (hm : Agrees R m m') (hnext : ∀ a b, R a b → Agrees S (next a) (next' b)) :
    Agrees S (m >>= next) (m' >>= next') := by
  intro P P'
  have h := hm P P'
  rw [result_bind, result_bind]
  generalize (m P).result = x, (m' P').result = y at h
  cases h with
  | ok hab => exact hnext _ _ hab _ _
  | error e => exact .error e
  | limitLeft y he => exact .limitLeft _ he
  | limitRight x he => exact .limitRight _ he

/-- Steps that fail at limits only need not agree. -/
theorem Bounded.bind_both {m : Emit α} {m' : Emit β} {next : α → Emit γ} {next' : β → Emit δ}
    (hm : m.Bounded) (hm' : m'.Bounded) (hnext : ∀ a b, Agrees S (next a) (next' b)) :
    Agrees S (m >>= next) (m' >>= next') :=
  (hm.agrees (R := fun _ _ => True) hm' fun _ _ => trivial).bind fun a b _ => hnext a b

/-- A step that one action takes alone is no matter if it fails at limits only. -/
theorem Bounded.bind_left {m : Emit γ} {m' : Emit β} {next : γ → Emit α} (hm : m.Bounded)
    (hnext : ∀ c, Agrees R (next c) m') : Agrees R (m >>= next) m' := by
  intro P P'
  rw [result_bind]
  cases h : (m P).result with
  | ok c => exact hnext c _ _
  | error e => exact .limitLeft _ (hm P e h)

theorem Bounded.bind_right {m : Emit α} {m' : Emit γ} {next : γ → Emit β} (hm' : m'.Bounded)
    (hnext : ∀ c, Agrees R m (next c)) : Agrees R m (m' >>= next) := by
  intro P P'
  rw [result_bind]
  cases h : (m' P').result with
  | ok c => exact hnext c _ _
  | error e => exact .limitRight _ (hm' P' e h)

/-- One action may go on alone after a step of both. -/
theorem Agrees.then_right {m : Emit α} {m' : Emit β} {next : β → Emit δ} {T : α → δ → Prop}
    (hm : Agrees R m m') (hnext : ∀ a b, R a b → Agrees T (pure a) (next b)) :
    Agrees T m (m' >>= next) := by
  intro P P'
  have h := hm P P'
  rw [result_bind]
  generalize (m P).result = x, (m' P').result = y at h
  cases h with
  | ok hab => exact hnext _ _ hab P _
  | error e => exact .error e
  | limitLeft y he => exact .limitLeft _ he
  | limitRight x he => exact .limitRight _ he

theorem Agrees.silently {m : Emit α} {m' : Emit β} (h : Agrees R m m') : Agrees R m m'.silently := by
  intro P P'
  rw [result_silently]
  exact h P P'

/-- A jump ends like its body or at a limit. -/
theorem result_jumpOver (span : Span) (jump : UInt16 → Instr) (more : Nat) (m : Emit α) (P : Pool) :
    (jumpOver span jump more m P).result = (m P).result ∨
      ∃ e, (jumpOver span jump more m P).result = .error e ∧ e.isLimit = true := by
  unfold jumpOver
  cases m P with
  | mk result code P' =>
    cases result with
    | error e => exact .inl rfl
    | ok a =>
      by_cases hlt : code.size + more < UInt16.size
      · simp [word, hlt, Pure.pure]
      · simp [word, hlt, fail, CompilationError.isLimit]

theorem Agrees.jumpOver {m : Emit α} {m' : Emit β} (span : Span) (jump : UInt16 → Instr) (more : Nat)
    (h : Agrees R m m') : Agrees R (jumpOver span jump more m) (jumpOver span jump more m') := by
  intro P P'
  rcases result_jumpOver span jump more m P with hm | ⟨e, hm, he⟩
  · rcases result_jumpOver span jump more m' P' with hm' | ⟨e, hm', he⟩
    · rw [hm, hm']
      exact h P P'
    · rw [hm']
      exact .limitRight _ he
  · rw [hm]
    exact .limitLeft _ he

end Emit

/-! ## Expressions -/

namespace Context

variable (c : Context)

/-- The context in a build of another level. -/
def inBuild (level : OptLevel) : Context := { c with options := { c.options with level := level } }

theorem fold_debug (e : Expr) (m : Emit Ty) : (c.inBuild .debug).fold e m = m := by
  simp [Context.fold, inBuild, Options.folds]

open Emit

variable {c}

/-- Replacing the code by a value keeps the type. -/
theorem agrees_fold {m m' : Emit Ty} (hm : Agrees Eq m m') (e : Expr) :
    Agrees Eq ((c.inBuild .debug).fold e m) ((c.inBuild .release).fold e m') := by
  rw [fold_debug]
  unfold fold
  split
  · rename_i v hv
    have hplain : v.Plain := by
      split at hv
      · exact e.plain_constant? hv
      · simp at hv
    refine hm.silently.then_right ?_
    rintro t _ rfl
    exact (bounded_value e.span hplain).bind_right fun _ => agrees_pure rfl
  · exact hm

theorem agrees_literal (span : Span) (l : Literal) :
    Agrees Eq (Context.literal span l) (Context.literal span l) := by
  have hpush : ∀ {m : Emit PUnit}, m.Bounded → ∀ t : Ty,
      Agrees Eq (m >>= fun _ => pure t) (m >>= fun _ => pure t) := fun hm t =>
    hm.bind_both hm fun _ _ => agrees_pure rfl
  cases l with
  | int i => exact hpush (bounded_int span i) _
  | bool b => exact hpush (bounded_instr span _) _
  | null => exact hpush (bounded_instr span _) _
  | _ => exact hpush (bounded_constant span _) _

theorem agrees_name (x : Ident) : Agrees Eq ((c.inBuild .debug).name x) ((c.inBuild .release).name x) := by
  unfold name
  simp only [inBuild]
  split
  · exact (bounded_instr _ _).bind_both (bounded_instr _ _) fun _ _ => agrees_pure rfl
  · exact agrees_fail _ _

theorem agrees_ruling (span : Span) (rule : Ruling) :
    Agrees Eq (Emit.ruling span rule) (Emit.ruling span rule) := by
  refine (agrees_lift span rule).bind ?_
  rintro ⟨is, t⟩ _ rfl
  exact (bounded_instrs span is).bind_both (bounded_instrs span is) fun _ _ => agrees_pure rfl

theorem agrees_member (t : Ty) (field : Ident) (span : Span) :
    Agrees Eq ((c.inBuild .debug).member t field span) ((c.inBuild .release).member t field span) := by
  refine (agrees_lift field.span (Rule.member c.registry t field.name)).bind ?_
  rintro ⟨index, u⟩ _ rfl
  exact (bounded_getField span _ _).bind_both (bounded_getField span _ _) fun _ _ => agrees_pure rfl

theorem agrees_call (t : Ty) (method : Ident) (args : List Expr) (span : Span) :
    Agrees Eq ((c.inBuild .debug).call t method args span)
      ((c.inBuild .release).call t method args span) := by
  refine (agrees_lift method.span (Rule.method c.registry method.name t)).bind ?_
  rintro rule _ rfl
  exact (agrees_lift span (Rule.arguments method.name args.length)).bind fun _ _ _ =>
    agrees_ruling span (.ok rule)

theorem agrees_format (t : Ty) (format : Option FormatSpec) :
    Agrees Eq ((c.inBuild .debug).format t format) ((c.inBuild .release).format t format) := by
  cases format with
  | none => exact agrees_pure rfl
  | some spec =>
    exact (agrees_lift spec.span (Rule.format c.registry spec.kind t)).bind fun _ _ _ =>
      (bounded_instr _ _).agrees (bounded_instr _ _) fun _ _ => rfl

theorem bounded_join (p : Pieces) (span : Span) : Bounded (p.join span) := by
  refine (bounded_flush p).bind fun q => ?_
  dsimp only
  split
  · exact (bounded_constant span _).bind fun _ => bounded_pure _
  · split
    · exact bounded_pure _
    · exact (bounded_counted span _ _ _).bind fun _ => bounded_pure _

/-- Whatever the pieces are, they are joined to a string. -/
theorem agrees_join (p p' : Pieces) (span : Span) : Agrees Eq (p.join span) (p'.join span) := by
  refine (bounded_join p span).agrees (bounded_join p' span) ?_
  intro P P' t t' h h'
  obtain ⟨rfl, -⟩ := join_ok (p := p) (P := P) (t := t) (by rw [← h])
  obtain ⟨rfl, -⟩ := join_ok (p := p') (P := P') (t := t') (by rw [← h'])
  rfl

/-! The pieces that the builds have pushed and keep are not the same, so nothing relates them. -/

mutual

/-- Both builds give an expression the same type, or stop at the same error. -/
theorem agrees_infer : (e : Expr) →
    Agrees Eq ((c.inBuild .debug).infer e) ((c.inBuild .release).infer e)
  | .literal l span => agrees_literal span l
  | .name x => agrees_name x
  | .member e field span => by
    refine (agrees_infer e).bind ?_
    rintro t _ rfl
    exact agrees_member t field span
  | .call e method args span => by
    refine agrees_fold ((agrees_infer e).bind ?_) _
    rintro t _ rfl
    exact agrees_call t method args span
  | .unary op e span => by
    refine agrees_fold ((agrees_infer e).bind ?_) _
    rintro t _ rfl
    exact agrees_ruling span (Rule.unary c.registry c.options op t)
  | .binary op l r span => by
    by_cases hop : op = .coalesce
    · subst hop
      refine agrees_fold ((agrees_infer l).bind ?_) _
      rintro a _ rfl
      have hright : Agrees Eq (Emit.instr span .pop >>= fun _ => (c.inBuild .debug).infer r)
          (Emit.instr span .pop >>= fun _ => (c.inBuild .release).infer r) :=
        (bounded_instr _ _).bind_both (bounded_instr _ _) fun _ _ => agrees_infer r
      refine (hright.jumpOver span _ 0).bind ?_
      rintro b _ rfl
      exact agrees_lift span (Rule.coalesce c.registry a b)
    · rw [infer_binary _ l r span hop, infer_binary _ l r span hop]
      refine agrees_fold ((agrees_infer l).bind ?_) _
      rintro a _ rfl
      refine (agrees_infer r).bind ?_
      rintro b _ rfl
      exact agrees_ruling span (Rule.binary c.registry c.options op a b)
  | .ternary e t f span => by
    refine agrees_fold ((agrees_infer e).bind ?_) _
    rintro u _ rfl
    refine (agrees_lift e.span (Rule.condition c.registry u)).bind fun _ _ _ => ?_
    refine ((agrees_infer t).jumpOver span _ _).bind ?_
    rintro a _ rfl
    refine ((agrees_infer f).jumpOver span _ 0).bind ?_
    rintro b _ rfl
    exact agrees_lift span (Rule.join c.registry a b)
  | .interpolated parts span =>
    agrees_fold ((agrees_inferSegments _ _ parts).bind fun p p' _ => agrees_join p p' span) _
  | .paren e span => agrees_fold (agrees_infer e) _

theorem agrees_inferSegment (p p' : Pieces) : (s : Segment) →
    Agrees (fun _ _ => True) ((c.inBuild .debug).inferSegment p s)
      ((c.inBuild .release).inferSegment p' s)
  | .text s => (bounded_addText p _ s).agrees (bounded_addText p' _ s) fun _ _ => trivial
  | .hole e format span => by
    have hhole : Agrees Eq
        ((c.inBuild .debug).infer e >>= fun t => (c.inBuild .debug).format t format)
        ((c.inBuild .release).infer e >>= fun t => (c.inBuild .release).format t format) := by
      refine (agrees_infer e).bind ?_
      rintro t _ rfl
      exact agrees_format t format
    simp only [Context.inferSegment]
    rw [if_neg (by simp [inBuild, Options.folds])]
    dsimp only
    split
    · refine (bounded_flush p).bind_left fun q => hhole.silently.bind fun _ _ _ => ?_
      exact (bounded_pure _).agrees (bounded_addText _ _ _) fun _ _ => trivial
    · refine (bounded_flush p).bind_both (bounded_flush p') fun q q' => hhole.bind fun _ _ _ => ?_
      exact agrees_pure trivial

theorem agrees_inferSegments (p p' : Pieces) : (segments : List Segment) →
    Agrees (fun _ _ => True) ((c.inBuild .debug).inferSegmentsOnto p [] segments)
      ((c.inBuild .release).inferSegmentsOnto p' [] segments)
  | [] => fun _ _ => .ok trivial
  | s :: rest => by
    rw [inferSegmentsOnto_cons, inferSegmentsOnto_cons]
    exact (agrees_inferSegment p p' s).bind fun q q' _ => agrees_inferSegments q q' rest

end

end Context

/-! ## Bodies -/

/-- No error of the list is about a limit. -/
def NoLimit (es : List CompilationError) : Prop := ∀ e ∈ es, e.isLimit = false

theorem noLimit_append {es es' : List CompilationError} :
    NoLimit (es ++ es') ↔ NoLimit es ∧ NoLimit es' := List.forall_mem_append

namespace Body

variable {r : Registry} {checked : Bool} {declared : Ty} {b b' : Body}

/-- The bodies differ in code and constants only. -/
structure Alike (b b' : Body) : Prop where
  scope : b.scope = b'.scope
  diagnostics : b.diagnostics = b'.diagnostics
  returned : b.returned = b'.returned

theorem Alike.report (h : b.Alike b') (e : CompilationError) : (b.report e).Alike (b'.report e) := by
  obtain ⟨scope, code, pool, ds, returned⟩ := b
  obtain ⟨_, code', pool', _, _⟩ := b'
  obtain ⟨rfl, rfl, rfl⟩ := h
  unfold Body.report
  repeat' split
  all_goals exact ⟨rfl, rfl, rfl⟩

theorem Alike.warnUnreachable (h : b.Alike b') (s : Stmt) :
    (b.warnUnreachable s).diagnostics = (b'.warnUnreachable s).diagnostics := by
  unfold Body.warnUnreachable
  rw [h.returned, h.diagnostics]
  split <;> simp [h.diagnostics]

open Emit Context in
theorem agrees_ret {c : Context} (declared : Ty) (value : Expr) (span : Span) :
    Agrees Eq (Body.ret (c.inBuild .debug) declared value span)
      (Body.ret (c.inBuild .release) declared value span) := by
  refine (agrees_infer value).bind ?_
  rintro t _ rfl
  refine (agrees_lift value.span (Rule.result c.registry declared t)).bind ?_
  rintro is _ rfl
  exact (bounded_instrs span is).agrees (bounded_instrs span is) fun _ _ => rfl

/-- A statement that stops neither build at a limit keeps the bodies alike. -/
theorem Alike.step (h : b.Alike b') {s : Stmt}
    (hlimit : NoLimit (b.fault? r ⟨checked, .debug⟩ declared s).toList)
    (hlimit' : NoLimit (b'.fault? r ⟨checked, .release⟩ declared s).toList) :
    (b.step r ⟨checked, .debug⟩ declared s).Alike (b'.step r ⟨checked, .release⟩ declared s) := by
  have hwarn := h.warnUnreachable s
  have hscope := h.scope
  cases s with
  | letBinding x value span =>
    have hagree := Context.agrees_infer (c := ⟨r, ⟨checked, .debug⟩, b.scope⟩) value b.pool b'.pool
    simp only [Context.inBuild] at hagree
    cases hd : Context.infer ⟨r, ⟨checked, .debug⟩, b.scope⟩ value b.pool with
    | mk result code P =>
    cases hr : Context.infer ⟨r, ⟨checked, .release⟩, b'.scope⟩ value b'.pool with
    | mk result' code' P' =>
    rw [hd, hscope, hr] at hagree
    cases hagree with
    | error e =>
      rw [step_let_error hd, step_let_error hr]
      refine Alike.report ?_ e
      exact ⟨by rw [hscope], hwarn, h.returned⟩
    | limitLeft y he => simp [NoLimit, fault?, hd, he] at hlimit
    | limitRight x he => simp [NoLimit, fault?, hr, he] at hlimit'
    | @ok t _ ht =>
      subst ht
      cases hdeclare : b'.scope.declare x.name t x.span with
      | error e =>
        rw [step_let_undeclared hd (hscope ▸ hdeclare), step_let_undeclared hr hdeclare]
        refine Alike.report ?_ e
        exact ⟨hscope, hwarn, h.returned⟩
      | ok found =>
        rw [step_let hd (hscope ▸ hdeclare), step_let hr hdeclare]
        exact ⟨rfl, hwarn, h.returned⟩
  | ret value span =>
    have hagree := agrees_ret (c := ⟨r, ⟨checked, .debug⟩, b.scope⟩) declared value span b.pool b'.pool
    simp only [Context.inBuild] at hagree
    cases hd : Body.ret ⟨r, ⟨checked, .debug⟩, b.scope⟩ declared value span b.pool with
    | mk result code P =>
    cases hr : Body.ret ⟨r, ⟨checked, .release⟩, b'.scope⟩ declared value span b'.pool with
    | mk result' code' P' =>
    rw [hd, hscope, hr] at hagree
    cases hagree with
    | error e =>
      rw [step_ret_error hd, step_ret_error hr]
      refine Alike.report ?_ e
      exact ⟨hscope, hwarn, rfl⟩
    | limitLeft y he => simp [NoLimit, fault?, hd, he] at hlimit
    | limitRight x he => simp [NoLimit, fault?, hr, he] at hlimit'
    | ok _ =>
      rw [step_ret hd, step_ret hr]
      exact ⟨hscope, hwarn, rfl⟩

theorem Alike.run (h : b.Alike b') {stmts : List Stmt}
    (hlimit : NoLimit (b.faults r ⟨checked, .debug⟩ declared stmts))
    (hlimit' : NoLimit (b'.faults r ⟨checked, .release⟩ declared stmts)) :
    (b.run r ⟨checked, .debug⟩ declared stmts).Alike
      (b'.run r ⟨checked, .release⟩ declared stmts) := by
  induction stmts generalizing b b' with
  | nil => exact h
  | cons s ss ih =>
    obtain ⟨hs, hss⟩ := noLimit_append.1 hlimit
    obtain ⟨hs', hss'⟩ := noLimit_append.1 hlimit'
    exact ih (h.step hs hs') hss hss'

end Body

/-! ## Units -/

theorem Signature.diagnostics_compile {r : Registry} {checked : Bool} {s : Signature}
    {pool pool' : Pool} {ds ds' : Diagnostics} (h : ds = ds')
    (hlimit : NoLimit (s.faults r ⟨checked, .debug⟩ pool ds))
    (hlimit' : NoLimit (s.faults r ⟨checked, .release⟩ pool' ds')) :
    (s.compile r ⟨checked, .debug⟩ pool ds).2.2 =
      (s.compile r ⟨checked, .release⟩ pool' ds').2.2 := by
  subst h
  have hstart : (s.body pool ds).Alike (s.body pool' ds) := ⟨rfl, rfl, rfl⟩
  simp only [compile_eq, (hstart.run hlimit hlimit').diagnostics]

theorem Compilation.diagnostics_after {r : Registry} {checked : Bool} {ss : List Signature}
    {st st' : Pool × Diagnostics} (h : st.2 = st'.2)
    (hlimit : NoLimit (faults r ⟨checked, .debug⟩ st ss))
    (hlimit' : NoLimit (faults r ⟨checked, .release⟩ st' ss)) :
    (after r ⟨checked, .debug⟩ st ss).2 = (after r ⟨checked, .release⟩ st' ss).2 := by
  induction ss generalizing st st' with
  | nil => exact h
  | cons s ss ih =>
    obtain ⟨hs, hss⟩ := noLimit_append.1 hlimit
    obtain ⟨hs', hss'⟩ := noLimit_append.1 hlimit'
    exact ih (Signature.diagnostics_compile h hs hs') hss hss'

/-- Compiling the source stops in some statement at a limit. -/
def MeetsLimit (r : Registry) (o : Options) (source : String) : Prop :=
  ∃ u, SourceUnit.parse source = .ok u ∧ ¬NoLimit (u.faults r o)

theorem meetsLimit_iff {r : Registry} {o : Options} {source : String} :
    MeetsLimit r o source ↔
      ((SourceUnit.parse source).toOption.any fun u => (u.faults r o).any (·.isLimit)) = true := by
  unfold MeetsLimit
  cases SourceUnit.parse source with
  | error errors => simp [Except.toOption]
  | ok u => simp [Except.toOption, NoLimit]

instance (r : Registry) (o : Options) (source : String) : Decidable (MeetsLimit r o source) :=
  decidable_of_iff _ meetsLimit_iff.symm

/-- A limit is always reported. -/
theorem reported_of_meetsLimit {r : Registry} {o : Options} {source : String}
    (h : MeetsLimit r o source) :
    ∃ e ds, e.isLimit = true ∧ compile r o source = .error ds ∧ .ofCompilationError e ∈ ds := by
  obtain ⟨u, hu, hlimit⟩ := h
  simp only [NoLimit, not_forall, Bool.not_eq_false] at hlimit
  obtain ⟨e, he, hlimit⟩ := hlimit
  rcases Compilation.mem_after he with hmem | ⟨n, hn⟩
  · have herrors : hasErrors (u.final r o).2 = true := hasErrors_iff.2 ⟨_, hmem, rfl⟩
    refine ⟨e, (u.final r o).2.reverse, hlimit, ?_, List.mem_reverse.2 hmem⟩
    simp only [compile, hu]
    rw [SourceUnit.compile_eq, if_pos herrors]
  · simp [CompilationError.isLimit, hn] at hlimit

/-- If neither build of a source meets a limit, both give an artifact, with the same warnings, or
both fail with the same diagnostics. -/
theorem compile_debug_release {r : Registry} {checked : Bool} {source : String}
    (hdebug : ¬MeetsLimit r ⟨checked, .debug⟩ source)
    (hrelease : ¬MeetsLimit r ⟨checked, .release⟩ source) :
    (∃ a b, compile r ⟨checked, .debug⟩ source = .ok a ∧
        compile r ⟨checked, .release⟩ source = .ok b ∧ a.warnings = b.warnings) ∨
      ∃ ds, compile r ⟨checked, .debug⟩ source = .error ds ∧
        compile r ⟨checked, .release⟩ source = .error ds := by
  unfold compile
  cases hparse : SourceUnit.parse source with
  | error errors => exact .inr ⟨_, rfl, rfl⟩
  | ok u =>
    have hd : NoLimit (u.faults r ⟨checked, .debug⟩) :=
      not_not.1 fun h => hdebug ⟨u, hparse, h⟩
    have hr : NoLimit (u.faults r ⟨checked, .release⟩) :=
      not_not.1 fun h => hrelease ⟨u, hparse, h⟩
    have hfinal : (u.final r ⟨checked, .debug⟩).2 = (u.final r ⟨checked, .release⟩).2 :=
      Compilation.diagnostics_after rfl hd hr
    simp only [SourceUnit.compile_eq, hfinal]
    split
    · exact .inr ⟨_, rfl, rfl⟩
    · exact .inl ⟨_, _, rfl, rfl, rfl⟩

/-- A sum that a release build folds and a statement that both builds warn about. -/
theorem compile_debug_release_folded :
    let source := "module M \x7b type T \x7b fn F() -> int \x7b return 0 + 1; return 1; \x7d \x7d \x7d"
    ¬MeetsLimit (.empty #[]) ⟨true, .debug⟩ source ∧ ¬MeetsLimit (.empty #[]) ⟨true, .release⟩ source ∧
      ((∃ a b, compile (.empty #[]) ⟨true, .debug⟩ source = .ok a ∧
          compile (.empty #[]) ⟨true, .release⟩ source = .ok b ∧ a.warnings = b.warnings) ∨
        ∃ ds, compile (.empty #[]) ⟨true, .debug⟩ source = .error ds ∧
          compile (.empty #[]) ⟨true, .release⟩ source = .error ds) := by
  intro source
  have hdebug : ¬MeetsLimit (.empty #[]) ⟨true, .debug⟩ source := by decide +kernel
  have hrelease : ¬MeetsLimit (.empty #[]) ⟨true, .release⟩ source := by decide +kernel
  exact ⟨hdebug, hrelease, compile_debug_release hdebug hrelease⟩

end TypedTemplate
