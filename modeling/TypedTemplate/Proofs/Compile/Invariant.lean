-- SUMMARY: Compiling an expression only adds to the pool and stops only at names that it mentions.
import TypedTemplate.Proofs.Code.Emission
import TypedTemplate.Proofs.Semantics.Leaves

/-!
# Invariants of emission

What holds of each kind of step and of one step behind another holds of everything
the compiler emits for an expression. Two such facts are wanted: an emission, also
one that fails, only adds constants to the pool, and where it stops at an unknown
name the expression mentions that name.
-/

namespace TypedTemplate

/-- The outcome is no error about an unknown name. -/
def Nameless {α : Type} (x : Except SemanticFault α) : Prop := ∀ n, x ≠ .error (.unknownVariable n)

namespace Rule

variable {r : Registry} {o : Options} {t a b : Ty}

theorem nameless_unary (op : UnaryOp) : Nameless (Rule.unary r o op t) := by
  intro n
  cases op <;> simp only [Rule.unary, Rule.unary.mismatch] <;> repeat' split
  all_goals simp

theorem nameless_arith (op : ArithOp) : Nameless (Rule.arith r o op a b) := by
  intro n
  unfold Rule.arith
  repeat' split
  all_goals simp

theorem nameless_equality (positive : Bool) : Nameless (Rule.equality r positive a b) := by
  intro n
  unfold Rule.equality
  split <;> simp

theorem nameless_coalesce : Nameless (Rule.coalesce r a b) := by
  intro n
  unfold Rule.coalesce
  repeat' split
  all_goals simp

theorem nameless_binary (op : BinaryOp) : Nameless (Rule.binary r o op a b) := by
  cases op with
  | add =>
    intro n
    simp only [Rule.binary, Rule.add]
    split
    · simp
    · exact nameless_arith .add n
  | sub => exact nameless_arith .sub
  | mul => exact nameless_arith .mul
  | equal => exact nameless_equality true
  | notEqual => exact nameless_equality false
  | coalesce =>
    intro n
    have h := nameless_coalesce (r := r) (a := a) (b := b) n
    cases hc : Rule.coalesce r a b with
    | ok u => simp [Rule.binary, hc, Except.map]
    | error e =>
      rw [hc] at h
      simpa [Rule.binary, hc, Except.map] using h

theorem nameless_condition : Nameless (Rule.condition r t) := by
  intro n
  unfold Rule.condition
  split <;> simp

theorem nameless_join : Nameless (Rule.join r a b) := by
  intro n
  unfold Rule.join
  repeat' split
  all_goals simp

theorem nameless_method (name : String) : Nameless (Rule.method r name t) := by
  intro n
  unfold Rule.method
  split <;> simp

theorem nameless_arguments (method : String) (count : Nat) :
    Nameless (Rule.arguments method count) := by
  intro n
  unfold Rule.arguments
  split <;> simp

theorem nameless_format (kind : FormatKind) : Nameless (Rule.format r kind t) := by
  intro n
  unfold Rule.format
  split <;> simp

theorem nameless_result : Nameless (Rule.result r a b) := by
  intro n
  unfold Rule.result Rule.result.mismatch
  repeat' split
  all_goals simp

theorem nameless_member (field : String) : Nameless (Rule.member r t field) := by
  intro n
  unfold Rule.member
  dsimp only
  repeat' split
  all_goals simp

end Rule

/-! ## Emission -/

namespace Emit

/-- A property of actions that all steps of the compiler have and that sequences keep. Of the steps
that fail at an unknown name only those for one of `names` need have it. -/
structure Invariant (names : String → Prop) (φ : (α : Type) → Emit α → Prop) : Prop where
  pure : ∀ {α : Type} (a : α), φ α (Pure.pure a)
  fail : ∀ {α : Type} (fault : SemanticFault) (span : Span),
    (∀ n, fault = .unknownVariable n → names n) → φ α (fail fault span)
  instrs : ∀ (span : Span) (is : List Instr), φ _ (instrs span is)
  constantIndex : ∀ (span : Span) (c : Constant), φ _ (constantIndex span c)
  bind : ∀ {α β : Type} {m : Emit α} {next : α → Emit β},
    φ _ m → (∀ a, φ _ (next a)) → φ _ (m >>= next)
  silently : ∀ {α : Type} {m : Emit α}, φ _ m → φ _ m.silently
  jumpOver : ∀ {α : Type} {m : Emit α} (span : Span) (jump : UInt16 → Instr) (more : Nat),
    φ _ m → φ _ (jumpOver span jump more m)

namespace Invariant

variable {names : String → Prop} {φ : (α : Type) → Emit α → Prop} (h : Invariant names φ) {α : Type}

include h

theorem instr (span : Span) (i : Instr) : φ _ (instr span i) := h.instrs span [i]

theorem lift (span : Span) {x : Except SemanticFault α} (hx : Nameless x) : φ _ (lift span x) := by
  cases x with
  | ok a => exact h.pure a
  | error f => exact h.fail f span fun n hn => absurd (congrArg Except.error hn) (hx n)

theorem ruling (span : Span) {rule : Ruling} (hrule : Nameless rule) : φ _ (ruling span rule) :=
  h.bind (h.lift span hrule) fun _ => h.bind (h.instrs span _) fun _ => h.pure _

theorem word (span : Span) (n : Nat) (message : String) : φ _ (word span n message) := by
  unfold Emit.word
  split
  · exact h.pure _
  · exact h.fail _ span nofun

theorem counted (span : Span) (n : Nat) (what : String) (i : UInt16 → Instr) :
    φ _ (counted span n what i) :=
  h.bind (h.word span n _) fun _ => h.instr span _

theorem constant (span : Span) (c : Constant) : φ _ (constant span c) :=
  h.bind (h.constantIndex span c) fun _ => h.instr span _

theorem int (span : Span) (i : Int64) : φ _ (int span i) := by
  unfold Emit.int
  split
  · exact h.instr span _
  · split
    · exact h.instr span _
    · exact h.constant span _

theorem value (span : Span) (v : Value) : φ _ (value span v) := by
  cases v with
  | null => exact h.instr span _
  | bool b => exact h.instr span _
  | int i => exact h.int span i
  | object m => exact h.fail _ span nofun
  | _ => exact h.constant span _

theorem getField (span : Span) (index : Nat) (name : String) : φ _ (getField span index name) :=
  h.bind (h.word span index _) fun _ => h.bind (h.constantIndex span _) fun _ => h.instr span _

/-! ## Pieces -/

theorem pushText (p : Pieces) (s : String) : φ _ (p.pushText s) :=
  h.bind (h.constant p.span _) fun _ => h.pure _

theorem flush (p : Pieces) : φ _ p.flush := by
  unfold Pieces.flush
  split
  · exact h.pushText _ _
  · exact h.pure _

theorem addText (p : Pieces) (keep : Bool) (s : String) : φ _ (p.addText keep s) := by
  unfold Pieces.addText
  split
  · exact h.pure _
  · exact h.pushText _ _

theorem join (p : Pieces) (span : Span) : φ _ (p.join span) := by
  apply h.bind (h.flush p)
  intro q
  dsimp only
  split
  · exact h.bind (h.constant span _) fun _ => h.pure _
  · split
    · exact h.pure _
    · exact h.bind (h.counted span _ _ _) fun _ => h.pure _

/-! ## Expressions -/

variable (c : Context)

theorem fold {m : Emit Ty} (hm : φ _ m) (e : Expr) : φ _ (c.fold e m) := by
  unfold Context.fold
  split
  · exact h.bind (h.silently hm) fun _ => h.bind (h.value e.span _) fun _ => h.pure _
  · exact hm

theorem literal (span : Span) (l : Literal) : φ _ (Context.literal span l) := by
  cases l with
  | int i => exact h.bind (h.int span i) fun _ => h.pure _
  | bool b => exact h.bind (h.instr span _) fun _ => h.pure _
  | null => exact h.bind (h.instr span _) fun _ => h.pure _
  | _ => exact h.bind (h.constant span _) fun _ => h.pure _

theorem name (x : Ident) (hx : names x.name) : φ _ (c.name x) := by
  unfold Context.name
  split
  · exact h.bind (h.instr _ _) fun _ => h.pure _
  · apply h.fail _ _
    intro n hn
    cases hn
    exact hx

theorem member (t : Ty) (field : Ident) (span : Span) : φ _ (c.member t field span) :=
  h.bind (h.lift _ (Rule.nameless_member _)) fun _ => h.bind (h.getField span _ _) fun _ => h.pure _

theorem call (t : Ty) (method : Ident) (args : List Expr) (span : Span) :
    φ _ (c.call t method args span) :=
  h.bind (h.lift _ (Rule.nameless_method _)) fun _ =>
    h.bind (h.lift _ (Rule.nameless_arguments _ _)) fun _ => h.ruling _ nofun

theorem format (t : Ty) (format : Option FormatSpec) : φ _ (c.format t format) := by
  cases format with
  | none => exact h.pure _
  | some spec => exact h.bind (h.lift _ (Rule.nameless_format _)) fun _ => h.instr _ _

mutual

/-- An invariant for the names that an expression mentions holds of its compilation. -/
theorem infer : (e : Expr) → (∀ n, e.leaves.any (Expr.isName n) = true → names n) →
    φ _ (c.infer e)
  | .literal l span, _ => h.literal span l
  | .name x, hn => h.name c x (hn x.name (by simp [Expr.leaves, Expr.isName]))
  | .member e field span, hn => h.bind (infer e hn) fun _ => h.member c _ field span
  | .call e method args span, hn => by
    refine h.fold c (h.bind (infer e fun n he => hn n ?_) fun _ => h.call c _ method args span) _
    simp only [Expr.leaves, List.any_append, he, Bool.true_or]
  | .unary op e span, hn =>
    h.fold c (h.bind (infer e hn) fun _ => h.ruling span (Rule.nameless_unary op)) _
  | .binary op l r span, hn => by
    have hl := infer l fun n hl => hn n (by simp [Expr.leaves, List.any_append, hl])
    have hr := infer r fun n hr => hn n (by simp [Expr.leaves, List.any_append, hr])
    by_cases hop : op = .coalesce
    · subst hop
      refine h.fold c (h.bind hl fun _ => ?_) _
      exact h.bind (h.jumpOver span _ 0 (h.bind (h.instr span .pop) fun _ => hr)) fun _ =>
        h.lift span Rule.nameless_coalesce
    · rw [c.infer_binary l r span hop]
      exact h.fold c (h.bind hl fun _ => h.bind hr fun _ =>
        h.ruling span (Rule.nameless_binary op)) _
  | .ternary e t f span, hn => by
    have he := infer e fun n he => hn n (by simp [Expr.leaves, List.any_append, he])
    have ht := infer t fun n ht => hn n (by simp [Expr.leaves, List.any_append, ht])
    have hf := infer f fun n hf => hn n (by simp [Expr.leaves, List.any_append, hf])
    refine h.fold c (h.bind he fun _ => h.bind (h.lift _ Rule.nameless_condition) fun _ => ?_) _
    exact h.bind (h.jumpOver span _ _ ht) fun _ => h.bind (h.jumpOver span _ _ hf) fun _ =>
      h.lift span Rule.nameless_join
  | .interpolated parts span, hn =>
    h.fold c (h.bind (inferSegments (.start span) parts hn) fun q => h.join q span) _
  | .paren e span, hn => h.fold c (infer e hn) _

theorem inferSegment (p : Pieces) : (s : Segment) →
    (∀ n, s.leaves.any (Expr.isName n) = true → names n) → φ _ (c.inferSegment p s)
  | .text s, _ => h.addText p _ s
  | .hole e format _, hn => by
    have hole := h.bind (infer e hn) fun t => h.format c t format
    simp only [Context.inferSegment]
    split
    · exact h.bind (h.silently hole) fun _ => h.addText _ _ _
    · exact h.bind (h.flush p) fun _ => h.bind hole fun _ => h.pure _

theorem inferSegments (p : Pieces) : (segments : List Segment) →
    (∀ n, (Segment.leavesAll segments).any (Expr.isName n) = true → names n) →
    φ _ (c.inferSegmentsOnto p [] segments)
  | [], _ => h.pure p
  | s :: rest, hn => by
    rw [Context.inferSegmentsOnto_cons]
    have hfirst := inferSegment p s fun n hs =>
      hn n (by simp [Segment.leavesAll, List.any_append, hs])
    exact h.bind hfirst fun q => inferSegments q rest fun n hs =>
      hn n (by simp [Segment.leavesAll, List.any_append, hs])

end

end Invariant

/-! ## Growth of the pool -/

/-- The action only adds constants to the pool. -/
def Grows {α : Type} (m : Emit α) : Prop := ∀ P : Pool, P.GrowsTo (m P).pool

theorem Grows.within {α : Type} {m : Emit α} {P P' : Pool} {code : Code}
    {x : Except CompilationError α} (hm : m.Grows) (h : m P = ⟨x, code, P'⟩) : P.Within P' := by
  have hP := (hm P).within
  rwa [h] at hP

theorem pool_jumpOver {α : Type} (span : Span) (jump : UInt16 → Instr) (more : Nat) (body : Emit α)
    (P : Pool) : (jumpOver span jump more body P).pool = (body P).pool := by
  unfold jumpOver
  cases body P with
  | mk result c P₁ =>
    cases result with
    | error e => rfl
    | ok a =>
      by_cases hlt : c.size + more < UInt16.size
      · simp [word, hlt, Pure.pure]
      · simp [word, hlt, fail]

theorem pool_word (span : Span) (n : Nat) (message : String) (P : Pool) :
    (word span n message P).pool = P := by
  by_cases hlt : n < UInt16.size
  · simp [word, hlt, Pure.pure]
  · simp [word, hlt, fail]

theorem grows : Invariant (fun _ => True) fun _ m => m.Grows where
  pure _ P := Pool.GrowsTo.refl P
  fail _ _ _ P := Pool.GrowsTo.refl P
  instrs _ _ P := Pool.GrowsTo.refl P
  constantIndex span c P := by
    have hpool : (constantIndex span c P).pool = (P.add c).2 := pool_word _ _ _ _
    rw [hpool]
    exact Pool.growsTo_add P c
  bind {α β m next} hm hnext P := by
    have h := hm P
    simp only [Bind.bind]
    split <;> rename_i heq
    · simpa [heq] using h
    · rename_i a _ P₁
      rw [heq] at h
      exact h.trans (hnext a P₁)
  silently {α m} hm P := by
    have h := hm P
    unfold Emit.silently
    split <;> rename_i heq <;> simpa [heq] using h
  jumpOver {α m} span jump more hm P := by
    rw [pool_jumpOver]
    exact hm P

/-! ## Unknown names -/

/-- An unknown name that stops the action is one of `names`. -/
def Blames {α : Type} (names : String → Prop) (m : Emit α) : Prop :=
  ∀ (P : Pool) (e : CompilationError) (n : String), (m P).result = .error e →
    e.fault = .unknownVariable n → names n

theorem blames (names : String → Prop) : Invariant names fun _ m => m.Blames names where
  pure _ _ _ _ he := nomatch he
  fail fault span hnames P e n he hn := by
    cases he
    exact hnames n hn
  instrs _ _ _ _ _ he := nomatch he
  constantIndex span c P e n he hn := by
    unfold constantIndex at he
    by_cases hlt : (P.add c).1 < UInt16.size
    · simp [word, hlt, Pure.pure] at he
    · simp only [word, if_neg hlt, fail, Except.error.injEq] at he
      subst he
      simp at hn
  bind {α β m next} hm hnext P e n he hn := by
    have h := hm P
    simp only [Bind.bind] at he
    split at he <;> rename_i heq
    · rw [heq] at h
      exact h e n (by simpa using he) hn
    · exact hnext _ _ e n he hn
  silently {α m} hm P e n he hn := by
    have h := hm P e n
    unfold Emit.silently at he
    split at he <;> rename_i heq
    · simp at he
    · rw [heq] at h
      exact h he hn
  jumpOver {α m} span jump more hm P e n he hn := by
    have hbody := hm P e n
    unfold Emit.jumpOver at he
    cases heq : m P with
    | mk result c P₁ =>
      rw [heq] at he hbody
      cases result with
      | error e' => exact hbody he hn
      | ok a =>
        by_cases hlt : c.size + more < UInt16.size
        · simp [word, hlt, Pure.pure] at he
        · simp only [word, if_neg hlt, fail, Except.error.injEq] at he
          subst he
          simp at hn

end Emit

namespace Context

variable (c : Context)

/-- Compiling an expression only adds to the pool. -/
theorem grows_infer (e : Expr) : (c.infer e).Grows := Emit.grows.infer c e fun _ _ => trivial

theorem grows_inferSegments (p : Pieces) (segments : List Segment) :
    (c.inferSegmentsOnto p [] segments).Grows :=
  Emit.grows.inferSegments c p segments fun _ _ => trivial

/-- The unknown name at which an expression stops is one that it mentions. -/
theorem blames_infer (e : Expr) : (c.infer e).Blames fun n => e.mentions n = true :=
  (Emit.blames _).infer c e fun _ hn => hn

end Context

end TypedTemplate
