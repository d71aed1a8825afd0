-- SUMMARY: Compiling without overflow checks gives the code of compiling with them, with the checks taken out.
import TypedTemplate.Proofs.Compile.Artifact
import TypedTemplate.Proofs.Compile.Settled

/-!
# Compiling without overflow checks

The option changes two instructions and nothing that is reported. So each step of the
compiler, run without overflow checks, emits what it emits with them, less the checks, and
has the same result and the same pool. That goes for steps that fail too, and from there on
for bodies, functions and units.
-/

namespace TypedTemplate

open Diagnostics

/-- The options with overflow no error. -/
def Options.unchecked (o : Options) : Options := { o with overflowChecks := false }

/-! ## Actions -/

namespace Emit

variable {α β : Type} {m m' : Emit α} {next next' : α → Emit β} {span : Span}

/-- The action with the overflow checks taken out of its code. -/
def unchecked (m : Emit α) : Emit α := fun P => ⟨(m P).result, (m P).code.unchecked, (m P).pool⟩

theorem unchecked_bind (hm : m.unchecked = m') (hnext : ∀ a, (next a).unchecked = next' a) :
    (m >>= next).unchecked = m' >>= next' := by
  obtain rfl := hm
  obtain rfl : (fun a => (next a).unchecked) = next' := funext hnext
  funext P
  simp only [unchecked, Bind.bind]
  cases m P with
  | mk result code P' =>
    cases result with
    | error e => rfl
    | ok a => simp

theorem unchecked_silently (hm : m.unchecked = m') : m.silently.unchecked = m'.silently := by
  obtain rfl := hm
  funext P
  simp only [unchecked, silently]
  cases m P with
  | mk result code P' => cases result <;> rfl

theorem unchecked_instrs (is : List Instr) :
    (instrs span is).unchecked = instrs span (is.map Instr.unchecked) := by
  funext P
  simp [unchecked, instrs, Code.unchecked]

theorem unchecked_instr {i : Instr} (h : i.unchecked = i) : (instr span i).unchecked = instr span i := by
  funext P
  simp [unchecked, instr, Code.unchecked, h]

theorem unchecked_lift (x : Except SemanticFault α) : (lift span x).unchecked = lift span x := by
  cases x <;> rfl

theorem unchecked_word (n : Nat) (message : String) :
    (word span n message).unchecked = word span n message := by
  unfold word
  split <;> rfl

theorem unchecked_jumpOver (hm : m.unchecked = m') {j : UInt16 → Instr} (hj : ∀ d, (j d).unchecked = j d)
    (more : Nat) : (jumpOver span j more m).unchecked = jumpOver span j more m' := by
  obtain rfl := hm
  funext P
  simp only [unchecked, jumpOver]
  cases m P with
  | mk result code P' =>
    cases result with
    | error e => simp [Code.unchecked, hj]
    | ok a =>
      rw [Code.size_unchecked]
      by_cases hlt : code.size + more < UInt16.size
      · simp [word, hlt, pure, Code.unchecked, hj]
      · simp [word, hlt, fail, Code.unchecked, hj]

/-! ## Actions without checks -/

theorem unchecked_counted (n : Nat) (what : String) :
    (counted span n what .buildString).unchecked = counted span n what .buildString :=
  unchecked_bind (unchecked_word n _) fun _ => unchecked_instr rfl

theorem unchecked_constantIndex (k : Constant) : (constantIndex span k).unchecked = constantIndex span k :=
  funext fun P => congrFun (unchecked_word (P.add k).1 _) (P.add k).2

theorem unchecked_constant (k : Constant) : (constant span k).unchecked = constant span k :=
  unchecked_bind (unchecked_constantIndex k) fun _ => unchecked_instr rfl

theorem unchecked_getField (index : Nat) (name : String) :
    (getField span index name).unchecked = getField span index name :=
  unchecked_bind (unchecked_word index _) fun _ =>
    unchecked_bind (unchecked_constantIndex _) fun _ => unchecked_instr rfl

theorem unchecked_int (i : Int64) : (int span i).unchecked = int span i := by
  unfold Emit.int
  split
  · exact unchecked_instr rfl
  · split
    · exact unchecked_instr rfl
    · exact unchecked_constant _

theorem unchecked_value (v : Value) : (value span v).unchecked = value span v := by
  cases v with
  | null => exact unchecked_instr rfl
  | bool b => exact unchecked_instr rfl
  | int i => exact unchecked_int i
  | object m => rfl
  | _ => exact unchecked_constant _

end Emit

namespace Pieces

open Emit

variable {p : Pieces} {span : Span}

theorem unchecked_pushText (s : String) : (p.pushText s).unchecked = p.pushText s :=
  unchecked_bind (unchecked_constant _) fun _ => rfl

theorem unchecked_flush : p.flush.unchecked = p.flush := by
  unfold flush
  split
  · exact unchecked_pushText _
  · rfl

theorem unchecked_addText (keep : Bool) (s : String) : (p.addText keep s).unchecked = p.addText keep s := by
  unfold addText
  split
  · rfl
  · exact unchecked_pushText s

theorem unchecked_join : (p.join span).unchecked = p.join span := by
  refine unchecked_bind unchecked_flush fun q => ?_
  split
  · exact unchecked_bind (unchecked_constant _) fun _ => rfl
  · split
    · rfl
    · exact unchecked_bind (unchecked_counted _ _) fun _ => rfl

end Pieces

/-! ## Rules -/

namespace Rule

variable (r : Registry) (o : Options)

/-- The ruling with the overflow checks taken out of its code. -/
def unchecked (rule : Ruling) : Ruling := rule.map fun (is, t) => (is.map Instr.unchecked, t)

theorem unary_unchecked (op : UnaryOp) (t : Ty) :
    Rule.unary r o.unchecked op t = unchecked (Rule.unary r o op t) := by
  cases op <;> simp only [Rule.unary, Rule.unary.mismatch] <;> repeat' split
  all_goals rfl

theorem unchecked_promotion (a b : Ty) : (promotion a b).map Instr.unchecked = promotion a b := by
  unfold promotion
  split <;> rfl

theorem arith_unchecked (op : ArithOp) (a b : Ty) :
    Rule.arith r o.unchecked op a b = unchecked (Rule.arith r o op a b) := by
  unfold Rule.arith
  split
  · rfl
  · split
    · rfl
    · simp [unchecked, Except.map, unchecked_promotion, Instr.unchecked]

theorem equality_unchecked (positive : Bool) (a b : Ty) :
    Rule.equality r positive a b = unchecked (Rule.equality r positive a b) := by
  unfold Rule.equality
  split
  · simp [unchecked, Except.map, unchecked_promotion, Instr.unchecked]
  · rfl

theorem binary_unchecked (op : BinaryOp) (a b : Ty) :
    Rule.binary r o.unchecked op a b = unchecked (Rule.binary r o op a b) := by
  cases op with
  | add =>
    simp only [Rule.binary, Rule.add]
    split
    · rfl
    · exact arith_unchecked r o .add a b
  | sub => exact arith_unchecked r o .sub a b
  | mul => exact arith_unchecked r o .mul a b
  | equal => exact equality_unchecked r true a b
  | notEqual => exact equality_unchecked r false a b
  | coalesce =>
    simp only [Rule.binary]
    cases Rule.coalesce r a b <;> rfl

theorem method_unchecked (name : String) (t : Ty) :
    unchecked (Rule.method r name t) = Rule.method r name t := by
  unfold Rule.method
  split <;> rfl

theorem map_unchecked_result {declared found : Ty} {is : List Instr}
    (h : Rule.result r declared found = .ok is) : is.map Instr.unchecked = is := by
  unfold Rule.result Rule.result.mismatch at h
  repeat' split at h
  all_goals cases h
  all_goals rfl

end Rule

theorem Emit.unchecked_ruling (span : Span) (rule : Ruling) :
    (Emit.ruling span rule).unchecked = Emit.ruling span (Rule.unchecked rule) := by
  cases rule with
  | error e => rfl
  | ok rule =>
    change (Emit.instrs span rule.1 >>= fun _ => pure rule.2).unchecked =
      Emit.instrs span (rule.1.map Instr.unchecked) >>= fun _ => pure rule.2
    exact unchecked_bind (unchecked_instrs rule.1) fun _ => rfl

/-! ## Expressions -/

namespace Context

open Emit

variable (c : Context) {span : Span}

def unchecked (c : Context) : Context := { c with options := c.options.unchecked }

theorem unchecked_name (x : Ident) : (c.name x).unchecked = c.unchecked.name x := by
  unfold name
  simp only [unchecked]
  split
  · exact unchecked_bind (unchecked_instr rfl) fun _ => rfl
  · rfl

theorem unchecked_member (t : Ty) (field : Ident) :
    (c.member t field span).unchecked = c.unchecked.member t field span :=
  unchecked_bind (unchecked_lift _) fun _ => unchecked_bind (unchecked_getField _ _) fun _ => rfl

theorem unchecked_call (t : Ty) (method : Ident) (args : List Expr) :
    (c.call t method args span).unchecked = c.unchecked.call t method args span := by
  have hmethod := Rule.method_unchecked c.registry method.name t
  unfold call
  simp only [unchecked]
  cases hrule : Rule.method c.registry method.name t with
  | error e => rfl
  | ok rule =>
    rw [hrule] at hmethod
    change (Emit.lift span (Rule.arguments method.name args.length) >>= fun _ =>
        Emit.ruling span (.ok rule)).unchecked =
      (Emit.lift span (Rule.arguments method.name args.length) >>= fun _ => Emit.ruling span (.ok rule))
    refine unchecked_bind (unchecked_lift _) fun _ => ?_
    rw [unchecked_ruling, hmethod]

theorem unchecked_format (t : Ty) (format : Option FormatSpec) :
    (c.format t format).unchecked = c.unchecked.format t format := by
  cases format with
  | none => rfl
  | some spec => exact unchecked_bind (unchecked_lift _) fun _ => unchecked_instr rfl

theorem unchecked_fold {m m' : Emit Ty} (e : Expr) (hm : m.unchecked = m') :
    (c.fold e m).unchecked = c.unchecked.fold e m' := by
  have hfolds : c.unchecked.options.folds = c.options.folds := rfl
  unfold fold
  rw [hfolds]
  cases if c.options.folds then e.constant? else none with
  | some v =>
    exact unchecked_bind (unchecked_silently hm) fun _ => unchecked_bind (unchecked_value _) fun _ => rfl
  | none => exact hm

theorem unchecked_literal (l : Literal) : (literal span l).unchecked = literal span l := by
  cases l with
  | int i => exact unchecked_bind (unchecked_int i) fun _ => rfl
  | bool b => exact unchecked_bind (unchecked_instr rfl) fun _ => rfl
  | null => exact unchecked_bind (unchecked_instr rfl) fun _ => rfl
  | _ => exact unchecked_bind (unchecked_constant _) fun _ => rfl

theorem lastSpan_unchecked : (e : Expr) → c.unchecked.lastSpan e = c.lastSpan e
  | .paren e span => by
    have hfolds : c.unchecked.options.folds = c.options.folds := rfl
    simp only [lastSpan, hfolds, lastSpan_unchecked e]
  | .literal .. | .name _ | .member .. | .call .. | .unary .. | .binary .. => rfl
  | .ternary .. | .interpolated .. => rfl

theorem holeSpan_unchecked (e : Expr) (format : Option FormatSpec) :
    c.unchecked.holeSpan e format = c.holeSpan e format := by
  cases format with
  | none => exact c.lastSpan_unchecked e
  | some spec => rfl

mutual

/-- An expression compiled without overflow checks. -/
theorem unchecked_infer : (e : Expr) → (c.infer e).unchecked = c.unchecked.infer e
  | .literal l _ => unchecked_literal l
  | .name x => c.unchecked_name x
  | .member e field _ => unchecked_bind (unchecked_infer e) fun t => c.unchecked_member t field
  | .call e method args _ =>
    c.unchecked_fold _ (unchecked_bind (unchecked_infer e) fun t => c.unchecked_call t method args)
  | .unary op e span => by
    refine c.unchecked_fold _ (unchecked_bind (unchecked_infer e) fun t => ?_)
    rw [unchecked_ruling, ← Rule.unary_unchecked]
    rfl
  | .binary op l r span => by
    have hl := unchecked_infer l
    have hr := unchecked_infer r
    by_cases hop : op = .coalesce
    · subst hop
      have hskip : (Emit.jumpOver span .jumpIfNotNull 0
          (do Emit.instr span .pop; c.infer r)).unchecked =
            Emit.jumpOver span .jumpIfNotNull 0 (do Emit.instr span .pop; c.unchecked.infer r) :=
        unchecked_jumpOver (unchecked_bind (unchecked_instr rfl) fun _ => hr) (fun _ => rfl) 0
      exact c.unchecked_fold _ (unchecked_bind hl fun _ => unchecked_bind hskip fun _ => unchecked_lift _)
    · rw [c.infer_binary l r span hop, infer_binary _ l r span hop]
      refine c.unchecked_fold _ (unchecked_bind hl fun a => unchecked_bind hr fun b => ?_)
      rw [unchecked_ruling, ← Rule.binary_unchecked]
      rfl
  | .ternary e t f _ =>
    c.unchecked_fold _ (unchecked_bind (unchecked_infer e) fun _ => unchecked_bind (unchecked_lift _) fun _ =>
      unchecked_bind (unchecked_jumpOver (unchecked_infer t) (fun _ => rfl) _) fun _ =>
        unchecked_bind (unchecked_jumpOver (unchecked_infer f) (fun _ => rfl) 0) fun _ =>
          unchecked_lift _)
  | .interpolated parts span =>
    c.unchecked_fold _ (unchecked_bind (unchecked_inferSegments (.start span) parts) fun _ =>
      Pieces.unchecked_join)
  | .paren e _ => c.unchecked_fold _ (unchecked_infer e)

theorem unchecked_inferSegment (p : Pieces) : (s : Segment) →
    (c.inferSegment p s).unchecked = c.unchecked.inferSegment p s
  | .text s => Pieces.unchecked_addText _ s
  | .hole e format _ => by
    have hole := unchecked_bind (unchecked_infer e) fun t => c.unchecked_format t format
    have hfolds : c.unchecked.options.folds = c.options.folds := rfl
    simp only [inferSegment, c.holeSpan_unchecked, hfolds]
    cases if c.options.folds then e.constant?.bind (Value.foldHole? format) else none with
    | some s => exact unchecked_bind (unchecked_silently hole) fun _ => Pieces.unchecked_addText _ _
    | none => exact unchecked_bind Pieces.unchecked_flush fun _ => unchecked_bind hole fun _ => rfl

theorem unchecked_inferSegments (p : Pieces) : (segments : List Segment) →
    (c.inferSegmentsOnto p [] segments).unchecked = c.unchecked.inferSegmentsOnto p [] segments
  | [] => rfl
  | s :: rest => by
    rw [inferSegmentsOnto_cons, inferSegmentsOnto_cons]
    exact unchecked_bind (unchecked_inferSegment p s) fun q => unchecked_inferSegments q rest

end

end Context

/-! ## Bodies -/

namespace Body

variable {r : Registry} {o : Options} {declared : Ty}

/-- The body with the overflow checks taken out of its code. -/
def unchecked (b : Body) : Body := { b with code := Code.unchecked b.code }

theorem unchecked_ret (c : Context) (declared : Ty) (value : Expr) (span : Span) :
    (Body.ret c declared value span).unchecked = Body.ret c.unchecked declared value span := by
  refine Emit.unchecked_bind (c.unchecked_infer value) fun t => ?_
  simp only [Context.unchecked]
  cases hrule : Rule.result c.registry declared t with
  | error e => rfl
  | ok is =>
    change (Emit.instrs span is).unchecked = Emit.instrs span is
    rw [Emit.unchecked_instrs, Rule.map_unchecked_result _ hrule]

theorem report_unchecked (b : Body) (e : CompilationError) :
    b.unchecked.report e = (b.report e).unchecked := by
  unfold report unchecked
  repeat' split
  all_goals rfl

theorem diagnostics_warnUnreachable_unchecked (b : Body) (s : Stmt) :
    (b.unchecked.warnUnreachable s).diagnostics = (b.warnUnreachable s).diagnostics := by
  unfold warnUnreachable unchecked
  split <;> rfl

theorem unchecked_reverseAux (a b : Code) :
    Code.unchecked (a.reverseAux b) = a.unchecked.reverseAux b.unchecked := by
  simp [Code.unchecked, List.reverseAux_eq]

/-- A statement compiled without overflow checks. -/
theorem step_unchecked (b : Body) (s : Stmt) :
    b.unchecked.step r o.unchecked declared s = (b.step r o declared s).unchecked := by
  have hwarn := b.diagnostics_warnUnreachable_unchecked s
  cases s with
  | letBinding x value span =>
    have hemit := congrFun (Context.unchecked_infer ⟨r, o, b.scope⟩ value) b.pool
    cases hinfer : Context.infer ⟨r, o, b.scope⟩ value b.pool with
    | mk result code P =>
    simp only [Emit.unchecked, hinfer] at hemit
    have hinfer' : Context.infer ⟨r, o.unchecked, b.unchecked.scope⟩ value b.unchecked.pool =
      ⟨result, code.unchecked, P⟩ := hemit.symm
    cases result with
    | error e =>
      rw [step_let_error hinfer, step_let_error hinfer', hwarn, ← report_unchecked]
      simp only [unchecked, unchecked_reverseAux]
    | ok t =>
      cases hdeclare : b.scope.declare x.name t x.span with
      | error e =>
        rw [step_let_undeclared hinfer hdeclare, step_let_undeclared hinfer' hdeclare, hwarn,
          ← report_unchecked]
        simp only [unchecked, unchecked_reverseAux]
      | ok found =>
        rw [step_let hinfer hdeclare, step_let hinfer' hdeclare, hwarn]
        simp only [unchecked, ← unchecked_reverseAux]
        rfl
  | ret value span =>
    have hemit := congrFun (unchecked_ret ⟨r, o, b.scope⟩ declared value span) b.pool
    cases hret : Body.ret ⟨r, o, b.scope⟩ declared value span b.pool with
    | mk result code P =>
    simp only [Emit.unchecked, hret] at hemit
    have hret' : Body.ret ⟨r, o.unchecked, b.unchecked.scope⟩ declared value span b.unchecked.pool =
      ⟨result, code.unchecked, P⟩ := hemit.symm
    cases result with
    | error e =>
      rw [step_ret_error hret, step_ret_error hret', hwarn, ← report_unchecked]
      simp only [unchecked, unchecked_reverseAux]
    | ok a =>
      rw [step_ret hret, step_ret hret', hwarn]
      simp only [unchecked, unchecked_reverseAux]

theorem run_unchecked (b : Body) (stmts : List Stmt) :
    b.unchecked.run r o.unchecked declared stmts = (b.run r o declared stmts).unchecked := by
  induction stmts generalizing b with
  | nil => rfl
  | cons s ss ih =>
    change (b.unchecked.step r o.unchecked declared s).run r o.unchecked declared ss = _
    rw [step_unchecked, ih]
    rfl

end Body

/-! ## Functions -/

/-- The function `g` is `f` with the overflow checks taken out of its code, in which jumps are
settled. -/
def CompiledFunction.Unchecks (f g : CompiledFunction) : Prop :=
  ∃ code : Code, code.Settled ∧ f.chunk = code.toChunk ∧ g = { f with chunk := code.unchecked.toChunk }

theorem Signature.compile_unchecked (s : Signature) (r : Registry) (o : Options) (pool : Pool)
    (ds : Diagnostics) :
    (s.compile r o.unchecked pool ds).2 = (s.compile r o pool ds).2 ∧
      (s.compile r o pool ds).1.Unchecks (s.compile r o.unchecked pool ds).1 := by
  have hrun : (s.body pool ds).run r o.unchecked s.result.type s.decl.body.stmts =
      ((s.body pool ds).run r o s.result.type s.decl.body.stmts).unchecked :=
    Body.run_unchecked (s.body pool ds) s.decl.body.stmts
  obtain ⟨new, hcode, hsettled⟩ := Body.exists_settled (r := r) (o := o) (s.body pool ds)
    s.result.type s.decl.body.stmts
  have hbody : ((s.body pool ds).run r o s.result.type s.decl.body.stmts).code.reverse = new := by
    rw [hcode]
    simp [Signature.body, Body.start]
  simp only [compile_eq, hrun]
  refine ⟨rfl, new, hsettled, ?_, ?_⟩
  · simp only [hbody]
  · simp only [Body.unchecked, ← hbody, Code.unchecked, List.map_reverse]

namespace CompiledFunction

variable {f g : CompiledFunction}

theorem noOverflow_firstMismatch? {index : Nat} {ts : List ValueType} {args : List Value}
    {e : RuntimeError} (h : firstMismatch? index ts args = some e) : e.isOverflow = false := by
  induction ts generalizing index args with
  | nil => cases args <;> simp [firstMismatch?] at h
  | cons t ts ih =>
    cases args with
    | nil => simp [firstMismatch?] at h
    | cons v args =>
      simp only [firstMismatch?] at h
      split at h
      · exact ih h
      · rw [← Option.some.inj h]
        rfl

/-- A call without overflow checks, of a function whose jumps are aligned. -/
theorem Unchecks.relaxes_call (h : f.Unchecks g) (haligned : f.chunk.Aligned) (pool : Pool)
    (args : List Value) : Relaxes (f.call pool args) (g.call pool args) := by
  obtain ⟨code, -, hchunk, rfl⟩ := h
  rw [hchunk] at haligned
  unfold call
  dsimp only
  split
  · exact (noOverflow_error rfl).relaxes
  · cases hmismatch : firstMismatch? 0 f.params args with
    | some e => exact (noOverflow_error (noOverflow_firstMismatch? hmismatch)).relaxes
    | none =>
      rw [hchunk]
      exact haligned.relaxes_run .start _

end CompiledFunction

/-! ## Units -/

/-- The type has the functions of the other one without overflow checks. -/
def CompiledType.Unchecks (t t' : CompiledType) : Prop :=
  t.qualifiedName = t'.qualifiedName ∧
    List.Forall₂ CompiledFunction.Unchecks t.functions t'.functions

/-- The compilation has the types of the other one without overflow checks. -/
structure Compilation.Unchecks (c c' : Compilation) : Prop where
  pool : c.pool = c'.pool
  diagnostics : c.diagnostics = c'.diagnostics
  types : List.Forall₂ CompiledType.Unchecks c.types c'.types

/-- The artifact has the types of the other one without overflow checks. -/
structure Artifact.Unchecks (a b : Artifact) : Prop where
  pool : a.pool = b.pool
  warnings : a.warnings = b.warnings
  types : List.Forall₂ CompiledType.Unchecks a.types b.types

namespace Compilation

variable {r : Registry} {o : Options} {c c' : Compilation}

theorem functionsOnto_unchecked {out out' : List CompiledFunction}
    (hout : List.Forall₂ CompiledFunction.Unchecks out out') (pool : Pool) (ds : Diagnostics)
    (ss : List Signature) :
    (functionsOnto r o.unchecked out' pool ds ss).2 = (functionsOnto r o out pool ds ss).2 ∧
      List.Forall₂ CompiledFunction.Unchecks (functionsOnto r o out pool ds ss).1
        (functionsOnto r o.unchecked out' pool ds ss).1 := by
  induction ss generalizing out out' pool ds with
  | nil => exact ⟨rfl, List.rel_reverse hout⟩
  | cons s ss ih =>
    obtain ⟨hstate, hunchecks⟩ := s.compile_unchecked r o pool ds
    have h := ih (.cons hunchecks hout) (s.compile r o pool ds).2.1 (s.compile r o pool ds).2.2
    simp only [functionsOnto, hstate]
    exact h

theorem Unchecks.step (h : c.Unchecks c') (t : TypeSignature) :
    (c.step r o t).Unchecks (c'.step r o.unchecked t) := by
  obtain ⟨pool, types, ds⟩ := c
  obtain ⟨_, types', _⟩ := c'
  obtain ⟨rfl, rfl, htypes⟩ := h
  obtain ⟨hstate, hfunctions⟩ :=
    functionsOnto_unchecked (r := r) (o := o) .nil pool ds t.functions
  simp only [Compilation.step, hstate]
  exact ⟨rfl, rfl, .cons ⟨rfl, hfunctions⟩ htypes⟩

theorem Unchecks.foldl (h : c.Unchecks c') (types : List TypeSignature) :
    (types.foldl (Compilation.step r o) c).Unchecks
      (types.foldl (Compilation.step r o.unchecked) c') := by
  induction types generalizing c c' with
  | nil => exact h
  | cons t types ih => exact ih (h.step t)

end Compilation

/-- With overflow checks and without a unit compiles to the same functions but for the checks, or to
the same diagnostics. -/
theorem SourceUnit.compile_unchecked (u : SourceUnit) (r : Registry) (o : Options) :
    (∃ ds, u.compile r o = .error ds ∧ u.compile r o.unchecked = .error ds) ∨
      ∃ a b, u.compile r o = .ok a ∧ u.compile r o.unchecked = .ok b ∧ a.Unchecks b := by
  have hstart : Compilation.Unchecks ⟨.empty, [], (u.signatures r).2.reverse⟩
      ⟨.empty, [], (u.signatures r).2.reverse⟩ := ⟨rfl, rfl, .nil⟩
  obtain ⟨hpool, hdiagnostics, htypes⟩ := hstart.foldl (r := r) (o := o) (u.signatures r).1
  unfold SourceUnit.compile Compilation.artifact
  simp only [← hdiagnostics, ← hpool]
  split
  · exact .inl ⟨_, rfl, rfl⟩
  · exact .inr ⟨_, _, rfl, rfl, rfl, rfl, List.rel_reverse htypes⟩

/-- Functions of one name correspond. -/
theorem Artifact.Unchecks.function? {a b : Artifact} (h : a.Unchecks b) (q x : String) :
    Option.Rel CompiledFunction.Unchecks (a.function? q x) (b.function? q x) := by
  refine rel_bind (rel_find? h.types fun t t' ht => ?_) fun t t' ht =>
    rel_find? ht.2 fun f g hfg => ?_
  · rw [ht.1]
  · obtain ⟨code, -, -, rfl⟩ := hfg
    rfl

end TypedTemplate
