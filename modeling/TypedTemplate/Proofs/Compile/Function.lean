-- SUMMARY: A function compiled without errors gives for every argument list what its body evaluates to.
import TypedTemplate.Proofs.Compile.Body

/-!
# Compiled functions

The parameters take the first locals, which a call fills with the arguments. A
function whose compilation leaves no error on record has no faults, unless a binding
mentions itself, and then calling it is evaluating its statements.
-/

namespace TypedTemplate

open Diagnostics

namespace Scope

variable {s : Scope} {ds : Diagnostics}

theorem suffix_ofParams (params : List (Param × DeclaredType)) : ds <:+ (s.ofParams ds params).2 := by
  induction params generalizing s ds with
  | nil => exact List.suffix_rfl
  | cons p rest ih =>
    obtain ⟨p, d⟩ := p
    unfold ofParams
    split
    · exact ih
    · exact (List.suffix_cons _ _).trans ih

theorem poisoned_ofParams (params : List (Param × DeclaredType)) :
    (s.ofParams ds params).1.poisoned = s.poisoned := by
  induction params generalizing s ds with
  | nil => rfl
  | cons p rest ih =>
    obtain ⟨p, d⟩ := p
    unfold ofParams
    split
    · rename_i found hdeclare
      obtain ⟨-, -, -, hscope⟩ := declare_eq_ok hdeclare
      rw [ih, hscope]
    · exact ih

/-- The parameters are bound to the arguments that the first locals hold. -/
theorem agrees_ofParams {env : Env} {locals : Array Value} {args : List Value}
    {params : List (Param × DeclaredType)} (hs : s.Agrees env locals)
    (herrors : hasErrors (s.ofParams ds params).2 = false) (hlength : params.length ≤ args.length)
    (hargs : ∀ i < args.length, locals[s.frameSize + i]? = args[i]?) :
    (s.ofParams ds params).1.Agrees (env.ofParams params args) locals := by
  induction params generalizing s ds env args with
  | nil => exact hs
  | cons p rest ih =>
    obtain ⟨p, d⟩ := p
    cases args with
    | nil => simp at hlength
    | cons v args =>
      unfold ofParams at herrors ⊢
      cases hdeclare : s.declare p.name.name d.type p.name.span with
      | error e =>
        simp only [hdeclare] at herrors
        rw [hasErrors_of_suffix (suffix_ofParams rest) (by simp)] at herrors
        simp at herrors
      | ok found =>
        obtain ⟨slot, s'⟩ := found
        simp only [hdeclare] at herrors ⊢
        have hsize := frameSize_declare hdeclare
        have hslot : slot = s.frameSize := (declare_eq_ok hdeclare).2.1
        have hfirst : locals[slot]? = some v := by simpa [hslot] using hargs 0 (by simp)
        refine ih (hs.declare hdeclare hfirst fun _ _ => rfl) herrors (by simpa using hlength) ?_
        intro i hi
        have h := hargs (i + 1) (by simpa using hi)
        rw [hsize, Nat.add_assoc, Nat.add_comm 1 i]
        simpa using h

end Scope

namespace Signature

variable {r : Registry} {o : Options} {s : Signature} {pool Q : Pool} {ds : Diagnostics}

/-- The body of a function before its statements. -/
def body (s : Signature) (pool : Pool) (ds : Diagnostics) : Body :=
  let (scope, ds) := Scope.empty.ofParams ds (s.decl.params.zip s.params)
  Body.start scope pool ds

/-- The errors of the statements of a function. -/
def faults (s : Signature) (r : Registry) (o : Options) (pool : Pool) (ds : Diagnostics) :
    List CompilationError :=
  (s.body pool ds).faults r o s.result.type s.decl.body.stmts

/-- A binding of the function mentions the name it binds. -/
def namesItself (s : Signature) : Bool := s.decl.body.stmts.any Stmt.namesItself

theorem recorded_body : (s.body pool ds).Recorded := by
  intro h
  refine absurd ?_ h
  exact Scope.poisoned_ofParams _

variable (s) in
/-- What compiling the function leaves. -/
theorem compile_eq (r : Registry) (o : Options) (pool : Pool) (ds : Diagnostics) :
    s.compile r o pool ds =
      let b := (s.body pool ds).run r o s.result.type s.decl.body.stmts
      (⟨s.decl.name.name, s.params.map (·.valueType), s.result.valueType, b.scope.frameSize,
        Code.toChunk b.code.reverse⟩, b.pool,
        if s.decl.body.returns then b.diagnostics
        else .ofCompilationError ⟨.missingReturn s.decl.name.name, s.decl.name.span⟩ ::
          b.diagnostics) := rfl

theorem growsTo_compile : pool.GrowsTo (s.compile r o pool ds).2.1 := by
  rw [compile_eq]
  exact (Body.leads_run (b := s.body pool ds) s.decl.body.stmts).pool

variable (s r o pool) in
theorem suffix_compile : ds <:+ (s.compile r o pool ds).2.2 := by
  rw [compile_eq]
  have hbody : ds <:+ (s.body pool ds).diagnostics := Scope.suffix_ofParams _
  have hrun : ds <:+ ((s.body pool ds).run r o s.result.type s.decl.body.stmts).diagnostics :=
    hbody.trans (Body.leads_run _).diagnostics
  dsimp only
  split
  · exact hrun
  · exact hrun.trans (List.suffix_cons _ _)

/-- Without errors after the compilation there were none in it, nor for want of a return. -/
theorem hasErrors_of_compile (h : hasErrors (s.compile r o pool ds).2.2 = false) :
    s.decl.body.returns = true ∧
      hasErrors ((s.body pool ds).run r o s.result.type s.decl.body.stmts).diagnostics = false := by
  rw [compile_eq] at h
  dsimp only at h
  split at h
  · exact ⟨‹_›, h⟩
  · simp at h

/-- Without errors after the compilation all parameters could be declared. -/
theorem hasErrors_params (h : hasErrors (s.compile r o pool ds).2.2 = false) :
    hasErrors (Scope.empty.ofParams ds (s.decl.params.zip s.params)).2 = false := by
  obtain ⟨-, hrun⟩ := hasErrors_of_compile h
  apply Bool.eq_false_iff.2
  intro hparams
  have hbody : hasErrors (s.body pool ds).diagnostics = true := hparams
  rw [hasErrors_of_suffix (Body.leads_run s.decl.body.stmts).diagnostics hbody] at hrun
  simp at hrun

/-- Every error of a statement is on record, unless it is the use of an unknown name. -/
theorem mem_compile {e : CompilationError} (h : e ∈ s.faults r o pool ds) :
    .ofCompilationError e ∈ (s.compile r o pool ds).2.2 ∨ ∃ n, e.fault = .unknownVariable n := by
  rw [compile_eq]
  dsimp only
  apply (Body.mem_run h).imp_left
  intro hmem
  split
  · exact hmem
  · exact List.mem_cons_of_mem _ hmem

/-- A function compiled without errors has no faults, if no binding mentions itself. -/
theorem faults_eq_nil (hself : s.namesItself = false)
    (h : hasErrors (s.compile r o pool ds).2.2 = false) : s.faults r o pool ds = [] := by
  have hrun := (hasErrors_of_compile h).2
  cases hfaults : s.faults r o pool ds with
  | nil => rfl
  | cons e es =>
    have hne : s.faults r o pool ds ≠ [] := by simp [hfaults]
    rw [Body.hasErrors_of_faults recorded_body hself hne] at hrun
    simp at hrun

theorem faults_of_namesItself (hself : s.namesItself = true) : s.faults r o pool ds ≠ [] :=
  Body.faults_of_namesItself hself

/-! ## Calls -/

theorem getElem?_start {args : List Value} {count i : Nat} (hi : i < args.length) :
    (Frame.start args count).locals[i]? = args[i]? := by
  simp [Frame.start, List.getElem?_append_left hi]

theorem le_size_start (args : List Value) (count : Nat) :
    count ≤ (Frame.start args count).locals.size := by
  simp only [Frame.start, List.size_toArray, List.length_append, List.length_replicate]
  omega

/-- The bindings that a call starts with. -/
def env (s : Signature) (args : List Value) : Env := Env.ofParams [] (s.decl.params.zip s.params) args

/-- A function compiled without errors is typed, and running it gives what its body evaluates to. -/
theorem run_compile (hQ : Q.Consistent) (hself : s.namesItself = false)
    (herrors : hasErrors (s.compile r o pool ds).2.2 = false)
    (hin : (s.compile r o pool ds).2.1.Within Q) {args : List Value}
    (hargs : args.length = s.params.length) :
    Stmt.typed r s.result.type (s.env args).typing s.decl.body.stmts = true ∧
      (s.compile r o pool ds).1.chunk.run Q 0
          (.start args (s.compile r o pool ds).1.localCount) =
        s.evalWith r (Expr.evalBy r ⟨o.folds, Q.readFloat⟩ o.overflowChecks) args := by
  obtain ⟨hreturns, -⟩ := hasErrors_of_compile herrors
  have hfaults := faults_eq_nil hself herrors
  have hparams := hasErrors_params herrors
  let frame := Frame.start args (s.compile r o pool ds).1.localCount
  have hagrees : (s.body pool ds).scope.Agrees (s.env args) frame.locals := by
    refine Scope.agrees_ofParams (Scope.agrees_empty _ _) hparams ?_ fun i hi => ?_
    · rw [List.length_zip, hargs]
      omega
    · have hzero : Scope.empty.frameSize + i = i := Nat.zero_add i
      rw [hzero]
      exact getElem?_start hi
  refine ⟨Body.typed_of_faults hagrees.types hfaults hreturns, ?_⟩
  rw [compile_eq] at hin ⊢
  have hnew : ((s.body pool ds).run r o s.result.type s.decl.body.stmts).code =
      (((s.body pool ds).run r o s.result.type s.decl.body.stmts).code.reverse).reverse ++ [] := by
    simp
  have hends := Body.run_ends hQ hfaults hreturns hin hagrees (le_size_start args _) hnew
  have hcode := hends [] []
  simp only [List.nil_append, List.append_nil, Code.size_nil] at hcode
  exact hcode

end Signature

namespace CompiledFunction

/-- The arguments are as many as declared and of the declared types. -/
def Accepts (f : CompiledFunction) (args : List Value) : Prop :=
  args.length = f.params.length ∧ firstMismatch? 0 f.params args = none

theorem call_of_accepts {f : CompiledFunction} {args : List Value} (h : f.Accepts args)
    (pool : Pool) : f.call pool args = f.chunk.run pool 0 (.start args f.localCount) := by
  unfold call
  rw [if_neg (by simp [h.1]), h.2]

/-- Whether arguments are accepted, and the error if not, depends on the parameters alone. -/
theorem call_of_not_accepts {f g : CompiledFunction} (hparams : f.params = g.params)
    {args : List Value} (h : ¬f.Accepts args) (pool pool' : Pool) :
    f.call pool args = g.call pool' args := by
  unfold call
  rw [← hparams]
  split
  · rfl
  · rename_i hlength
    cases hmismatch : firstMismatch? 0 f.params args with
    | some e => rfl
    | none => exact absurd ⟨by simpa using hlength, hmismatch⟩ h

end CompiledFunction

end TypedTemplate
