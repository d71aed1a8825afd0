-- SUMMARY: The code of a body without faults ends with what its statements evaluate to.
import TypedTemplate.Proofs.Compile.Expr
import TypedTemplate.Proofs.Compile.Fault

/-!
# Compiled bodies

A body that is compiled without faults is typed, and its code ends with the value
of its statements. Each binding takes the next local, which no later one touches,
and what follows the first `return` is code that never runs.
-/

namespace TypedTemplate

open Diagnostics

namespace Body

variable {r : Registry} {o : Options} {declared : Ty} {b b' : Body}

/-! ## Bodies without faults -/

theorem ret_ok {c : Context} {value : Expr} {span : Span} {code : Code} {P P' : Pool} {a : PUnit}
    (h : Body.ret c declared value span P = ⟨.ok a, code, P'⟩) :
    ∃ t c₁ is, c.infer value P = ⟨.ok t, c₁, P'⟩ ∧ Rule.result c.registry declared t = .ok is ∧
      code = c₁ ++ Code.on span.line is := by
  simp only [Body.ret, Emit.bind_ok, Emit.lift_ok, Emit.instrs_ok] at h
  obtain ⟨t, c₁, _, _, hinfer, ⟨is, _, _, _, ⟨hrule, rfl, rfl⟩, ⟨rfl, rfl⟩, rfl⟩, rfl⟩ := h
  exact ⟨t, c₁, is, hinfer, hrule, rfl⟩

/-- A body without faults is typed. -/
theorem typed_of_faults {stmts : List Stmt} {Γ : Typing} (hs : b.scope.Types Γ)
    (hfaults : b.faults r o declared stmts = []) (hreturns : stmts.any (·.isReturn) = true) :
    Stmt.typed r declared Γ stmts = true := by
  induction stmts generalizing b Γ with
  | nil => simp at hreturns
  | cons s ss ih =>
    simp only [faults, List.append_eq_nil_iff, Option.toList_eq_nil_iff] at hfaults
    obtain ⟨hfault, hfaults⟩ := hfaults
    cases s with
    | letBinding x value span =>
      obtain ⟨t, code, P, slot, scope, hinfer, hdeclare⟩ := fault?_letBinding hfault
      have htype := Context.infer_type (c := ⟨r, o, b.scope⟩) hs value hinfer
      simp only [Stmt.typed, htype]
      refine ih ?_ hfaults (by simpa [Stmt.isReturn] using hreturns)
      rw [step_let hinfer hdeclare]
      exact hs.declare hdeclare
    | ret value span =>
      obtain ⟨code, P, hret⟩ := fault?_ret hfault
      obtain ⟨t, _, is, hinfer, hrule, -⟩ := ret_ok hret
      have htype := Context.infer_type (c := ⟨r, o, b.scope⟩) hs value hinfer
      simp [Stmt.typed, htype, hrule, Except.isOk, Except.toBool]

/-- Storing a value where a name was declared. -/
theorem setLocal_runs (pool : Pool) (line : Nat) {scope scope' : Scope} {env : Env}
    {locals : Array Value} {x : String} {t : Ty} {span : Span} {slot : Nat} (v : Value)
    (hs : scope.Agrees env locals) (hdeclare : scope.declare x t span = .ok (slot, scope'))
    (hroom : scope'.frameSize ≤ locals.size) :
    ∃ locals', Code.Runs pool [⟨line, .setLocal (UInt8.ofNat slot)⟩] ⟨[v], locals⟩
        (.ok ⟨[], locals'⟩) ∧
      locals'.size = locals.size ∧ scope'.Agrees (⟨x, t, v⟩ :: env) locals' := by
  have hsize := Scope.frameSize_declare hdeclare
  obtain ⟨-, rfl, hlimit, -⟩ := Scope.declare_eq_ok hdeclare
  have hlt : scope.frameSize < locals.size := by omega
  have hslot : (UInt8.ofNat scope.frameSize).toNat = scope.frameSize := by
    simpa [Scope.maxLocals] using hlimit
  refine ⟨locals.setIfInBounds scope.frameSize v, ?_, by simp, ?_⟩
  · apply Code.Runs.instr
    intro offset next
    simp only [Instr.step, Frame.pop_cons, hslot, bind, Except.bind, if_pos hlt]
    rfl
  · apply hs.declare hdeclare (by simp [hlt])
    intro i hi
    simp [Nat.ne_of_gt hi]

/-- The code of a binding, and then of what follows it in the scope with the new name. -/
theorem letBinding_ends {Q : Pool} (hQ : Q.Consistent) {scope scope' : Scope} {env : Env}
    {locals : Array Value} {x : Ident} {value : Expr} {t : Ty} {slot line : Nat} {code rest : Code}
    {P P' : Pool} {k : Value → Except RuntimeError Value} (hs : scope.Agrees env locals)
    (hinfer : Context.infer ⟨r, o, scope⟩ value P = ⟨.ok t, code, P'⟩)
    (hdeclare : scope.declare x.name t x.span = .ok (slot, scope')) (hin : P'.Within Q)
    (hroom : scope'.frameSize ≤ locals.size)
    (hrest : ∀ v locals', locals'.size = locals.size →
      scope'.Agrees (⟨x.name, t, v⟩ :: env) locals' → rest.Ends Q ⟨[], locals'⟩ (k v)) :
    (code ++ (⟨line, .setLocal (UInt8.ofNat slot)⟩ :: rest)).Ends Q ⟨[], locals⟩
      ((value.evalBy r ⟨o.folds, Q.readFloat⟩ o.overflowChecks env).bind k) := by
  have hvalue := Context.infer_pushes (c := ⟨r, o, scope⟩) hQ hs value hinfer hin
  apply hvalue.ends
  intro v
  obtain ⟨locals', hset, hsize, hs'⟩ := setLocal_runs Q line v hs hdeclare hroom
  exact hset.ends (hrest v locals' hsize hs')

/-- The code of a `return`, whatever follows it. -/
theorem ret_ends {Q : Pool} (hQ : Q.Consistent) {c : Context} {env : Env} {locals : Array Value}
    {value : Expr} {span : Span} {code : Code} {P P' : Pool} {a : PUnit}
    (hs : c.scope.Agrees env locals) (hret : Body.ret c declared value span P = ⟨.ok a, code, P'⟩)
    (hin : P'.Within Q) (rest : Code) :
    (code ++ rest).Ends Q ⟨[], locals⟩
      ((value.evalBy c.registry ⟨c.options.folds, Q.readFloat⟩ c.options.overflowChecks env).bind
        fun v => .ok (v.convert (value.kind c.registry env) declared.kind)) := by
  obtain ⟨t, code, is, hinfer, hrule, rfl⟩ := ret_ok hret
  rw [List.append_assoc]
  have hvalue := Context.infer_pushes hQ hs value hinfer hin
  apply hvalue.ends
  intro v
  rw [Context.kind_of_infer hs hinfer]
  exact (Rule.result_ends hrule v []).append rest

/-- The code of a body stands in reverse, so a statement's code goes before the rest. -/
theorem code_eq_append {new code rest base : Code}
    (h : new.reverse ++ base = rest.reverse ++ (code.reverse ++ base)) : new = code ++ rest := by
  have hreverse : new.reverse = (code ++ rest).reverse := by
    rw [List.reverse_append]
    exact List.append_cancel_right (h.trans (List.append_assoc _ _ _).symm)
  exact List.reverse_inj.1 hreverse

/-- The code of a body without faults ends with the value of its statements. -/
theorem run_ends {Q : Pool} (hQ : Q.Consistent) {stmts : List Stmt} {env : Env}
    {locals : Array Value} (hfaults : b.faults r o declared stmts = [])
    (hreturns : stmts.any (·.isReturn) = true)
    (hin : (b.run r o declared stmts).pool.Within Q) (hs : b.scope.Agrees env locals)
    (hroom : (b.run r o declared stmts).scope.frameSize ≤ locals.size) {new : Code}
    (hnew : (b.run r o declared stmts).code = new.reverse ++ b.code) :
    new.Ends Q ⟨[], locals⟩
      (Stmt.evalAll r (Expr.evalBy r ⟨o.folds, Q.readFloat⟩ o.overflowChecks) declared env
        stmts) := by
  induction stmts generalizing b env locals new with
  | nil => simp at hreturns
  | cons s ss ih =>
    simp only [faults, List.append_eq_nil_iff, Option.toList_eq_nil_iff] at hfaults
    obtain ⟨hfault, hfaults⟩ := hfaults
    have hrest : (b.step r o declared s).Leads (b.run r o declared (s :: ss)) := leads_run ss
    have hin₁ := hrest.pool.within.trans hin
    obtain ⟨rest, hcode⟩ := hrest.code
    have hrun : new.reverse ++ b.code = rest.reverse ++ (b.step r o declared s).code :=
      hnew.symm.trans hcode
    cases s with
    | letBinding x value span =>
      obtain ⟨t, code, P, slot, scope, hinfer, hdeclare⟩ := fault?_letBinding hfault
      have hstep : b.step r o declared (.letBinding x value span) = _ := step_let hinfer hdeclare
      have hroom₁ := Nat.le_trans hrest.size hroom
      rw [hstep] at hin₁ hroom₁ hrun
      have hsplit : new = code ++ (⟨span.line, .setLocal (UInt8.ofNat slot)⟩ :: rest) :=
        code_eq_append (by simpa using hrun)
      rw [hsplit]
      apply letBinding_ends hQ hs hinfer hdeclare hin₁ hroom₁
      intro v locals' hsize hs'
      have htype : value.type? r env.typing = some t :=
        Context.infer_type (c := ⟨r, o, b.scope⟩) hs.types value hinfer
      rw [htype, Option.getD_some]
      exact ih hfaults (by simpa [Stmt.isReturn] using hreturns) hin
        (by rw [hstep]; exact hs') (by rw [hsize]; exact hroom) hcode
    | ret value span =>
      obtain ⟨code, P, hret⟩ := fault?_ret hfault
      rw [step_ret hret] at hin₁ hrun
      have hsplit : new = code ++ rest := code_eq_append (by simpa using hrun)
      rw [hsplit]
      exact ret_ends hQ hs hret hin₁ rest

end Body

end TypedTemplate
