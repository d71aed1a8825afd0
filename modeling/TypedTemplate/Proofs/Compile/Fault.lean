-- SUMMARY: The errors of the statements of a body, reported or not, and when one of them is on record.
import TypedTemplate.Compile.Function
import TypedTemplate.Proofs.Compile.Infer
import TypedTemplate.Proofs.Compile.Invariant

/-!
# Faults of bodies

A statement with an error is reported, unless the error is the use of a poisoned
name. A name is poisoned by an earlier error, or by the very binding whose value
mentions it. So as long as no binding mentions itself, an error that is not
reported follows from one that is.
-/

namespace TypedTemplate

namespace Diagnostics

@[simp] theorem hasErrors_cons (d : Diagnostic) (ds : Diagnostics) :
    hasErrors (d :: ds) = (d.isError || hasErrors ds) := rfl

theorem hasErrors_iff {ds : Diagnostics} : hasErrors ds = true ↔ ∃ d ∈ ds, d.isError = true :=
  List.any_eq_true

/-- Errors stay on record. -/
theorem hasErrors_of_suffix {ds ds' : Diagnostics} (h : ds <:+ ds') (hds : hasErrors ds = true) :
    hasErrors ds' = true := by
  obtain ⟨d, hd, herror⟩ := hasErrors_iff.1 hds
  exact hasErrors_iff.2 ⟨d, h.subset hd, herror⟩

theorem hasErrors_reverse (ds : Diagnostics) : hasErrors ds.reverse = hasErrors ds :=
  List.any_reverse

@[simp] theorem isError_ofCompilationError (e : CompilationError) :
    (Diagnostic.ofCompilationError e).isError = true := rfl

end Diagnostics

open Diagnostics

namespace Body

variable {r : Registry} {o : Options} {declared : Ty} {b : Body} {s : Stmt}

/-! ## Single steps -/

theorem warnUnreachable_eq (b : Body) (s : Stmt) :
    b.warnUnreachable s =
      ⟨b.scope, b.code, b.pool, (b.warnUnreachable s).diagnostics, b.returned⟩ := by
  unfold warnUnreachable
  split <;> rfl

@[simp] theorem scope_report (b : Body) (e : CompilationError) : (b.report e).scope = b.scope := by
  unfold report
  repeat' split
  all_goals rfl

@[simp] theorem pool_report (b : Body) (e : CompilationError) : (b.report e).pool = b.pool := by
  unfold report
  repeat' split
  all_goals rfl

@[simp] theorem code_report (b : Body) (e : CompilationError) : (b.report e).code = b.code := by
  unfold report
  repeat' split
  all_goals rfl

theorem suffix_warnUnreachable : b.diagnostics <:+ (b.warnUnreachable s).diagnostics := by
  unfold warnUnreachable
  split
  · exact List.suffix_cons _ _
  · exact List.suffix_rfl

theorem suffix_report {ds : Diagnostics} (h : ds <:+ b.diagnostics) (e : CompilationError) :
    ds <:+ (b.report e).diagnostics := by
  unfold report
  repeat' split
  all_goals first | exact h | exact h.trans (List.suffix_cons _ _)

/-- An error that is reported is on record, unless it is the use of a poisoned name. -/
theorem mem_report (b : Body) (e : CompilationError) :
    .ofCompilationError e ∈ (b.report e).diagnostics ∨
      ∃ n, e.fault = .unknownVariable n ∧ b.scope.isPoisoned n = true := by
  unfold report
  split
  · rename_i n hn
    split
    · exact .inr ⟨n, hn, ‹_›⟩
    · exact .inl List.mem_cons_self
  · exact .inl List.mem_cons_self

theorem step_let_error {x : Ident} {value : Expr} {span : Span} {e : CompilationError} {code : Code}
    {P : Pool} (h : Context.infer ⟨r, o, b.scope⟩ value b.pool = ⟨.error e, code, P⟩) :
    b.step r o declared (.letBinding x value span) =
      Body.report ⟨b.scope.poison x.name, code.reverseAux b.code, P,
        (b.warnUnreachable (.letBinding x value span)).diagnostics, b.returned⟩ e := by
  change (b.warnUnreachable _).letBinding r o x value span = _
  rw [warnUnreachable_eq]
  simp only [letBinding, h]
  rfl

theorem step_let_undeclared {x : Ident} {value : Expr} {span : Span} {t : Ty} {e : CompilationError}
    {code : Code} {P : Pool} (h : Context.infer ⟨r, o, b.scope⟩ value b.pool = ⟨.ok t, code, P⟩)
    (hd : b.scope.declare x.name t x.span = .error e) :
    b.step r o declared (.letBinding x value span) =
      Body.report ⟨b.scope, code.reverseAux b.code, P,
        (b.warnUnreachable (.letBinding x value span)).diagnostics, b.returned⟩ e := by
  change (b.warnUnreachable _).letBinding r o x value span = _
  rw [warnUnreachable_eq]
  simp only [letBinding, h, append, hd]

theorem step_let {x : Ident} {value : Expr} {span : Span} {t : Ty} {slot : Nat} {scope : Scope}
    {code : Code} {P : Pool} (h : Context.infer ⟨r, o, b.scope⟩ value b.pool = ⟨.ok t, code, P⟩)
    (hd : b.scope.declare x.name t x.span = .ok (slot, scope)) :
    b.step r o declared (.letBinding x value span) =
      ⟨scope, ⟨span.line, .setLocal (UInt8.ofNat slot)⟩ :: code.reverseAux b.code, P,
        (b.warnUnreachable (.letBinding x value span)).diagnostics, b.returned⟩ := by
  change (b.warnUnreachable _).letBinding r o x value span = _
  rw [warnUnreachable_eq]
  simp only [letBinding, h, append, hd]
  rfl

theorem step_ret_error {value : Expr} {span : Span} {e : CompilationError} {code : Code} {P : Pool}
    (h : Body.ret ⟨r, o, b.scope⟩ declared value span b.pool = ⟨.error e, code, P⟩) :
    b.step r o declared (.ret value span) =
      Body.report ⟨b.scope, code.reverseAux b.code, P,
        (b.warnUnreachable (.ret value span)).diagnostics, true⟩ e := by
  unfold step
  rw [warnUnreachable_eq]
  simp only [h]
  rfl

theorem step_ret {value : Expr} {span : Span} {a : PUnit} {code : Code} {P : Pool}
    (h : Body.ret ⟨r, o, b.scope⟩ declared value span b.pool = ⟨.ok a, code, P⟩) :
    b.step r o declared (.ret value span) =
      ⟨b.scope, code.reverseAux b.code, P, (b.warnUnreachable (.ret value span)).diagnostics,
        true⟩ := by
  unfold step
  rw [warnUnreachable_eq]
  simp only [h]
  rfl

/-! ## Faults -/

/-- The error of a statement, whether or not it is reported. -/
def fault? (r : Registry) (o : Options) (declared : Ty) (b : Body) : Stmt → Option CompilationError
  | .letBinding x value _ =>
    match (Context.infer ⟨r, o, b.scope⟩ value b.pool).result with
    | .error e => some e
    | .ok t    =>
      match b.scope.declare x.name t x.span with
      | .error e => some e
      | .ok _    => none
  | .ret value span        =>
    match (Body.ret ⟨r, o, b.scope⟩ declared value span b.pool).result with
    | .error e => some e
    | .ok _    => none

/-- The errors of statements, in order. -/
def faults (r : Registry) (o : Options) (declared : Ty) (b : Body) :
    List Stmt → List CompilationError
  | []      => []
  | s :: ss => (b.fault? r o declared s).toList ++ faults r o declared (b.step r o declared s) ss

/-- A binding without error is compiled and declared. -/
theorem fault?_letBinding {x : Ident} {value : Expr} {span : Span}
    (h : b.fault? r o declared (.letBinding x value span) = none) :
    ∃ t code P slot scope, Context.infer ⟨r, o, b.scope⟩ value b.pool = ⟨.ok t, code, P⟩ ∧
      b.scope.declare x.name t x.span = .ok (slot, scope) := by
  cases hinfer : Context.infer ⟨r, o, b.scope⟩ value b.pool with
  | mk result code P =>
    cases result with
    | error e => simp [fault?, hinfer] at h
    | ok t =>
      cases hdeclare : b.scope.declare x.name t x.span with
      | error e => simp [fault?, hinfer, hdeclare] at h
      | ok found => exact ⟨t, code, P, found.1, found.2, rfl, hdeclare⟩

/-- A return without error is compiled. -/
theorem fault?_ret {value : Expr} {span : Span}
    (h : b.fault? r o declared (.ret value span) = none) :
    ∃ code P, Body.ret ⟨r, o, b.scope⟩ declared value span b.pool = ⟨.ok ⟨⟩, code, P⟩ := by
  cases hret : Body.ret ⟨r, o, b.scope⟩ declared value span b.pool with
  | mk result code P =>
    cases result with
    | error e => simp [fault?, hret] at h
    | ok _ => exact ⟨code, P, rfl⟩

/-! ## Growth -/

/-- The body `b'` has what `b` has and possibly more constants, locals, code and diagnostics. -/
structure Leads (b b' : Body) : Prop where
  pool : b.pool.GrowsTo b'.pool
  size : b.scope.frameSize ≤ b'.scope.frameSize
  code : ∃ new : Code, b'.code = new.reverse ++ b.code
  diagnostics : b.diagnostics <:+ b'.diagnostics

theorem Leads.refl (b : Body) : b.Leads b := ⟨.refl _, Nat.le_refl _, ⟨[], rfl⟩, List.suffix_rfl⟩

theorem Leads.trans {b' b'' : Body} (h : b.Leads b') (h' : b'.Leads b'') : b.Leads b'' := by
  obtain ⟨new, hnew⟩ := h.code
  obtain ⟨new', hnew'⟩ := h'.code
  exact ⟨h.pool.trans h'.pool, Nat.le_trans h.size h'.size, ⟨new ++ new', by simp [hnew, hnew']⟩,
    h.diagnostics.trans h'.diagnostics⟩

/-- A report keeps all but the diagnostics. -/
theorem Leads.report {b' : Body} (h : b.Leads b') (e : CompilationError) : b.Leads (b'.report e) :=
  ⟨by simpa using h.pool, by simpa using h.size, by simpa using h.code,
    suffix_report h.diagnostics e⟩

theorem frameSize_poison (scope : Scope) (x : String) :
    (scope.poison x).frameSize = scope.frameSize := by
  unfold Scope.poison
  split <;> rfl

theorem ret_grows (declared : Ty) (c : Context) (value : Expr) (span : Span) :
    (Body.ret c declared value span).Grows :=
  Emit.grows.bind (c.grows_infer value) fun _ =>
    Emit.grows.bind (Emit.grows.lift _ Rule.nameless_result) fun _ => Emit.grows.instrs span _

theorem leads_step (s : Stmt) : b.Leads (b.step r o declared s) := by
  have hwarn : b.diagnostics <:+ (b.warnUnreachable s).diagnostics := suffix_warnUnreachable
  cases s with
  | letBinding x value span =>
    have hpool := Context.grows_infer ⟨r, o, b.scope⟩ value b.pool
    cases hinfer : Context.infer ⟨r, o, b.scope⟩ value b.pool with
    | mk result code P =>
      rw [hinfer] at hpool
      cases result with
      | error e =>
        rw [step_let_error hinfer]
        refine Leads.report ?_ e
        exact ⟨hpool, by simp [frameSize_poison], ⟨code, by simp⟩, hwarn⟩
      | ok t =>
        cases hdeclare : b.scope.declare x.name t x.span with
        | error e =>
          rw [step_let_undeclared hinfer hdeclare]
          refine Leads.report ?_ e
          exact ⟨hpool, Nat.le_refl _, ⟨code, by simp⟩, hwarn⟩
        | ok found =>
          obtain ⟨slot, scope⟩ := found
          rw [step_let hinfer hdeclare]
          have hsize := Scope.frameSize_declare hdeclare
          exact ⟨hpool, by simp [hsize],
            ⟨code ++ [⟨span.line, .setLocal (UInt8.ofNat slot)⟩], by simp⟩, hwarn⟩
  | ret value span =>
    have hpool := ret_grows declared ⟨r, o, b.scope⟩ value span b.pool
    cases hret : Body.ret ⟨r, o, b.scope⟩ declared value span b.pool with
    | mk result code P =>
      rw [hret] at hpool
      cases result with
      | error e =>
        rw [step_ret_error hret]
        refine Leads.report ?_ e
        exact ⟨hpool, Nat.le_refl _, ⟨code, by simp⟩, hwarn⟩
      | ok a =>
        rw [step_ret hret]
        exact ⟨hpool, Nat.le_refl _, ⟨code, by simp⟩, hwarn⟩

theorem leads_run (stmts : List Stmt) : b.Leads (b.run r o declared stmts) := by
  induction stmts generalizing b with
  | nil => exact .refl b
  | cons s ss ih => exact (leads_step s).trans ih

/-! ## Errors on record -/

theorem isPoisoned_poison {scope : Scope} {x n : String}
    (h : (scope.poison x).isPoisoned n = true) : n = x ∨ scope.isPoisoned n = true := by
  unfold Scope.poison at h
  split at h
  · exact .inr h
  · simp only [Scope.isPoisoned, List.contains_cons, Bool.or_eq_true, beq_iff_eq] at h
    exact h

/-- A statement with an error ends with a report of it. If the report is left out for a poisoned
name, the name was poisoned before, or the statement binds and mentions it. -/
theorem step_of_fault {e : CompilationError} (h : b.fault? r o declared s = some e) :
    ∃ b' : Body, b.step r o declared s = b'.report e ∧ b.diagnostics <:+ b'.diagnostics ∧
      ∀ n, e.fault = .unknownVariable n → b'.scope.isPoisoned n = true →
        b.scope.isPoisoned n = true ∨ s.namesItself = true := by
  have hwarn : b.diagnostics <:+ (b.warnUnreachable s).diagnostics := suffix_warnUnreachable
  cases s with
  | letBinding x value span =>
    cases hinfer : Context.infer ⟨r, o, b.scope⟩ value b.pool with
    | mk result code P =>
      cases result with
      | error e' =>
        obtain rfl : e' = e := by simpa [fault?, hinfer] using h
        refine ⟨_, step_let_error hinfer, hwarn, fun n hn hpoisoned => ?_⟩
        rcases isPoisoned_poison hpoisoned with rfl | hbefore
        · have hblames := Context.blames_infer ⟨r, o, b.scope⟩ value b.pool e' x.name
          exact .inr (hblames (by rw [hinfer]) hn)
        · exact .inl hbefore
      | ok t =>
        cases hdeclare : b.scope.declare x.name t x.span with
        | error e' =>
          obtain rfl : e' = e := by simpa [fault?, hinfer, hdeclare] using h
          exact ⟨_, step_let_undeclared hinfer hdeclare, hwarn, fun n _ hbefore => .inl hbefore⟩
        | ok found => simp [fault?, hinfer, hdeclare] at h
  | ret value span =>
    cases hret : Body.ret ⟨r, o, b.scope⟩ declared value span b.pool with
    | mk result code P =>
      cases result with
      | error e' =>
        obtain rfl : e' = e := by simpa [fault?, hret] using h
        exact ⟨_, step_ret_error hret, hwarn, fun n _ hbefore => .inl hbefore⟩
      | ok a => simp [fault?, hret] at h

/-- Every error of a statement is on record, unless it is the use of an unknown name. -/
theorem mem_run {stmts : List Stmt} {e : CompilationError} (h : e ∈ b.faults r o declared stmts) :
    .ofCompilationError e ∈ (b.run r o declared stmts).diagnostics ∨
      ∃ n, e.fault = .unknownVariable n := by
  induction stmts generalizing b with
  | nil => simp [faults] at h
  | cons s ss ih =>
    simp only [faults, List.mem_append, Option.mem_toList] at h
    rcases h with hfault | h
    · obtain ⟨b', hstep, -, -⟩ := step_of_fault hfault
      rcases mem_report b' e with hmem | ⟨n, hn, -⟩
      · rw [← hstep] at hmem
        exact .inl ((leads_run ss).diagnostics.subset hmem)
      · exact .inr ⟨n, hn⟩
    · exact ih h

/-- A name is poisoned only when an error is on record. -/
def Recorded (b : Body) : Prop := b.scope.poisoned ≠ [] → hasErrors b.diagnostics = true

theorem Recorded.of_isPoisoned (hb : b.Recorded) {n : String} (h : b.scope.isPoisoned n = true) :
    hasErrors b.diagnostics = true := by
  apply hb
  intro hnil
  simp [Scope.isPoisoned, hnil] at h

/-- An error is reported or follows from one on record, unless a binding mentions itself. -/
theorem hasErrors_of_fault {e : CompilationError} (hb : b.Recorded) (hs : s.namesItself = false)
    (hfault : b.fault? r o declared s = some e) :
    hasErrors (b.step r o declared s).diagnostics = true := by
  obtain ⟨b', hstep, hsuffix, hpoisoned⟩ := step_of_fault hfault
  rw [hstep]
  rcases mem_report b' e with hmem | ⟨n, hn, hn'⟩
  · exact hasErrors_iff.2 ⟨_, hmem, rfl⟩
  · rcases hpoisoned n hn hn' with hbefore | hself
    · exact hasErrors_of_suffix (suffix_report hsuffix e) (hb.of_isPoisoned hbefore)
    · simp [hs] at hself

theorem poisoned_step (h : b.fault? r o declared s = none) :
    (b.step r o declared s).scope.poisoned = b.scope.poisoned := by
  cases s with
  | letBinding x value span =>
    obtain ⟨t, code, P, slot, scope, hinfer, hdeclare⟩ := fault?_letBinding h
    rw [step_let hinfer hdeclare]
    obtain ⟨-, -, -, rfl⟩ := Scope.declare_eq_ok hdeclare
    rfl
  | ret value span =>
    obtain ⟨code, P, hret⟩ := fault?_ret h
    rw [step_ret hret]

theorem Recorded.step (hb : b.Recorded) (hs : s.namesItself = false) :
    (b.step r o declared s).Recorded := by
  intro hpoisoned
  cases hfault : b.fault? r o declared s with
  | some e => exact hasErrors_of_fault hb hs hfault
  | none =>
    rw [poisoned_step hfault] at hpoisoned
    exact hasErrors_of_suffix (leads_step s).diagnostics (hb hpoisoned)

/-- Among statements none of which mentions what it binds, every fault leaves an error on record. -/
theorem hasErrors_of_faults {stmts : List Stmt} (hb : b.Recorded)
    (hstmts : stmts.any Stmt.namesItself = false) (h : b.faults r o declared stmts ≠ []) :
    hasErrors (b.run r o declared stmts).diagnostics = true := by
  induction stmts generalizing b with
  | nil => exact absurd rfl h
  | cons s ss ih =>
    simp only [List.any_cons, Bool.or_eq_false_iff] at hstmts
    cases hfault : b.fault? r o declared s with
    | some e =>
      exact hasErrors_of_suffix (leads_run ss).diagnostics (hasErrors_of_fault hb hstmts.1 hfault)
    | none =>
      refine ih (hb.step hstmts.1) hstmts.2 ?_
      simpa [faults, hfault] using h

/-- A binding that mentions itself is a fault: its name is unknown or declared twice. -/
theorem fault_of_namesItself (hs : s.namesItself = true) : b.fault? r o declared s ≠ none := by
  intro h
  cases s with
  | ret value span => simp [Stmt.namesItself] at hs
  | letBinding x value span =>
    obtain ⟨t, code, P, slot, scope, hinfer, hdeclare⟩ := fault?_letBinding h
    have htype := Context.infer_type (c := ⟨r, o, b.scope⟩) b.scope.types_typing value hinfer
    obtain ⟨u, hu⟩ := typing_of_mentions value htype hs
    obtain ⟨hnone, -⟩ := Scope.declare_eq_ok hdeclare
    simp [Scope.typing, Scope.get?, hnone] at hu

theorem faults_of_namesItself {stmts : List Stmt} (h : stmts.any Stmt.namesItself = true) :
    b.faults r o declared stmts ≠ [] := by
  induction stmts generalizing b with
  | nil => simp at h
  | cons s ss ih =>
    simp only [List.any_cons, Bool.or_eq_true] at h
    simp only [faults, ne_eq, List.append_eq_nil_iff, not_and]
    rcases h with hs | hss
    · intro hnil
      exact absurd (by simpa using hnil) (fault_of_namesItself hs)
    · exact fun _ => ih hss

end Body

end TypedTemplate
