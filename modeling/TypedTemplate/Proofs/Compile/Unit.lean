-- SUMMARY: Compiled units: each function of an artifact is the compilation of one signature, without errors.
import Mathlib.Data.List.Forall2
import TypedTemplate.Compile.Unit
import TypedTemplate.Proofs.Compile.Function

/-!
# Compiled units

The functions of a unit are compiled one after the other, each from the pool and
the diagnostics that the one before left. A unit has an artifact just when no error
is on record at the end, and then the artifact has the types and functions of the
signatures in their order.
-/

namespace TypedTemplate

open Diagnostics

/-- The functions of a unit that are compiled. -/
def SourceUnit.registered (u : SourceUnit) (r : Registry) : List Signature :=
  (u.signatures r).1.flatMap (·.functions)

namespace Compilation

variable {r : Registry} {o : Options}

/-- The pool and the diagnostics after functions are compiled. -/
def after (r : Registry) (o : Options) (st : Pool × Diagnostics) (ss : List Signature) :
    Pool × Diagnostics :=
  ss.foldl (fun st s => (s.compile r o st.1 st.2).2) st

/-- The errors of the statements of functions, reported or not. -/
def faults (r : Registry) (o : Options) (st : Pool × Diagnostics) :
    List Signature → List CompilationError
  | []      => []
  | s :: ss => s.faults r o st.1 st.2 ++ faults r o (s.compile r o st.1 st.2).2 ss

theorem growsTo_after (st : Pool × Diagnostics) (ss : List Signature) :
    st.1.GrowsTo (after r o st ss).1 := by
  induction ss generalizing st with
  | nil => exact .refl _
  | cons s ss ih => exact Signature.growsTo_compile.trans (ih _)

theorem suffix_after (st : Pool × Diagnostics) (ss : List Signature) :
    st.2 <:+ (after r o st ss).2 := by
  induction ss generalizing st with
  | nil => exact List.suffix_rfl
  | cons s ss ih => exact (s.suffix_compile r o st.1).trans (ih _)

theorem hasErrors_of_after {st : Pool × Diagnostics} {ss : List Signature}
    (h : hasErrors (after r o st ss).2 = false) : hasErrors st.2 = false := by
  apply Bool.eq_false_iff.2
  intro hst
  simp [hasErrors_of_suffix (suffix_after st ss) hst] at h

/-- Every error of a statement is on record, unless it is the use of an unknown name. -/
theorem mem_after {st : Pool × Diagnostics} {ss : List Signature} {e : CompilationError}
    (h : e ∈ faults r o st ss) :
    .ofCompilationError e ∈ (after r o st ss).2 ∨ ∃ n, e.fault = .unknownVariable n := by
  induction ss generalizing st with
  | nil => simp [faults] at h
  | cons s ss ih =>
    rcases List.mem_append.1 h with h | h
    · exact (Signature.mem_compile h).imp_left fun hmem => (suffix_after _ ss).subset hmem
    · exact ih h

/-- Without errors at the end there were no faults, if no binding mentions itself. -/
theorem faults_eq_nil {st : Pool × Diagnostics} {ss : List Signature}
    (hself : ∀ s ∈ ss, s.namesItself = false) (h : hasErrors (after r o st ss).2 = false) :
    faults r o st ss = [] := by
  induction ss generalizing st with
  | nil => rfl
  | cons s ss ih =>
    have hs := Signature.faults_eq_nil (hself s (by simp)) (hasErrors_of_after h)
    have hss := ih (fun s' hs' => hself s' (by simp [hs'])) h
    rw [faults, hs, hss, List.nil_append]

theorem faults_ne_nil {st : Pool × Diagnostics} {ss : List Signature} {s : Signature}
    (hs : s ∈ ss) (hself : s.namesItself = true) : faults r o st ss ≠ [] := by
  induction ss generalizing st with
  | nil => simp at hs
  | cons s' ss ih =>
    simp only [faults, ne_eq, List.append_eq_nil_iff, not_and]
    rcases List.mem_cons.1 hs with rfl | hs
    · exact fun hnil => absurd hnil (Signature.faults_of_namesItself hself)
    · exact fun _ => ih hs

/-! ## Types -/

/-- The function is the compilation of the signature, without errors and over a pool that grew into
`Q`. -/
def Makes (r : Registry) (o : Options) (Q : Pool) (s : Signature) (f : CompiledFunction) : Prop :=
  ∃ pool ds, (s.compile r o pool ds).1 = f ∧ (s.compile r o pool ds).2.1.Within Q ∧
    hasErrors (s.compile r o pool ds).2.2 = false

/-- The compiled type has the functions of the signatures, in order. -/
def MakesType (r : Registry) (o : Options) (Q : Pool) (t : TypeSignature) (c : CompiledType) :
    Prop :=
  t.qualifiedName = c.qualifiedName ∧ List.Forall₂ (Makes r o Q) t.functions c.functions

theorem Makes.within {Q Q' : Pool} {s : Signature} {f : CompiledFunction} (h : Makes r o Q s f)
    (hQ : Q.Within Q') : Makes r o Q' s f := by
  obtain ⟨pool, ds, hf, hin, herrors⟩ := h
  exact ⟨pool, ds, hf, hin.trans hQ, herrors⟩

theorem functionsOnto_state (out : List CompiledFunction) (pool : Pool) (ds : Diagnostics)
    (ss : List Signature) :
    (functionsOnto r o out pool ds ss).2 = after r o (pool, ds) ss := by
  induction ss generalizing out pool ds with
  | nil => rfl
  | cons s ss ih => exact ih _ _ _

theorem functionsOnto_makes (out : List CompiledFunction) (pool : Pool) (ds : Diagnostics)
    (ss : List Signature) (h : hasErrors (after r o (pool, ds) ss).2 = false) :
    ∃ fs, (functionsOnto r o out pool ds ss).1 = out.reverse ++ fs ∧
      List.Forall₂ (Makes r o (after r o (pool, ds) ss).1) ss fs := by
  induction ss generalizing out pool ds with
  | nil => exact ⟨[], by simp [functionsOnto], .nil⟩
  | cons s ss ih =>
    obtain ⟨fs, hfs, hall⟩ := ih ((s.compile r o pool ds).1 :: out) (s.compile r o pool ds).2.1
      (s.compile r o pool ds).2.2 h
    have hgrows := growsTo_after (r := r) (o := o) (s.compile r o pool ds).2 ss
    refine ⟨(s.compile r o pool ds).1 :: fs, ?_, .cons ?_ hall⟩
    · have hstep : (functionsOnto r o out pool ds (s :: ss)).1 =
          (functionsOnto r o ((s.compile r o pool ds).1 :: out) (s.compile r o pool ds).2.1
            (s.compile r o pool ds).2.2 ss).1 := rfl
      rw [hstep, hfs]
      simp
    · exact ⟨pool, ds, rfl, hgrows.within, hasErrors_of_after h⟩

theorem foldl_state (c : Compilation) (types : List TypeSignature) :
    ((types.foldl (step r o) c).pool, (types.foldl (step r o) c).diagnostics) =
      after r o (c.pool, c.diagnostics) (types.flatMap (·.functions)) := by
  induction types generalizing c with
  | nil => rfl
  | cons t types ih =>
    have hstep : ((step r o c t).pool, (step r o c t).diagnostics) =
        after r o (c.pool, c.diagnostics) t.functions := by
      rw [← functionsOnto_state []]
      rfl
    rw [List.foldl_cons, ih, hstep, List.flatMap_cons, after, after, after, List.foldl_append]

theorem foldl_makes (c : Compilation) (types : List TypeSignature)
    (h : hasErrors (types.foldl (step r o) c).diagnostics = false) :
    ∃ cs, (types.foldl (step r o) c).types = cs.reverse ++ c.types ∧
      List.Forall₂ (MakesType r o (types.foldl (step r o) c).pool) types cs := by
  induction types generalizing c with
  | nil => exact ⟨[], rfl, .nil⟩
  | cons t types ih =>
    obtain ⟨cs, hcs, hall⟩ := ih (step r o c t) h
    have hrest := foldl_state (r := r) (o := o) (step r o c t) types
    have hstep : ((step r o c t).pool, (step r o c t).diagnostics) =
        after r o (c.pool, c.diagnostics) t.functions := by
      rw [← functionsOnto_state []]
      rfl
    have herrors : hasErrors ((step r o c t).pool, (step r o c t).diagnostics).2 = false := by
      refine hasErrors_of_after (?_ : hasErrors (after r o _ (types.flatMap (·.functions))).2 = false)
      rw [← hrest]
      exact h
    have hwithin : (step r o c t).pool.Within (types.foldl (step r o) (step r o c t)).pool := by
      have hgrows := growsTo_after (r := r) (o := o)
        ((step r o c t).pool, (step r o c t).diagnostics) (types.flatMap (·.functions))
      rw [← hrest] at hgrows
      exact hgrows.within
    obtain ⟨fs, hfs, hmakes⟩ := functionsOnto_makes [] c.pool c.diagnostics t.functions
      (by rw [← hstep]; exact herrors)
    rw [← hstep] at hmakes
    refine ⟨⟨t.qualifiedName, fs⟩ :: cs, ?_, .cons ⟨rfl, hmakes.imp fun _ _ hm => hm.within hwithin⟩ hall⟩
    have htypes : (step r o c t).types = ⟨t.qualifiedName, fs⟩ :: c.types := by
      have h : (step r o c t).types = ⟨t.qualifiedName,
        (functionsOnto r o [] c.pool c.diagnostics t.functions).1⟩ :: c.types := rfl
      rw [h, hfs]
      rfl
    rw [List.foldl_cons, hcs, htypes]
    simp

end Compilation

/-! ## Artifacts -/

namespace SourceUnit

variable {u : SourceUnit} {r : Registry} {o : Options} {a : Artifact}

variable (u r o) in
/-- The pool and the diagnostics at the end of a compilation. -/
def final : Pool × Diagnostics :=
  Compilation.after r o (.empty, (u.signatures r).2.reverse) (u.registered r)

variable (u r o) in
/-- The errors of the statements of a unit, reported or not. -/
def faults : List CompilationError :=
  Compilation.faults r o (.empty, (u.signatures r).2.reverse) (u.registered r)

variable (u r o) in
/-- All types compiled. -/
def compilation : Compilation :=
  (u.signatures r).1.foldl (Compilation.step r o) ⟨.empty, [], (u.signatures r).2.reverse⟩

theorem compilation_pool : (u.compilation r o).pool = (u.final r o).1 :=
  congrArg Prod.fst (Compilation.foldl_state ⟨.empty, [], (u.signatures r).2.reverse⟩ _)

theorem compilation_diagnostics : (u.compilation r o).diagnostics = (u.final r o).2 :=
  congrArg Prod.snd (Compilation.foldl_state ⟨.empty, [], (u.signatures r).2.reverse⟩ _)

variable (u r o) in
/-- A compilation ends with its diagnostics, or with an artifact if none of them is an error. -/
theorem compile_eq :
    u.compile r o =
      if hasErrors (u.final r o).2 = true then .error (u.final r o).2.reverse
      else .ok ⟨(u.final r o).1, (u.compilation r o).types.reverse, (u.final r o).2.reverse⟩ := by
  change (u.compilation r o).artifact = _
  simp only [Compilation.artifact, compilation_pool, compilation_diagnostics, hasErrors_reverse]

/-- Without errors there is an artifact. -/
theorem exists_artifact (h : hasErrors (u.final r o).2 = false) :
    ∃ a, u.compile r o = .ok a ∧ a.pool = (u.final r o).1 := by
  rw [compile_eq, if_neg (by simp [h])]
  exact ⟨_, rfl, rfl⟩

/-- An artifact has the types of the signatures, and no error is on record. -/
theorem compile_eq_ok (h : u.compile r o = .ok a) :
    hasErrors (u.final r o).2 = false ∧ a.pool.Consistent ∧
      List.Forall₂ (Compilation.MakesType r o a.pool) (u.signatures r).1 a.types := by
  rw [compile_eq] at h
  split at h
  · simp at h
  · rename_i herrors
    cases h
    rw [Bool.not_eq_true, ← compilation_diagnostics] at herrors
    obtain ⟨cs, hcs, hall⟩ := Compilation.foldl_makes _ _ herrors
    have htypes : (u.compilation r o).types = cs.reverse ++ [] := hcs
    refine ⟨compilation_diagnostics ▸ herrors,
      (Compilation.growsTo_after _ _).consistent Pool.consistent_empty, ?_⟩
    simp only [htypes, List.append_nil, List.reverse_reverse, ← compilation_pool]
    exact hall

end SourceUnit

end TypedTemplate
