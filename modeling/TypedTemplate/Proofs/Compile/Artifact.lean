-- SUMMARY: Calling a function of an artifact is evaluating the statements of its signature.
import TypedTemplate.Proofs.Compile.Unit
import TypedTemplate.Proofs.Compile.Signature

/-!
# Artifacts

An artifact has a function under a name just when the unit has a signature there.
Calling the function with arguments that it accepts is evaluating the statements of
the signature as the build does, with floats as the artifact's pool has them.
-/

namespace TypedTemplate

/-! ## Looking functions up -/

/-- The signature of `function` in the type with a qualified name. -/
def SourceUnit.signature? (u : SourceUnit) (r : Registry) (qualifiedName function : String) :
    Option Signature :=
  ((u.signatures r).1.find? (·.qualifiedName == qualifiedName)).bind fun t =>
    t.functions.find? (·.decl.name.name == function)

section

variable {α β γ δ : Type} {R : α → β → Prop} {S : γ → δ → Prop}

theorem rel_bind {x : Option α} {y : Option β} {f : α → Option γ} {g : β → Option δ}
    (h : Option.Rel R x y) (hfg : ∀ a b, R a b → Option.Rel S (f a) (g b)) :
    Option.Rel S (x.bind f) (y.bind g) := by
  cases h with
  | none => exact .none
  | @some a b hab => exact hfg a b hab

theorem rel_find? {as : List α} {bs : List β} {p : α → Bool} {q : β → Bool}
    (h : List.Forall₂ R as bs) (hpq : ∀ a b, R a b → p a = q b) :
    Option.Rel R (as.find? p) (bs.find? q) := by
  induction h with
  | nil => exact .none
  | @cons a b as bs hab _ ih =>
    have hp := hpq a b hab
    cases hq : q b with
    | true =>
      rw [List.find?_cons_of_pos (hp.trans hq), List.find?_cons_of_pos hq]
      exact .some hab
    | false =>
      rw [List.find?_cons_of_neg (by simp [hp, hq]), List.find?_cons_of_neg (by simp [hq])]
      exact ih

end

namespace Compilation

variable {r : Registry} {o : Options} {Q : Pool} {s : Signature} {f : CompiledFunction}

theorem Makes.name (h : Makes r o Q s f) : s.decl.name.name = f.name := by
  obtain ⟨pool, ds, rfl, -⟩ := h
  rfl

theorem Makes.params (h : Makes r o Q s f) : f.params = s.params.map (·.valueType) := by
  obtain ⟨pool, ds, rfl, -⟩ := h
  rfl

theorem Makes.result (h : Makes r o Q s f) : f.result = s.result.valueType := by
  obtain ⟨pool, ds, rfl, -⟩ := h
  rfl

theorem Makes.accepts_iff (h : Makes r o Q s f) {args : List Value} :
    f.Accepts args ↔ args.length = s.params.length ∧
      CompiledFunction.firstMismatch? 0 (s.params.map (·.valueType)) args = none := by
  unfold CompiledFunction.Accepts
  rw [h.params, List.length_map]

/-- A function called with arguments that it accepts is typed and gives what its body evaluates
to. -/
theorem Makes.call (h : Makes r o Q s f) (hQ : Q.Consistent) (hself : s.namesItself = false)
    {args : List Value} (hargs : f.Accepts args) :
    Stmt.typed r s.result.type (s.env args).typing s.decl.body.stmts = true ∧
      f.call Q args = s.evalWith r (Expr.evalBy r ⟨o.folds, Q.readFloat⟩ o.overflowChecks) args := by
  have hlength : args.length = s.params.length := (h.accepts_iff.1 hargs).1
  obtain ⟨pool, ds, rfl, hin, herrors⟩ := h
  rw [CompiledFunction.call_of_accepts hargs]
  exact Signature.run_compile hQ hself herrors hin hlength

/-- Where the body reads its floats as they are, a call gives the function's result. -/
theorem Makes.call_eq_eval (h : Makes r o Q s f) (hQ : Q.Consistent) (hself : s.namesItself = false)
    (hkeeps : Build.Keeps ⟨o.folds, Q.readFloat⟩ (Stmt.loads o.folds s.decl.body.stmts))
    {args : List Value} (hargs : f.Accepts args) :
    f.call Q args = s.eval r o.overflowChecks args := by
  obtain ⟨htyped, hcall⟩ := h.call hQ hself hargs
  rw [hcall]
  exact stmts_eq s.decl.body.stmts htyped hkeeps

end Compilation

namespace SourceUnit

variable {u : SourceUnit} {r : Registry} {o : Options} {a : Artifact} {q x : String} {s : Signature}

/-- An artifact has the functions of the signatures, under their names. -/
theorem function?_makes (h : u.compile r o = .ok a) (q x : String) :
    Option.Rel (Compilation.Makes r o a.pool) (u.signature? r q x) (a.function? q x) := by
  obtain ⟨-, -, htypes⟩ := compile_eq_ok h
  refine rel_bind (rel_find? htypes fun t c hc => ?_) fun t c hc =>
    rel_find? hc.2 fun s f hf => ?_
  · rw [hc.1]
  · rw [hf.name]

/-- A signature is compiled to a function of its name. -/
theorem exists_function (h : u.compile r o = .ok a) (hs : u.signature? r q x = some s) :
    ∃ f, a.function? q x = some f ∧ Compilation.Makes r o a.pool s f := by
  have hmakes := function?_makes h q x
  rw [hs] at hmakes
  generalize a.function? q x = found at hmakes
  cases hmakes with
  | @some _ f hf => exact ⟨f, rfl, hf⟩

/-- A function was compiled from the signature of its name. -/
theorem exists_signature (h : u.compile r o = .ok a) {f : CompiledFunction}
    (hf : a.function? q x = some f) :
    ∃ s, u.signature? r q x = some s ∧ Compilation.Makes r o a.pool s f := by
  have hmakes := function?_makes h q x
  rw [hf] at hmakes
  generalize u.signature? r q x = found at hmakes
  cases hmakes with
  | @some s _ hs => exact ⟨s, rfl, hs⟩

theorem mem_registered (h : u.signature? r q x = some s) : s ∈ u.registered r := by
  obtain ⟨t, ht, hs⟩ := Option.bind_eq_some_iff.1 h
  exact List.mem_flatMap.2 ⟨t, List.mem_of_find?_eq_some ht, List.mem_of_find?_eq_some hs⟩

variable (u r) in
/-- Some binding of a compiled function mentions the name it binds. -/
def namesItself : Bool := (u.registered r).any (·.namesItself)

variable (u r) in
/-- Some compiled function has a float literal. -/
def hasFloat : Bool := (u.registered r).any fun s => s.decl.body.stmts.any Stmt.hasFloat

theorem resolved_of_mem (hs : s ∈ u.registered r) : s.Resolved r := by
  obtain ⟨t, ht, hs⟩ := List.mem_flatMap.1 hs
  exact u.signatures_resolved r t ht s hs

theorem namesItself_of_mem (h : u.namesItself r = false) (hs : s ∈ u.registered r) :
    s.namesItself = false := by
  simpa using List.any_eq_false.1 h s hs

theorem hasFloat_of_mem (h : u.hasFloat r = false) (hs : s ∈ u.registered r) :
    s.decl.body.stmts.any Stmt.hasFloat = false := by
  have hany := List.any_eq_false.1 h s hs
  exact Bool.eq_false_iff.2 hany

/-! ## Units with one function -/

/-- The function `F` with the statements. -/
def function (params : List (String × String)) (result : String) (stmts : List Stmt) : FunctionDecl :=
  let ident (x : String) : Ident := ⟨x, .nowhere⟩
  let type (x : String) : TypeRef := .mk ⟨[ident x], .nowhere⟩ [] .nowhere
  { name := ident "F"
    params := params.map fun p => ⟨ident p.1, type p.2, .nowhere⟩
    returnType := type result
    body := ⟨stmts, .nowhere⟩
    span := .nowhere }

/-- The unit whose type `M::T` has one function. -/
def ofFunction (f : FunctionDecl) : SourceUnit :=
  let ident (x : String) : Ident := ⟨x, .nowhere⟩
  ⟨none, [], [⟨ident "M", [⟨ident "T", [f], .nowhere⟩], .nowhere⟩], .nowhere⟩

/-- A unit whose one function returns a value compiles when the `return` does. -/
theorem exists_artifact_of_ret {value : Expr} {span : Span} {code : Code} {P : Pool} {scope : Scope}
    (hsignatures : u.signatures r = ([⟨q, [s]⟩], []))
    (hscope : Scope.empty.ofParams [] (s.decl.params.zip s.params) = (scope, []))
    (hstmts : s.decl.body.stmts = [.ret value span])
    (hret : Body.ret ⟨r, o, scope⟩ s.result.type value span .empty = ⟨.ok ⟨⟩, code, P⟩) :
    ∃ a, u.compile r o = .ok a ∧ a.pool = P := by
  have hbody : s.body .empty [] = .start scope .empty [] := by
    simp only [Signature.body, hscope]
  have hfinal : u.final r o = (s.compile r o .empty []).2 := by
    simp [final, registered, hsignatures, Compilation.after]
  have hpool : u.final r o = (P, []) := by
    rw [hfinal, Signature.compile_eq, hbody, hstmts]
    simp only [Block.returns, hstmts, Body.run, List.foldl_cons, List.foldl_nil]
    rw [Body.step_ret hret]
    rfl
  obtain ⟨a, ha, hp⟩ := exists_artifact (u := u) (r := r) (o := o) (by rw [hpool]; rfl)
  exact ⟨a, ha, by rw [hp, hpool]⟩

/-- The artifact of such a unit has the function. -/
theorem exists_function_of_ret {value : Expr} {span : Span} {code : Code} {P : Pool} {scope : Scope}
    (hsignatures : u.signatures r = ([⟨q, [s]⟩], []))
    (hscope : Scope.empty.ofParams [] (s.decl.params.zip s.params) = (scope, []))
    (hstmts : s.decl.body.stmts = [.ret value span])
    (hret : Body.ret ⟨r, o, scope⟩ s.result.type value span .empty = ⟨.ok ⟨⟩, code, P⟩) :
    ∃ a f, u.compile r o = .ok a ∧ a.function? q s.decl.name.name = some f ∧
      Compilation.Makes r o a.pool s f := by
  obtain ⟨a, ha, -⟩ := exists_artifact_of_ret hsignatures hscope hstmts hret
  have hsignature : u.signature? r q s.decl.name.name = some s := by
    simp [signature?, hsignatures]
  obtain ⟨f, hf, hmakes⟩ := exists_function ha hsignature
  exact ⟨a, f, ha, hf, hmakes⟩

end SourceUnit

end TypedTemplate
