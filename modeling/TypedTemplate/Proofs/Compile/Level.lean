-- SUMMARY: Debug and release builds give the same results, except where a zero is read with the other sign.
import TypedTemplate.Proofs.Compile.Artifact

/-!
# Debug and release

Both builds of a unit accept the same arguments and evaluate the same statements.
A release build reads other constants than a debug build, and a pool has one entry
for both zeros, so a zero may come back with the sign of one that was added before.
Where every zero comes back with its own sign the builds cannot be told apart.
-/

namespace TypedTemplate

/-- Every zero that the code of the function reads comes back from the pool with its own sign. -/
def Signature.KeepsZeros (s : Signature) (folds : Bool) (pool : Pool) : Prop :=
  ∀ x ∈ Stmt.loads folds s.decl.body.stmts, (x == 0) = true → pool.readFloat x = x

/-- Other floats come back from any pool as they are. -/
theorem Signature.KeepsZeros.keeps {s : Signature} {folds : Bool} {pool : Pool}
    (h : s.KeepsZeros folds pool) (hpool : pool.Consistent) :
    Build.Keeps ⟨folds, pool.readFloat⟩ (Stmt.loads folds s.decl.body.stmts) := by
  intro x hx
  rcases Pool.readFloat_eq_or_zero hpool x with hread | ⟨hzero, -⟩
  · exact hread
  · exact h x hx hzero

/-- Two compilations of one signature, in which every float is read as it is, give the same
results. -/
theorem Compilation.Makes.call_eq {r : Registry} {o o' : Options} {Q Q' : Pool} {s : Signature}
    {f g : CompiledFunction} (hf : Makes r o Q s f) (hg : Makes r o' Q' s g) (hQ : Q.Consistent)
    (hQ' : Q'.Consistent) (hchecks : o.overflowChecks = o'.overflowChecks)
    (hself : s.namesItself = false) (hzeros : s.KeepsZeros o.folds Q)
    (hzeros' : s.KeepsZeros o'.folds Q') (args : List Value) : f.call Q args = g.call Q' args := by
  have hparams : f.params = g.params := hf.params.trans hg.params.symm
  by_cases hargs : f.Accepts args
  · have hargs' : g.Accepts args := hg.accepts_iff.2 (hf.accepts_iff.1 hargs)
    rw [hf.call_eq_eval hQ hself (hzeros.keeps hQ) hargs,
      hg.call_eq_eval hQ' hself (hzeros'.keeps hQ') hargs', hchecks]
  · exact CompiledFunction.call_of_not_accepts hparams hargs Q Q'

/-! ## Zeros -/

namespace Zero

/-- The expression `0.0`. -/
def literal : Expr := .literal (.float 0.0) .nowhere

/-- The negation of an expression. -/
def neg (e : Expr) : Expr := .unary .neg e .nowhere

/-- The function that returns an expression. -/
def signature (e : Expr) : Signature :=
  { decl := SourceUnit.function [] "float" [.ret e .nowhere]
    params := []
    result := ⟨.float, .float⟩ }

def unit (e : Expr) : SourceUnit := .ofFunction (signature e).decl

/-- The pool with the constant `0.0` alone. -/
def pool : Pool := ⟨#[.float 0.0], (∅ : Std.HashMap ConstantKey Nat).insert (.float 0) 0⟩

theorem add_pool {x : Float} (hx : Constant.floatKey x = 0) : pool.add (.float x) = (0, pool) := by
  simp [Pool.add, pool, Constant.key, hx]

theorem readFloat_pool {x : Float} (hx : Constant.floatKey x = 0) : pool.readFloat x = 0.0 := by
  simp [Pool.readFloat, Constant.key, hx, pool, Pool.get?]

/-- The code of the expression gives a float and needs no constant but `0.0`. -/
def Only (e : Expr) : Prop := ∀ c : Context, ∃ code, c.infer e .empty = ⟨.ok .float, code, pool⟩

theorem only_literal : Only literal := by
  intro c
  have hadd : Pool.empty.add (.float 0.0) = (0, pool) := by
    have hkey : Constant.floatKey 0.0 = 0 := by decide
    simp [Pool.add, Pool.empty, Pool.size, pool, Constant.key, hkey]
  have hconstant : Emit.constant .nowhere (.float 0.0) .empty =
      ⟨.ok ⟨⟩, [⟨0, .constant 0⟩], pool⟩ := Emit.constant_ok.2 (by simp [hadd, Span.nowhere])
  exact ⟨_, Emit.bind_ok.2 ⟨_, _, _, _, hconstant, rfl, rfl⟩⟩

/-- A negated zero is computed in a debug build. In a release build it is the constant that the pool
already has. -/
theorem Only.neg {e : Expr} (he : Only e) {x : Float} (hx : Constant.floatKey x = 0)
    (hv : (neg e).constant? = some (.float x)) : Only (neg e) := by
  intro c
  obtain ⟨code, hvalue⟩ := he c
  have hrule : Emit.ruling .nowhere (Rule.unary c.registry c.options .neg .float) pool =
      ⟨.ok .float, [⟨0, .floatNeg⟩], pool⟩ := rfl
  have hneg : (c.infer e >>= fun t =>
      Emit.ruling .nowhere (Rule.unary c.registry c.options .neg t)) .empty =
        ⟨.ok .float, code ++ [⟨0, .floatNeg⟩], pool⟩ :=
    Emit.bind_ok.2 ⟨_, _, _, _, hvalue, hrule, rfl⟩
  unfold Zero.neg at hv ⊢
  cases hfolds : c.options.folds with
  | false =>
    refine ⟨code ++ [⟨0, .floatNeg⟩], ?_⟩
    simp only [Context.infer, Context.fold, hfolds]
    exact hneg
  | true =>
    have hconstant : Emit.constant .nowhere (.float x) pool =
        ⟨.ok ⟨⟩, [⟨0, .constant 0⟩], pool⟩ :=
      Emit.constant_ok.2 (by simp [add_pool hx, Span.nowhere])
    refine ⟨[⟨0, .constant 0⟩], ?_⟩
    simp only [Context.infer, Context.fold, hfolds, if_true, hv]
    exact Emit.bind_ok.2 ⟨_, _, _, _, Emit.silently_ok.2 ⟨rfl, _, hneg⟩,
      Emit.bind_ok.2 ⟨_, _, _, _, hconstant, rfl, rfl⟩, rfl⟩

theorem Only.compile {e : Expr} (he : Only e) (o : Options) :
    ∃ a, (unit e).compile (.empty #[]) o = .ok a ∧ a.pool = pool := by
  obtain ⟨code, hvalue⟩ := he ⟨.empty #[], o, .empty⟩
  have hreturn : (Emit.lift e.span (Rule.result (.empty #[]) .float .float) >>=
      Emit.instrs .nowhere) pool = ⟨.ok ⟨⟩, [⟨0, .ret⟩], pool⟩ := rfl
  have hret : Body.ret ⟨.empty #[], o, .empty⟩ .float e .nowhere .empty =
      ⟨.ok ⟨⟩, code ++ [⟨0, .ret⟩], pool⟩ :=
    Emit.bind_ok.2 ⟨_, _, _, _, hvalue, hreturn, rfl⟩
  have hsignatures : (unit e).signatures (.empty #[]) = ([⟨"M::T", [signature e]⟩], []) := rfl
  exact SourceUnit.exists_artifact_of_ret hsignatures rfl rfl hret

theorem only_negLiteral : Only (neg literal) := only_literal.neg (x := -0.0) (by decide) rfl

theorem only_negNegLiteral : Only (neg (neg literal)) :=
  only_negLiteral.neg (x := - -0.0) (by decide) rfl

end Zero

/-! ## Builds -/

namespace SourceUnit

/-- Two builds of a unit have functions under the same names. A function in which no binding
mentions itself and every zero is read with its own sign gives the same result in both. -/
theorem debug_eq_release {u : SourceUnit} {r : Registry} {checked : Bool} {a b : Artifact}
    (ha : u.compile r ⟨checked, .debug⟩ = .ok a) (hb : u.compile r ⟨checked, .release⟩ = .ok b)
    (q x : String) :
    Option.Rel (fun f g => ∃ s, u.signature? r q x = some s ∧
        (s.namesItself = false → s.KeepsZeros false a.pool → s.KeepsZeros true b.pool →
          ∀ args, f.call a.pool args = g.call b.pool args))
      (a.function? q x) (b.function? q x) := by
  have hdebug := function?_makes ha q x
  have hrelease := function?_makes hb q x
  obtain ⟨-, hapool, -⟩ := compile_eq_ok ha
  obtain ⟨-, hbpool, -⟩ := compile_eq_ok hb
  generalize u.signature? r q x = found, a.function? q x = f?, b.function? q x = g?
    at hdebug hrelease ⊢
  cases hdebug with
  | none =>
    cases hrelease
    exact .none
  | @some s f hf =>
    cases hrelease with
    | @some _ g hg =>
      exact .some ⟨s, rfl, fun hself hzeros hzeros' =>
        hf.call_eq hg hapool hbpool rfl hself hzeros hzeros'⟩

end SourceUnit

/-- Negated twice, the zero that a release build reads has the sign that it has in the pool. -/
theorem debug_eq_release_negNegLiteral :
    ∃ a b f g, (Zero.unit (Zero.neg (Zero.neg Zero.literal))).compile (.empty #[]) ⟨true, .debug⟩ =
        .ok a ∧
      (Zero.unit (Zero.neg (Zero.neg Zero.literal))).compile (.empty #[]) ⟨true, .release⟩ = .ok b ∧
      a.function? "M::T" "F" = some f ∧ b.function? "M::T" "F" = some g ∧
      ∀ args, f.call a.pool args = g.call b.pool args := by
  obtain ⟨a, ha, hapool⟩ := Zero.only_negNegLiteral.compile ⟨true, .debug⟩
  obtain ⟨b, hb, hbpool⟩ := Zero.only_negNegLiteral.compile ⟨true, .release⟩
  obtain ⟨f, hf, -⟩ := SourceUnit.exists_function ha (q := "M::T") (x := "F") rfl
  obtain ⟨g, hg, -⟩ := SourceUnit.exists_function hb (q := "M::T") (x := "F") rfl
  have hrel := SourceUnit.debug_eq_release ha hb "M::T" "F"
  rw [hf, hg] at hrel
  cases hrel with
  | some hcall =>
    obtain ⟨s, hs, hcall⟩ := hcall
    obtain rfl := Option.some.inj hs
    refine ⟨a, b, f, g, ha, hb, hf, hg, hcall rfl ?_ ?_⟩
    · intro x hx _
      obtain rfl : x = 0.0 := List.mem_singleton.1 hx
      rw [hapool, Zero.readFloat_pool (by decide)]
    · intro x hx _
      obtain rfl : x = - -0.0 := List.mem_singleton.1 hx
      rw [hbpool, Zero.readFloat_pool (by decide)]
      decide

/-- Negated once, the zero loses its sign in a release build. -/
theorem debug_ne_release_negLiteral :
    ∃ a b f g, (Zero.unit (Zero.neg Zero.literal)).compile (.empty #[]) ⟨true, .debug⟩ = .ok a ∧
      (Zero.unit (Zero.neg Zero.literal)).compile (.empty #[]) ⟨true, .release⟩ = .ok b ∧
      a.function? "M::T" "F" = some f ∧ b.function? "M::T" "F" = some g ∧
      f.call a.pool [] = .ok (.float (-0.0)) ∧ g.call b.pool [] = .ok (.float 0.0) ∧
      f.call a.pool [] ≠ g.call b.pool [] := by
  obtain ⟨a, ha, hapool⟩ := Zero.only_negLiteral.compile ⟨true, .debug⟩
  obtain ⟨b, hb, hbpool⟩ := Zero.only_negLiteral.compile ⟨true, .release⟩
  obtain ⟨f, hf, hfmakes⟩ := SourceUnit.exists_function ha (q := "M::T") (x := "F") rfl
  obtain ⟨g, hg, hgmakes⟩ := SourceUnit.exists_function hb (q := "M::T") (x := "F") rfl
  have hdebug : f.call a.pool [] = .ok (.float (-0.0)) := by
    have hargs : f.Accepts [] := hfmakes.accepts_iff.2 ⟨rfl, rfl⟩
    rw [(hfmakes.call (SourceUnit.compile_eq_ok ha).2.1 rfl hargs).2, hapool]
    change Except.ok (Value.float (-Zero.pool.readFloat 0.0)) = _
    rw [Zero.readFloat_pool (by decide)]
  have hrelease : g.call b.pool [] = .ok (.float 0.0) := by
    have hargs : g.Accepts [] := hgmakes.accepts_iff.2 ⟨rfl, rfl⟩
    rw [(hgmakes.call (SourceUnit.compile_eq_ok hb).2.1 rfl hargs).2, hbpool]
    change Except.ok (Value.float (Zero.pool.readFloat (-0.0))) = _
    rw [Zero.readFloat_pool (by decide)]
  refine ⟨a, b, f, g, ha, hb, hf, hg, hdebug, hrelease, ?_⟩
  rw [hdebug, hrelease]
  intro h
  injection h with h
  injection h with h
  exact absurd h (by decide)

end TypedTemplate
