-- SUMMARY: Compiled functions do what their statements mean, and fail only on an integer overflow.
import TypedTemplate.Proofs.Compile.Artifact

/-!
# Correctness of compiled units

In a unit without float literals every compiled function computes what evaluating
its statements gives, values and errors alike, at either level and with or without
overflow checks. With float literals too, calls with conforming arguments give a
result of the declared type or a checked overflow, and nothing else.
-/

namespace TypedTemplate

/-! ## Meaning -/

/-- The function has the types of the signature, and calling it is evaluating the signature. -/
structure CompiledFunction.Implements (f : CompiledFunction) (r : Registry) (checked : Bool)
    (pool : Pool) (s : Signature) : Prop where
  params : f.params = s.params.map (·.valueType)
  result : f.result = s.result.valueType
  call : ∀ args, f.Accepts args → f.call pool args = s.eval r checked args

namespace SourceUnit

variable {u : SourceUnit} {r : Registry} {o : Options} {a : Artifact}

/-- **Compiler correctness.** When a unit compiles, its artifact has a function for each signature
and no others, and each implements its signature. Excepted are units in which a binding mentions
itself or a float literal occurs. -/
theorem compile_correct (h : u.compile r o = .ok a) (hself : u.namesItself r = false)
    (hfloat : u.hasFloat r = false) (q x : String) :
    Option.Rel (fun s f => f.Implements r o.overflowChecks a.pool s)
      (u.signature? r q x) (a.function? q x) := by
  have hpool := (compile_eq_ok h).2.1
  cases hs : u.signature? r q x with
  | none =>
    cases hf : a.function? q x with
    | none => exact .none
    | some f =>
      obtain ⟨s, hs', -⟩ := exists_signature h hf
      simp [hs] at hs'
  | some s =>
    obtain ⟨f, hf, hmakes⟩ := exists_function h hs
    rw [hf]
    have hmem := mem_registered hs
    have hkeeps : Build.Keeps ⟨o.folds, a.pool.readFloat⟩
        (Stmt.loads o.folds s.decl.body.stmts) := by
      rw [stmts_loads_eq_nil (hasFloat_of_mem hfloat hmem)]
      exact fun _ hx => absurd hx List.not_mem_nil
    exact .some ⟨hmakes.params, hmakes.result, fun args hargs =>
      hmakes.call_eq_eval hpool (namesItself_of_mem hself hmem) hkeeps hargs⟩

/-- A function that squares its argument on line 2, in a branch always taken. -/
def square : SourceUnit :=
  let x : Expr := .name ⟨"x", ⟨2, 13, 1⟩⟩
  .ofFunction <| function [("x", "int")] "int" [
    .letBinding ⟨"y", ⟨2, 9, 1⟩⟩ (.binary .mul x x ⟨2, 13, 5⟩) ⟨2, 5, 14⟩,
    .ret (.ternary (.literal (.bool true) ⟨3, 12, 4⟩) (.name ⟨"y", ⟨3, 19, 1⟩⟩)
      (.literal (.int 0) ⟨3, 23, 1⟩) ⟨3, 12, 12⟩) ⟨3, 5, 20⟩]

theorem compile_correct_square :
    ∃ a f, square.compile (.empty #[]) .standard = .ok a ∧
      square.namesItself (.empty #[]) = false ∧ square.hasFloat (.empty #[]) = false ∧
      a.function? "M::T" "F" = some f ∧ f.call a.pool [.int 5] = .ok (.int 25) ∧
      f.call a.pool [.int 0x100000000] = .error (.integerOverflow "*" 2) := by
  have hself : square.namesItself (.empty #[]) = false := by decide
  have hfloat : square.hasFloat (.empty #[]) = false := by decide
  have hok : (square.compile (.empty #[]) .standard).isOk = true := by decide +kernel
  cases ha : square.compile (.empty #[]) .standard with
  | error ds =>
    rw [ha] at hok
    cases hok
  | ok a =>
    have hs : square.signature? (.empty #[]) "M::T" "F" = some _ := rfl
    obtain ⟨f, hf, -⟩ := exists_function ha hs
    have hrel := compile_correct ha hself hfloat "M::T" "F"
    rw [hs, hf] at hrel
    cases hrel with
    | some himplements =>
      have haccepts (i : Int64) : f.Accepts [.int i] := by
        unfold CompiledFunction.Accepts
        rw [himplements.params]
        exact ⟨rfl, rfl⟩
      exact ⟨a, f, rfl, hself, hfloat, hf, himplements.call _ (haccepts 5),
        himplements.call _ (haccepts 0x100000000)⟩

/-! ## Safety -/

/-- **Type soundness.** A call whose arguments are accepted and conform to their shapes ends with a
value of the declared type that is not null, or with an integer overflow that was checked for. -/
theorem call_safe (h : u.compile r o = .ok a) (hself : u.namesItself r = false) {q x : String}
    {f : CompiledFunction} (hf : a.function? q x = some f) {args : List Value}
    (hargs : f.Accepts args) (hconforms : f.Conforms r args) :
    (∃ v, f.call a.pool args = .ok v ∧ v.isNull = false ∧ f.result.accepts v = true) ∨
      o.overflowChecks = true ∧
        ∃ op line, f.call a.pool args = .error (.integerOverflow op line) := by
  obtain ⟨s, hs, hmakes⟩ := exists_signature h hf
  have hmem := mem_registered hs
  have hresolved := resolved_of_mem hmem
  obtain ⟨htyped, hcall⟩ :=
    hmakes.call (compile_eq_ok h).2.1 (namesItself_of_mem hself hmem) hargs
  have henv := Signature.env_fits hresolved hmakes.params hargs hconforms
  have hsafe : Safe o.overflowChecks (fun v => Fits r s.result.type v ∧ v.isNull = false)
      (f.call a.pool args) := by
    rw [hcall]
    exact stmts_safe s.decl.body.stmts henv htyped
  rcases hsafe.outcome with ⟨v, hv, hfits, hnull⟩ | hoverflow
  · have hresult : s.result.Resolved r := hresolved _ List.mem_cons_self
    exact .inl ⟨v, hv, hnull, hmakes.result ▸ hresult.accepts hfits⟩
  · exact .inr hoverflow

end SourceUnit

namespace Point

/-- Points have a number and perhaps a label. -/
def shape : Shape := ⟨"Point", [⟨"x", .int⟩, ⟨"label", .optional .str⟩]⟩

def registry : Registry := ⟨#[shape], [], #[⟨"Point", shape, shape.typeHash⟩]⟩

/-- The point without a label at `i`. -/
def value (i : Int64) : Value := .object ⟨0, "Point", [some (.int i), some .null]⟩

theorem fits_value (i : Int64) : Fits registry (.model 0) (Point.value i) := by
  refine .object false 0 _ _ rfl rfl (fun j f t hf _ => ?_) fun j f t v hf ht hv => ?_
  · match j, hf with
    | 0, _ => rfl
    | 1, _ => rfl
  · match j, hf with
    | 0, rfl =>
      cases ht
      cases hv
      exact .int _ _
    | 1, rfl =>
      cases ht
      cases hv
      exact .null _

/-- The expression `p.x`. -/
def x : Expr := .member (.name ⟨"p", .nowhere⟩) ⟨"x", .nowhere⟩ .nowhere

/-- The expression `p.x + 1`. -/
def next : Expr := .binary .add x (.literal (.int 1) .nowhere) .nowhere

/-- The function of a point `p` that gives `p.x + 1`. -/
def signature : Signature :=
  { decl := SourceUnit.function [("p", "Point")] "int" [.ret next .nowhere]
    params := [⟨.model 0, .model "Point" shape.typeHash⟩]
    result := ⟨.int, .int⟩ }

def unit : SourceUnit := .ofFunction signature.decl

theorem signatures_unit : unit.signatures registry = ([⟨"M::T", [signature]⟩], []) := by
  with_unfolding_all rfl

/-- The unit compiles. Its pool holds the name of the field, to be told where it is missing. -/
theorem compile_unit : ∃ a, unit.compile registry .standard = .ok a := by
  let c : Context := ⟨registry, .standard, ⟨#[⟨"p", .model 0, .nowhere⟩], []⟩⟩
  have hscope : c.scope.get? "p" = some (0, ⟨"p", .model 0, .nowhere⟩) := by decide +kernel
  have hadd : Pool.empty.add (.str "x") = (0, (Pool.empty.add (.str "x")).2) := by
    simp [Pool.add, Pool.empty, Pool.size]
  generalize (Pool.empty.add (.str "x")).2 = pool at hadd
  have hname : c.infer (.name ⟨"p", .nowhere⟩) .empty =
      ⟨.ok (.model 0), [⟨0, .getLocal 0⟩], .empty⟩ := by
    simp only [Context.infer, Context.name, hscope]
    rfl
  have hread : Emit.getField .nowhere 0 "x" .empty = ⟨.ok ⟨⟩, [⟨0, .getField 0 0⟩], pool⟩ :=
    Emit.getField_ok.2 (by simp [hadd, Span.nowhere])
  have hmember : c.member (.model 0) ⟨"x", .nowhere⟩ .nowhere .empty =
      ⟨.ok .int, [⟨0, .getField 0 0⟩], pool⟩ :=
    Emit.bind_ok.2 ⟨(0, .int), [], .empty, _, Emit.lift_ok.2 ⟨rfl, rfl, rfl⟩,
      Emit.bind_ok.2 ⟨_, _, _, [], hread, rfl, rfl⟩, rfl⟩
  have hx : c.infer x .empty = ⟨.ok .int, [⟨0, .getLocal 0⟩, ⟨0, .getField 0 0⟩], pool⟩ :=
    Emit.bind_ok.2 ⟨_, _, _, _, hname, hmember, rfl⟩
  have hone : c.infer (.literal (.int 1) .nowhere) pool = ⟨.ok .int, [⟨0, .pushOne⟩], pool⟩ := rfl
  have hnext : c.infer next .empty = ⟨.ok .int, _, pool⟩ :=
    Emit.bind_ok.2 ⟨_, _, _, _, hx,
      Emit.bind_ok.2 ⟨_, _, _, [⟨0, .arith .add true⟩], hone, rfl, rfl⟩, rfl⟩
  have hret : Body.ret c .int next .nowhere .empty = ⟨.ok ⟨⟩, _, pool⟩ :=
    Emit.bind_ok.2 ⟨_, _, _, [⟨0, .ret⟩], hnext, rfl, rfl⟩
  obtain ⟨a, ha, -⟩ := SourceUnit.exists_artifact_of_ret signatures_unit
    (by with_unfolding_all rfl) rfl hret
  exact ⟨a, ha⟩

end Point

theorem call_safe_point :
    ∃ a f, Point.unit.compile Point.registry .standard = .ok a ∧
      Point.unit.namesItself Point.registry = false ∧ a.function? "M::T" "F" = some f ∧
      f.Accepts [Point.value 5] ∧ f.Conforms Point.registry [Point.value 5] ∧
      ((∃ v, f.call a.pool [Point.value 5] = .ok v ∧ v.isNull = false ∧ f.result.accepts v = true) ∨
        Options.standard.overflowChecks = true ∧
          ∃ op line, f.call a.pool [Point.value 5] = .error (.integerOverflow op line)) := by
  obtain ⟨a, ha⟩ := Point.compile_unit
  have hself : Point.unit.namesItself Point.registry = false := by
    simp [SourceUnit.namesItself, SourceUnit.registered, Point.signatures_unit]
    rfl
  have hsignature : Point.unit.signature? Point.registry "M::T" "F" = some Point.signature := by
    simp [SourceUnit.signature?, Point.signatures_unit]
    rfl
  obtain ⟨f, hf, hmakes⟩ := SourceUnit.exists_function ha hsignature
  have hargs : f.Accepts [Point.value 5] := by
    have haccepts : (ValueType.model "Point" Point.shape.typeHash).accepts (Point.value 5) = true :=
      beq_self_eq_true _
    refine hmakes.accepts_iff.2 ⟨rfl, ?_⟩
    simp [Point.signature, CompiledFunction.firstMismatch?, haccepts]
  have hconforms : f.Conforms Point.registry [Point.value 5] := by
    unfold CompiledFunction.Conforms
    rw [hmakes.params]
    intro p hp
    obtain rfl := List.mem_singleton.1 hp
    exact ⟨0, by decide +kernel, Point.fits_value 5⟩
  exact ⟨a, f, ha, hself, hf, hargs, hconforms,
    SourceUnit.call_safe ha hself hf hargs hconforms⟩

end TypedTemplate
