-- SUMMARY: The instructions that a typing rule calls for do what the operation means.
import TypedTemplate.Proofs.Machine.Running
import TypedTemplate.Proofs.Semantics.Eval

/-!
# The code of rules

Each rule gives instructions for operands of the types it was asked about. Running
them on any values does what evaluation does with these values and types, errors
included.
-/

namespace TypedTemplate

variable {pool : Pool} {locals : Array Value} {r : Registry} {o : Options} {line : Nat}
  {is : List Instr} {a b t u : Ty}

/-- Instructions on one line. -/
def Code.on (line : Nat) (is : List Instr) : Code := is.map fun i => ⟨line, i⟩

theorem Site.intFault_eq (s : Site) (symbol : String) (operands : List Value) :
    s.intFault symbol operands = IntFault.toError symbol s.line operands := by
  funext f
  cases f <;> rfl

/-! ## Operators -/

theorem Rule.unary_maps {op : UnaryOp} (h : Rule.unary r o op t = .ok (is, u)) :
    (Code.on line is).Maps pool locals (·.evalUnary op o.overflowChecks line t.kind) := by
  cases op with
  | not =>
    simp only [Rule.unary] at h
    split at h
    · obtain ⟨rfl, -⟩ : [Instr.not] = is ∧ _ := by simpa using h
      apply Code.Maps.instr
      intro offset next v stack
      simp only [Instr.step, Frame.mapTop_cons]
      rfl
    · simp [Rule.unary.mismatch] at h
  | neg =>
    simp only [Rule.unary] at h
    split at h
    · subst t
      obtain ⟨rfl, -⟩ : [Instr.neg o.overflowChecks] = is ∧ _ := by simpa using h
      apply Code.Maps.instr
      intro offset next v stack
      simp only [Instr.step, Frame.mapTop_cons, Site.liftInt, Site.intFault_eq]
      rfl
    · split at h
      · subst t
        obtain ⟨rfl, -⟩ : [Instr.floatNeg] = is ∧ _ := by simpa using h
        apply Code.Maps.instr
        intro offset next v stack
        simp only [Instr.step, Frame.mapTop_cons]
        rfl
      · simp [Rule.unary.mismatch] at h

/-- Promoting converts the operand that has to be. -/
theorem Rule.promotion_runs (v w : Value) (stack : List Value) :
    (Code.on line (Rule.promotion a b)).Runs pool ⟨w :: v :: stack, locals⟩
      (.ok ⟨w.convert b.kind a.kind :: v.convert a.kind b.kind :: stack, locals⟩) := by
  obtain ⟨ka, _⟩ := a
  obtain ⟨kb, _⟩ := b
  have hnone : Code.Runs pool [] ⟨w :: v :: stack, locals⟩ (.ok ⟨w :: v :: stack, locals⟩) :=
    Code.Runs.nil _
  have hunder : Code.Runs pool [⟨line, .promoteUnder⟩] ⟨w :: v :: stack, locals⟩
      (.ok ⟨w :: v.promote :: stack, locals⟩) := Code.Runs.instr fun _ _ => rfl
  have htop : Code.Runs pool [⟨line, .promote⟩] ⟨w :: v :: stack, locals⟩
      (.ok ⟨w.promote :: v :: stack, locals⟩) := Code.Runs.instr fun _ _ => rfl
  cases ka <;> cases kb <;> first | exact hnone | exact hunder | exact htop

theorem Rule.maps2_of_promotion {is : List Instr} {op : Value → Value → Except RuntimeError Value}
    (h : (Code.on line is).Maps2 pool locals op) :
    (Code.on line (Rule.promotion a b ++ is)).Maps2 pool locals
      fun v w => op (v.convert a.kind b.kind) (w.convert b.kind a.kind) := by
  intro v w stack
  have hcode : Code.on line (Rule.promotion a b ++ is) =
      Code.on line (Rule.promotion a b) ++ Code.on line is := by simp [Code.on]
  rw [hcode]
  have hop := h (v.convert a.kind b.kind) (w.convert b.kind a.kind) stack
  exact (Rule.promotion_runs v w stack).append hop

theorem Rule.arith_maps2 {op : ArithOp} (h : Rule.arith r o op a b = .ok (is, u)) :
    (Code.on line is).Maps2 pool locals
      fun v w => v.evalArith op o.overflowChecks line a.kind b.kind w := by
  unfold Rule.arith at h
  split at h
  · simp at h
  · rename_i hnumeric
    simp only [Bool.or_eq_true, Bool.not_eq_true', not_or, Bool.not_eq_true] at hnumeric
    obtain ⟨⟨⟨ha, hb⟩, -⟩, -⟩ := hnumeric
    split at h
    · rename_i hints
      obtain ⟨rfl, rfl⟩ := hints
      obtain ⟨rfl, -⟩ : [Instr.arith op o.overflowChecks] = is ∧ _ := by simpa using h
      apply Code.Maps2.instr
      intro offset next v w stack
      simp only [Instr.step, Frame.mapTop2_cons, Site.liftInt, Site.intFault_eq]
      rfl
    · rename_i hints
      obtain ⟨rfl, -⟩ : Rule.promotion a b ++ [Instr.floatArith op] = is ∧ _ := by simpa using h
      have hkinds : ¬(a.kind = .int ∧ b.kind = .int) := by
        rintro ⟨hka, hkb⟩
        exact hints ⟨by cases a; simp_all [Ty.int], by cases b; simp_all [Ty.int]⟩
      have hfloat : (Code.on line [Instr.floatArith op]).Maps2 pool locals fun v w => do
          let y ← w.asFloat
          let x ← v.asFloat
          return .float (op.float x y) := by
        apply Code.Maps2.instr
        intro offset next v w stack
        simp only [Instr.step, Frame.pop_cons, bind, Except.bind, pure, Except.pure]
        cases w.asFloat with
        | error e => rfl
        | ok y => cases v.asFloat <;> rfl
      have h := Rule.maps2_of_promotion (a := a) (b := b) hfloat
      simpa only [Value.evalArith, if_neg hkinds] using h

theorem Rule.equality_maps2 {positive : Bool} (h : Rule.equality r positive a b = .ok (is, u)) :
    (Code.on line is).Maps2 pool locals fun v w =>
      .ok (.bool ((v.convert a.kind b.kind).same (w.convert b.kind a.kind) == positive)) := by
  unfold Rule.equality at h
  split at h
  · obtain ⟨rfl, -⟩ : Rule.promotion a b ++ [Instr.compare positive] = is ∧ _ := by simpa using h
    have hcompare : (Code.on line [Instr.compare positive]).Maps2 pool locals fun v w =>
        .ok (.bool (v.same w == positive)) := by
      apply Code.Maps2.instr
      intro offset next v w stack
      simp only [Instr.step, Frame.mapTop2_cons]
    exact Rule.maps2_of_promotion hcompare
  · simp at h

theorem Rule.binary_maps2 {op : BinaryOp} (hop : op ≠ .coalesce)
    (h : Rule.binary r o op a b = .ok (is, u)) :
    (Code.on line is).Maps2 pool locals
      fun v w => v.evalBinary op o.overflowChecks line a.kind b.kind w := by
  cases op with
  | coalesce => exact absurd rfl hop
  | sub => exact Rule.arith_maps2 h
  | mul => exact Rule.arith_maps2 h
  | equal => simpa [Value.evalBinary] using Rule.equality_maps2 h
  | notEqual => simpa [Value.evalBinary] using Rule.equality_maps2 h
  | add =>
    simp only [Rule.binary, Rule.add] at h
    split at h <;> rename_i htext
    · obtain ⟨rfl, -⟩ : [Instr.concat] = is ∧ _ := by simpa using h
      apply Code.Maps2.instr
      intro offset next v w stack
      simp only [Instr.step, Frame.mapTop2_cons, Value.evalBinary, if_pos htext]
    · simpa only [Value.evalBinary, if_neg htext] using Rule.arith_maps2 h

/-! ## Methods and results -/

theorem Rule.method_maps {name : String} (h : Rule.method r name t = .ok (is, u)) :
    (Code.on line is).Maps pool locals (·.evalMethod name) := by
  unfold Rule.method at h
  split at h
  case h_6 => simp at h
  all_goals
    simp only [Except.ok.injEq, Prod.mk.injEq] at h
    obtain ⟨rfl, -⟩ := h
    apply Code.Maps.instr
    intro offset next v stack
    simp only [Instr.step, Frame.mapTop_cons, Value.evalMethod]

theorem Rule.result_ends (h : Rule.result r t u = .ok is) (v : Value) (stack : List Value) :
    (Code.on line is).Ends pool ⟨v :: stack, locals⟩ (.ok (v.convert u.kind t.kind)) := by
  unfold Rule.result at h
  split at h
  · simp [Rule.result.mismatch] at h
  · split at h
    · rename_i hkind
      obtain rfl : [Instr.ret] = is := by simpa using h
      have hsame : v.convert u.kind t.kind = v := by
        unfold Value.convert
        rw [hkind, if_neg]
        rintro ⟨hint, hfloat⟩
        exact absurd (hint.symm.trans hfloat) (by simp)
      rw [hsame]
      exact Code.Ends.ret fun _ => rfl
    · split at h
      · rename_i hconv
        obtain rfl : [Instr.promote, Instr.ret] = is := by simpa using h
        have hpromoted : v.convert u.kind t.kind = v.promote := if_pos hconv
        rw [hpromoted]
        have hpromote : Code.Runs pool [⟨line, .promote⟩] ⟨v :: stack, locals⟩
            (.ok ⟨v.promote :: stack, locals⟩) := Code.Runs.instr fun _ _ => rfl
        exact hpromote.ends (Code.Ends.ret fun _ => rfl)
      · simp [Rule.result.mismatch] at h

end TypedTemplate
