-- SUMMARY: Code without overflow checks runs like the code with them up to the first overflow.
import TypedTemplate.Proofs.Code.WellFormed
import TypedTemplate.Proofs.Machine.Running

/-!
# Code without overflow checks

Taking the overflow checks out of code changes no size, so both codes have their
instructions at the same offsets, and an instruction without its check goes on where the one
with it overflows. As long as no jump leads into an instruction, the two codes therefore run
in lockstep up to the first overflow.
-/

namespace TypedTemplate

/-! ## Results -/

/-- The error is that an integer operation has overflowed. -/
def RuntimeError.isOverflow : RuntimeError → Bool
  | .integerOverflow _ _ => true
  | _                    => false

/-- The computation does not end with an overflow. -/
def NoOverflow {α : Type} (x : Except RuntimeError α) : Prop :=
  ∀ e, x = .error e → e.isOverflow = false

/-- The computation `y` does what `x` does when an overflow is no error. -/
structure Relaxes {α : Type} (x y : Except RuntimeError α) : Prop where
  ok : ∀ a, x = .ok a → y = .ok a
  error : ∀ e, x = .error e → e.isOverflow = false → y = .error e
  noOverflow : NoOverflow y

section

variable {α β : Type} {x y : Except RuntimeError α} {f g : α → Except RuntimeError β}

theorem noOverflow_ok (a : α) : NoOverflow (.ok a) := nofun

theorem noOverflow_error {e : RuntimeError} (h : e.isOverflow = false) :
    NoOverflow (.error e : Except RuntimeError α) := by
  rintro _ ⟨⟩
  exact h

theorem NoOverflow.bind (hx : NoOverflow x) (hf : ∀ a, NoOverflow (f a)) : NoOverflow (x >>= f) := by
  cases x with
  | ok a => exact hf a
  | error e => exact noOverflow_error (hx e rfl)

theorem NoOverflow.relaxes (hx : NoOverflow x) : Relaxes x x :=
  ⟨fun _ h => h, fun _ h _ => h, hx⟩

/-- Related computations go on as they do where the second one goes on. -/
theorem Relaxes.bind (hxy : Relaxes x y) (hfg : ∀ a, y = .ok a → Relaxes (f a) (g a)) :
    Relaxes (x >>= f) (y >>= g) := by
  cases x with
  | ok a =>
    obtain rfl := hxy.ok a rfl
    exact hfg a rfl
  | error e =>
    refine ⟨nofun, ?_, ?_⟩
    · rintro _ ⟨⟩ he
      rw [hxy.error e rfl he]
      rfl
    · cases y with
      | ok a => exact (hfg a rfl).noOverflow
      | error e' => exact noOverflow_error (hxy.noOverflow e' rfl)

end

/-! ## Instructions -/

namespace Frame

variable {op op' : Value → Except RuntimeError Value} {op₂ op₂' : Value → Value → Except RuntimeError Value}

theorem noOverflow_pop (f : Frame) : NoOverflow f.pop := by
  unfold pop
  split
  · exact noOverflow_ok _
  · exact noOverflow_error rfl

theorem relaxes_mapTop (f : Frame) (h : ∀ v, Relaxes (op v) (op' v)) :
    Relaxes (f.mapTop op) (f.mapTop op') :=
  f.noOverflow_pop.relaxes.bind fun _ _ => (h _).bind fun _ _ => (noOverflow_ok _).relaxes

theorem relaxes_mapTop2 (f : Frame) (h : ∀ v w, Relaxes (op₂ v w) (op₂' v w)) :
    Relaxes (f.mapTop2 op₂) (f.mapTop2 op₂') :=
  f.noOverflow_pop.relaxes.bind fun p _ => p.2.noOverflow_pop.relaxes.bind fun _ _ =>
    (h _ _).bind fun _ _ => (noOverflow_ok _).relaxes

theorem noOverflow_mapTop (f : Frame) (h : ∀ v, NoOverflow (op v)) : NoOverflow (f.mapTop op) :=
  (f.relaxes_mapTop fun v => (h v).relaxes).noOverflow

theorem noOverflow_mapTop2 (f : Frame) (h : ∀ v w, NoOverflow (op₂ v w)) :
    NoOverflow (f.mapTop2 op₂) :=
  (f.relaxes_mapTop2 fun v w => (h v w).relaxes).noOverflow

end Frame

namespace Value

theorem noOverflow_mismatch {α : Type} (v : Value) (expected : String) :
    NoOverflow (.error (v.mismatch expected) : Except RuntimeError α) := noOverflow_error rfl

theorem noOverflow_bool? (v : Value) : NoOverflow v.bool? := by
  cases v <;> first | exact noOverflow_ok _ | exact noOverflow_mismatch _ _

theorem noOverflow_asFloat (v : Value) : NoOverflow v.asFloat := by
  cases v <;> first | exact noOverflow_ok _ | exact noOverflow_mismatch _ _

theorem noOverflow_onText (op : String → Value) (v : Value) : NoOverflow (v.onText op) := by
  cases v <;> first | exact noOverflow_ok _ | exact noOverflow_mismatch _ _

theorem noOverflow_format (v : Value) (kind : FormatKind) : NoOverflow (v.format kind) := by
  unfold format
  split <;> repeat' split
  all_goals first | exact noOverflow_ok _ | exact noOverflow_mismatch _ _

end Value

namespace Site

variable (s : Site)

theorem noOverflow_field (index name : UInt16) (v : Value) : NoOverflow (s.field index name v) := by
  unfold field
  repeat' split
  all_goals first | exact noOverflow_ok _ | exact noOverflow_error rfl

/-- A number that does not fit is wrapped where that is no error. -/
theorem relaxes_fitOr (symbol : String) (operands : List Value) (checked signed : Bool) (n : Int) :
    Relaxes (s.liftInt symbol operands (Value.fitOr checked signed n))
      (s.liftInt symbol operands (Value.fitOr false signed n)) := by
  unfold Value.fitOr
  split
  · exact (noOverflow_ok _).relaxes
  · cases checked with
    | false => exact (noOverflow_ok _).relaxes
    | true =>
      refine ⟨fun v h => ?_, fun e h hoverflow => ?_, noOverflow_ok _⟩
      · cases h
      · cases h
        simp [intFault, RuntimeError.isOverflow] at hoverflow

theorem relaxes_arith (op : ArithOp) (checked : Bool) (v w : Value) :
    Relaxes (s.liftInt op.symbol [v, w] (v.arith op w checked))
      (s.liftInt op.symbol [v, w] (v.arith op w false)) := by
  unfold Value.arith
  split
  · exact s.relaxes_fitOr _ _ _ _ _
  · exact (Value.noOverflow_mismatch _ _).relaxes

theorem relaxes_neg (checked : Bool) (v : Value) :
    Relaxes (s.liftInt ArithOp.sub.symbol [v] (v.neg checked))
      (s.liftInt ArithOp.sub.symbol [v] (v.neg false)) := by
  unfold Value.neg
  split
  · exact s.relaxes_fitOr _ _ _ _ _
  · exact (Value.noOverflow_mismatch _ _).relaxes

end Site

namespace Instr

/-- The instruction without its overflow check. -/
def unchecked : Instr → Instr
  | .arith op _ => .arith op false
  | .neg _      => .neg false
  | i           => i

@[simp] theorem size_unchecked (i : Instr) : i.unchecked.size = i.size := by
  cases i with
  | arith op checked => rfl
  | neg checked => rfl
  | _ => rfl

@[simp] theorem distance?_unchecked (i : Instr) : i.unchecked.distance? = i.distance? := by
  cases i <;> rfl

/-- Only arithmetic on integers can overflow. -/
theorem relaxes_step (s : Site) (f : Frame) (i : Instr) :
    Relaxes (i.step s f) (i.unchecked.step s f) := by
  have hnext (f : Frame) : NoOverflow (Except.ok (Move.next f) : Except RuntimeError Move) :=
    noOverflow_ok _
  cases i <;> dsimp only [unchecked, step]
  case arith op checked => exact f.relaxes_mapTop2 (s.relaxes_arith op checked)
  case neg checked => exact f.relaxes_mapTop (s.relaxes_neg checked)
  all_goals apply NoOverflow.relaxes
  case constant | getLocal | promoteUnder =>
    split
    · exact hnext _
    · exact noOverflow_error rfl
  case setLocal slot =>
    refine f.noOverflow_pop.bind fun p => ?_
    split
    · exact hnext _
    · exact noOverflow_error rfl
  case buildString n =>
    split
    · exact noOverflow_error rfl
    · exact hnext _
  case jumpIfNotNull d =>
    split
    · exact noOverflow_ok _
    · exact noOverflow_error rfl
  case jumpIfFalse d =>
    exact f.noOverflow_pop.bind fun p => p.1.noOverflow_bool?.bind fun _ => noOverflow_ok _
  case jump d => exact noOverflow_ok _
  case pop | ret => exact f.noOverflow_pop.bind fun _ => noOverflow_ok _
  case getField i n => exact f.noOverflow_mapTop (s.noOverflow_field i n)
  case floatArith op =>
    exact f.noOverflow_pop.bind fun p => p.1.noOverflow_asFloat.bind fun _ =>
      p.2.noOverflow_pop.bind fun q => q.1.noOverflow_asFloat.bind fun _ => hnext _
  case floatNeg => exact f.noOverflow_mapTop fun v => v.noOverflow_asFloat.bind fun _ => noOverflow_ok _
  case not => exact f.noOverflow_mapTop fun v => v.noOverflow_bool?.bind fun _ => noOverflow_ok _
  case format kind =>
    exact f.noOverflow_mapTop fun v => (v.noOverflow_format kind).bind fun _ => noOverflow_ok _
  case text | count => exact f.noOverflow_mapTop (Value.noOverflow_onText _)
  case promote | toText => exact f.noOverflow_mapTop fun _ => noOverflow_ok _
  case concat | compare => exact f.noOverflow_mapTop2 fun _ _ => noOverflow_ok _
  all_goals exact hnext _

/-- Only a jump skips code, and by its distance. -/
theorem distance?_of_skip {s : Site} {f g : Frame} {i : Instr} {d : Nat}
    (h : i.step s f = .ok (.skip g d)) : i.distance? = some d := by
  cases i
  case jump | jumpIfFalse | jumpIfNotNull =>
    simp only [step, Frame.pop, bind, Except.bind, pure, Except.pure] at h
    grind [distance?]
  all_goals
    simp only [step, Frame.mapTop, Frame.mapTop2, Frame.pop, bind, Except.bind, pure, Except.pure] at h
    repeat' split at h
    all_goals cases h

end Instr

/-! ## Code -/

/-- No jump of the chunk leads into an instruction. It leads to one, to the end, or past that. -/
def Chunk.Aligned (c : Chunk) : Prop :=
  ∀ offset i next distance, c.Boundary offset → c.fetch offset = .ok (i, next) →
    i.distance? = some distance → c.Boundary (next + distance) ∨ c.size < next + distance

theorem Chunk.WellFormed.aligned {c : Chunk} {pool : Pool} {slots : Nat}
    (h : c.WellFormed pool slots) : c.Aligned :=
  fun offset i next distance hboundary hfetch hdistance =>
    .inl (h.jumps offset i next distance hboundary hfetch hdistance).1

namespace Code

/-- The code without its overflow checks. -/
def unchecked (code : Code) : Code := code.map fun p => { p with instr := p.instr.unchecked }

@[simp] theorem unchecked_append (a b : Code) : (a ++ b).unchecked = a.unchecked ++ b.unchecked :=
  List.map_append

@[simp] theorem size_unchecked (code : Code) : code.unchecked.size = code.size := by
  induction code with
  | nil => rfl
  | cons p code ih => simpa [unchecked] using ih

end Code

namespace Chunk

theorem run_eq_bind (c : Chunk) (pool : Pool) (offset : Nat) (f : Frame) :
    c.run pool offset f = c.step pool offset f >>= fun
      | .inl v           => .ok v
      | .inr (target, g) => c.run pool target g := by
  rw [run_of_step]
  cases c.step pool offset f with
  | error e => rfl
  | ok r => rcases r with v | ⟨target, g⟩ <;> rfl

theorem noOverflow_follow (c : Chunk) (next : Nat) (m : Move) : NoOverflow (c.follow next m) := by
  cases m with
  | skip f d =>
    dsimp only [follow]
    split
    · exact noOverflow_ok _
    · exact noOverflow_error rfl
  | next f => exact noOverflow_ok _
  | ret v => exact noOverflow_ok _

theorem follow_of_size {c c' : Chunk} (h : c.size = c'.size) (next : Nat) (m : Move) :
    c.follow next m = c'.follow next m := by
  cases m <;> simp only [follow, h]

variable {code : Code} {pool : Pool}

/-- The end of the code is no place to run. -/
theorem step_size (c : Chunk) (pool : Pool) (f : Frame) : c.step pool c.size f =
    .error (.malformedBytecode c.size "invalid opcode or missing return") := by
  simp only [step, fetch, opcodeAt?_size]

theorem step_unchecked (pool : Pool) (pre post : Code) (p : PlacedInstr) (f : Frame) :
    (Code.toChunk (pre ++ p :: post).unchecked).step pool (Code.size pre) f =
      (p.instr.unchecked.step ⟨pool, Code.size pre, Code.size pre + p.instr.size, p.line⟩ f).bind
        ((Code.toChunk (pre ++ p :: post)).follow (Code.size pre + p.instr.size)) := by
  have hholds := holdsAt_toChunk pre.unchecked post.unchecked ⟨p.line, p.instr.unchecked⟩
  have hcode : (pre ++ p :: post).unchecked =
      pre.unchecked ++ ⟨p.line, p.instr.unchecked⟩ :: post.unchecked := Code.unchecked_append _ _
  have hsize : (Code.toChunk (pre ++ p :: post).unchecked).size =
      (Code.toChunk (pre ++ p :: post)).size := by
    rw [size_toChunk, size_toChunk, Code.size_unchecked]
  rw [Code.size_unchecked] at hholds
  rw [← funext (follow_of_size hsize _), hcode, hholds.step, Instr.size_unchecked]

/-- Where an instruction starts, or at the end, both codes do the same, but for an overflow. -/
theorem relaxes_step (pool : Pool) {offset : Nat} (hboundary : (Code.toChunk code).Boundary offset)
    (f : Frame) :
    Relaxes ((Code.toChunk code).step pool offset f)
      ((Code.toChunk code.unchecked).step pool offset f) := by
  obtain ⟨pre, post, rfl, rfl⟩ := (boundary_toChunk code offset).1 hboundary
  cases post with
  | nil =>
    rw [List.append_nil]
    have hend := step_size (Code.toChunk pre) pool f
    have hend' := step_size (Code.toChunk pre.unchecked) pool f
    rw [size_toChunk] at hend hend'
    rw [Code.size_unchecked] at hend'
    rw [hend, hend']
    exact (noOverflow_error rfl).relaxes
  | cons p post =>
    rw [(holdsAt_toChunk pre post p).step, step_unchecked]
    exact (Instr.relaxes_step _ f p.instr).bind fun m _ => (noOverflow_follow _ _ m).relaxes

/-- Where the unchecked code goes on, an instruction starts, or the code ends. -/
theorem Aligned.boundary (h : (Code.toChunk code).Aligned) {offset target : Nat} {f g : Frame}
    (hboundary : (Code.toChunk code).Boundary offset)
    (hstep : (Code.toChunk code.unchecked).step pool offset f = .ok (.inr (target, g))) :
    (Code.toChunk code).Boundary target := by
  have hlt := (lt_of_step hstep).1
  rw [size_toChunk, Code.size_unchecked] at hlt
  obtain ⟨pre, p, post, rfl, rfl⟩ := exists_of_boundary hboundary hlt
  rw [step_unchecked] at hstep
  generalize hmove : p.instr.unchecked.step _ f = move at hstep
  cases move with
  | error e => cases hstep
  | ok m =>
    cases m with
    | ret v => cases hstep
    | next f' =>
      cases hstep
      exact (boundary_toChunk _ _).2 ⟨pre ++ [p], post, by simp, by simp⟩
    | skip f' d =>
      simp only [Except.bind, follow] at hstep
      split at hstep
      · cases hstep
        have hdistance := (Instr.distance?_of_skip hmove).symm.trans (Instr.distance?_unchecked _)
        rcases h _ _ _ d hboundary (fetch_toChunk pre post p) hdistance.symm with hin | hpast
        · exact hin
        · omega
      · cases hstep

/-- Code whose jumps are aligned runs without overflow checks as with them up to an overflow. -/
theorem Aligned.relaxes_run (h : (Code.toChunk code).Aligned) {offset : Nat}
    (hboundary : (Code.toChunk code).Boundary offset) (f : Frame) :
    Relaxes ((Code.toChunk code).run pool offset f)
      ((Code.toChunk code.unchecked).run pool offset f) := by
  induction hn : Code.size code - offset using Nat.strongRecOn generalizing offset f with
  | ind n ih =>
    rw [run_eq_bind, run_eq_bind]
    refine (relaxes_step pool hboundary f).bind fun r hr => ?_
    cases r with
    | inl v => exact (noOverflow_ok v).relaxes
    | inr rest =>
      obtain ⟨target, g⟩ := rest
      obtain ⟨hlt, hnext⟩ := lt_of_step hr
      rw [size_toChunk, Code.size_unchecked] at hlt
      exact ih (Code.size code - target) (by omega) (h.boundary hboundary hr) g rfl

end Chunk

end TypedTemplate
