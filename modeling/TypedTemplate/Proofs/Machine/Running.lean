-- SUMMARY: What a piece of code does wherever it stands, and how pieces compose.
import TypedTemplate.Proofs.Code.Layout

/-!
# Running code

`Code.Runs pool code f r` says that from the frame `f` the code leads to its end,
with the frame that `r` gives, or fails as `r` says. It holds wherever the code
stands, so the pieces of a larger code compose. `Code.Ends` says the same of code
that leaves the function.
-/

namespace TypedTemplate

namespace Frame

@[simp] theorem pop_cons (v : Value) (stack : List Value) (locals : Array Value) :
    (⟨v :: stack, locals⟩ : Frame).pop = .ok (v, ⟨stack, locals⟩) := rfl

@[simp] theorem push_mk (v : Value) (stack : List Value) (locals : Array Value) :
    (⟨stack, locals⟩ : Frame).push v = ⟨v :: stack, locals⟩ := rfl

theorem mapTop_cons (v : Value) (stack : List Value) (locals : Array Value)
    (op : Value → Except RuntimeError Value) :
    (⟨v :: stack, locals⟩ : Frame).mapTop op =
      (op v).map fun w => .next ⟨w :: stack, locals⟩ := by
  cases h : op v <;> simp [mapTop, h, Except.map, bind, Except.bind, pure, Except.pure]

theorem mapTop2_cons (a b : Value) (stack : List Value) (locals : Array Value)
    (op : Value → Value → Except RuntimeError Value) :
    (⟨b :: a :: stack, locals⟩ : Frame).mapTop2 op =
      (op a b).map fun w => .next ⟨w :: stack, locals⟩ := by
  cases h : op a b <;> simp [mapTop2, h, Except.map, bind, Except.bind, pure, Except.pure]

end Frame

variable {pool : Pool}

/-- A step where an instruction stands runs that instruction. -/
theorem Chunk.HoldsAt.step {c : Chunk} {offset : Nat} {p : PlacedInstr} (h : c.HoldsAt offset p)
    (f : Frame) :
    c.step pool offset f =
      (p.instr.step ⟨pool, offset, offset + p.instr.size, p.line⟩ f).bind
        (c.follow (offset + p.instr.size)) := by
  simp only [Chunk.step, h.fetch, h.lineAt?, Option.getD_some]
  cases p.instr.step ⟨pool, offset, offset + p.instr.size, p.line⟩ f <;> rfl

theorem Chunk.run_of_step {c : Chunk} {offset : Nat} {f : Frame} :
    c.run pool offset f =
      match c.step pool offset f with
      | .error e          => .error e
      | .ok (.inl v)      => .ok v
      | .ok (.inr (t, g)) => c.run pool t g := by
  rw [Chunk.run]
  split <;> simp_all

namespace Code

/-- From `f` the code leads to its end, or fails, as `r` says. -/
def Runs (pool : Pool) (code : Code) (f : Frame) (r : Except RuntimeError Frame) : Prop :=
  ∀ pre post : Code,
    (Code.toChunk (pre ++ code ++ post)).run pool (Code.size pre) f =
      r.bind ((Code.toChunk (pre ++ code ++ post)).run pool (Code.size (pre ++ code)))

/-- From `f` the code leaves the function with the result `r`. -/
def Ends (pool : Pool) (code : Code) (f : Frame) (r : Except RuntimeError Value) : Prop :=
  ∀ pre post : Code, (Code.toChunk (pre ++ code ++ post)).run pool (Code.size pre) f = r

theorem Runs.nil (f : Frame) : Runs pool [] f (.ok f) := by
  intro pre post
  simp [Except.bind]

section

variable {a b : Code} {f g : Frame} {r : Except RuntimeError Frame} {x : Except RuntimeError Value}
  {e : RuntimeError}

theorem Runs.append (ha : Runs pool a f (.ok g)) (hb : Runs pool b g r) :
    Runs pool (a ++ b) f r := by
  intro pre post
  have hfirst := ha pre (b ++ post)
  have hnext := hb (pre ++ a) post
  simp only [List.append_assoc] at hfirst hnext ⊢
  exact hfirst.trans hnext

/-- Code behind a failure never runs. -/
theorem Runs.append_error (ha : Runs pool a f (.error e)) (b : Code) :
    Runs pool (a ++ b) f (.error e) := by
  intro pre post
  have hfirst := ha pre (b ++ post)
  simp only [List.append_assoc] at hfirst ⊢
  exact hfirst

/-- Code that only goes on where the code before it succeeds. -/
theorem Runs.append_ok (ha : Runs pool a f r) (hb : ∀ g, Runs pool b g (.ok g)) :
    Runs pool (a ++ b) f r := by
  cases r with
  | error e => exact ha.append_error b
  | ok g => exact ha.append (hb g)

theorem Runs.ends (ha : Runs pool a f (.ok g)) (hb : Ends pool b g x) :
    Ends pool (a ++ b) f x := by
  intro pre post
  have hfirst := ha pre (b ++ post)
  have hnext := hb (pre ++ a) post
  simp only [List.append_assoc] at hfirst hnext ⊢
  exact hfirst.trans hnext

theorem Runs.ends_error (ha : Runs pool a f (.error e)) (b : Code) :
    Ends pool (a ++ b) f (.error e) := by
  intro pre post
  have hfirst := ha pre (b ++ post)
  simp only [List.append_assoc] at hfirst ⊢
  exact hfirst

end

/-- Code behind the end of the function never runs. -/
theorem Ends.append {a : Code} {f : Frame} {r : Except RuntimeError Value} (ha : Ends pool a f r)
    (b : Code) : Ends pool (a ++ b) f r := by
  intro pre post
  simpa using ha pre (b ++ post)

/-! ## Single instructions -/

variable {p : PlacedInstr} {f g : Frame}

/-- An instruction that leads to the next one. -/
theorem Runs.instr {r : Except RuntimeError Frame}
    (h : ∀ offset next, p.instr.step ⟨pool, offset, next, p.line⟩ f = r.map .next) :
    Runs pool [p] f r := by
  intro pre post
  have hat : (Code.toChunk (pre ++ [p] ++ post)).HoldsAt (Code.size pre) p := by
    simpa using Chunk.holdsAt_toChunk pre post p
  rw [Chunk.run_of_step, hat.step, h]
  cases r with
  | error e => rfl
  | ok g => simp [Except.map, Except.bind, Chunk.follow]

/-- A jump over the code behind it. -/
theorem Runs.skip {a : Code}
    (h : ∀ offset next, p.instr.step ⟨pool, offset, next, p.line⟩ f = .ok (.skip g (Code.size a))) :
    Runs pool (p :: a) f (.ok g) := by
  intro pre post
  have hat : (Code.toChunk (pre ++ (p :: a) ++ post)).HoldsAt (Code.size pre) p := by
    simpa using Chunk.holdsAt_toChunk pre (a ++ post) p
  have hend : Code.size pre + p.instr.size + Code.size a = Code.size (pre ++ p :: a) := by
    simp [Nat.add_assoc]
  have hle : Code.size (pre ++ p :: a) ≤ (Code.toChunk (pre ++ (p :: a) ++ post)).size := by
    rw [Chunk.size_toChunk, Code.size_append (pre ++ p :: a)]
    exact Nat.le_add_right _ _
  rw [Chunk.run_of_step, hat.step, h]
  simp only [Except.bind, Chunk.follow, hend, if_pos hle]

theorem Ends.ret {v : Value} (h : ∀ s, p.instr.step s f = .ok (.ret v)) :
    Ends pool [p] f (.ok v) := by
  intro pre post
  have hat : (Code.toChunk (pre ++ [p] ++ post)).HoldsAt (Code.size pre) p := by
    simpa using Chunk.holdsAt_toChunk pre post p
  rw [Chunk.run_of_step, hat.step, h]
  rfl

/-- An instruction before code. -/
theorem Runs.cons {a : Code} {r : Except RuntimeError Frame}
    (h : ∀ offset next, p.instr.step ⟨pool, offset, next, p.line⟩ f = .ok (.next g))
    (ha : Runs pool a g r) : Runs pool (p :: a) f r := by
  have hp : Runs pool [p] f (.ok g) := Runs.instr h
  exact hp.append ha

/-! ## Code that leaves values -/

variable {locals : Array Value}

/-- The code pushes the value that `r` gives, or fails as `r` says. -/
def Pushes (pool : Pool) (locals : Array Value) (code : Code) (r : Except RuntimeError Value) :
    Prop :=
  ∀ stack, Runs pool code ⟨stack, locals⟩ (r.map fun v => ⟨v :: stack, locals⟩)

/-- The code replaces the value on top by what `op` gives for it. -/
def Maps (pool : Pool) (locals : Array Value) (code : Code)
    (op : Value → Except RuntimeError Value) : Prop :=
  ∀ v stack, Runs pool code ⟨v :: stack, locals⟩ ((op v).map fun w => ⟨w :: stack, locals⟩)

/-- The code replaces the two values on top, the upper one being the right operand. -/
def Maps2 (pool : Pool) (locals : Array Value) (code : Code)
    (op : Value → Value → Except RuntimeError Value) : Prop :=
  ∀ v w stack,
    Runs pool code ⟨w :: v :: stack, locals⟩ ((op v w).map fun x => ⟨x :: stack, locals⟩)

variable {a b : Code} {x y : Except RuntimeError Value}

theorem Pushes.maps {op : Value → Except RuntimeError Value} (ha : Pushes pool locals a x)
    (hb : Maps pool locals b op) : Pushes pool locals (a ++ b) (x.bind op) := by
  intro stack
  cases x with
  | error e => exact (ha stack).append_error _
  | ok v => exact (ha stack).append (hb v stack)

/-- The second value is computed above the first. -/
theorem Pushes.over (ha : Pushes pool locals a x) (hb : Pushes pool locals b y)
    (stack : List Value) :
    Runs pool (a ++ b) ⟨stack, locals⟩
      (x.bind fun v => y.map fun w => ⟨w :: v :: stack, locals⟩) := by
  cases x with
  | error e => exact (ha stack).append_error _
  | ok v => exact (ha stack).append (hb (v :: stack))

theorem Pushes.maps2 {c : Code} {op : Value → Value → Except RuntimeError Value}
    (ha : Pushes pool locals a x) (hb : Pushes pool locals b y) (hc : Maps2 pool locals c op) :
    Pushes pool locals (a ++ (b ++ c)) (x.bind fun v => y.bind fun w => op v w) := by
  intro stack
  rw [← List.append_assoc]
  have hab := ha.over hb stack
  cases x with
  | error e => exact hab.append_error _
  | ok v =>
    cases y with
    | error e => exact hab.append_error _
    | ok w => exact hab.append (hc v w stack)

/-- Code that goes on with the value pushed to the end of the function. -/
theorem Pushes.ends {stack : List Value} {k : Value → Except RuntimeError Value}
    (ha : Pushes pool locals a x) (hb : ∀ v, Ends pool b ⟨v :: stack, locals⟩ (k v)) :
    Ends pool (a ++ b) ⟨stack, locals⟩ (x.bind k) := by
  cases x with
  | error e => exact (ha stack).ends_error _
  | ok v => exact (ha stack).ends (hb v)

theorem Maps.instr {p : PlacedInstr} {op : Value → Except RuntimeError Value}
    (h : ∀ offset next v stack, p.instr.step ⟨pool, offset, next, p.line⟩ ⟨v :: stack, locals⟩ =
      (op v).map fun w => .next ⟨w :: stack, locals⟩) : Maps pool locals [p] op := by
  intro v stack
  apply Runs.instr
  intro offset next
  rw [h]
  cases op v <;> rfl

theorem Maps2.instr {p : PlacedInstr} {op : Value → Value → Except RuntimeError Value}
    (h : ∀ offset next v w stack,
      p.instr.step ⟨pool, offset, next, p.line⟩ ⟨w :: v :: stack, locals⟩ =
        (op v w).map fun x => .next ⟨x :: stack, locals⟩) : Maps2 pool locals [p] op := by
  intro v w stack
  apply Runs.instr
  intro offset next
  rw [h]
  cases op v w <;> rfl

/-! ## Jumps -/

theorem toNat_ofNat {n : Nat} (h : n < UInt16.size) : (UInt16.ofNat n).toNat = n := by
  simpa using Nat.mod_eq_of_lt h

/-- The code of `b` runs when null is on top, in the place of the null. -/
theorem Pushes.orElse (hb : Pushes pool locals b y) (line : Nat)
    (hsize : Code.size (⟨line, .pop⟩ :: b) < UInt16.size) :
    Maps pool locals
      (⟨line, .jumpIfNotNull (UInt16.ofNat (Code.size (⟨line, .pop⟩ :: b)))⟩ :: ⟨line, .pop⟩ :: b)
      fun v => if v.isNull then y else .ok v := by
  intro v stack
  dsimp only
  cases hv : v.isNull with
  | true =>
    rw [if_pos rfl]
    refine Runs.cons (g := ⟨v :: stack, locals⟩) (fun offset next => ?_) ?_
    · simp [Instr.step, hv]
    · exact Runs.cons (g := ⟨stack, locals⟩) (fun _ _ => rfl) (hb stack)
  | false =>
    rw [if_neg (by simp)]
    apply Runs.skip
    intro offset next
    simp only [Instr.step, hv, toNat_ofNat hsize]
    rfl

/-- The value on top decides which of two pieces of code runs. -/
theorem Pushes.ifElse (ha : Pushes pool locals a x) (line : Nat) (hb : Pushes pool locals b y)
    (hsize : Code.size a + (Instr.jump 0).size < UInt16.size)
    (hsize' : Code.size b < UInt16.size) :
    Maps pool locals
      ((⟨line, .jumpIfFalse (UInt16.ofNat (Code.size a + (Instr.jump 0).size))⟩ :: a) ++
        ⟨line, .jump (UInt16.ofNat (Code.size b))⟩ :: b)
      fun v => v.bool?.bind fun t => if t then x else y := by
  intro v stack
  dsimp only
  cases hv : v.bool? with
  | error e =>
    have hjump : Runs pool [⟨line, .jumpIfFalse (UInt16.ofNat (Code.size a + (Instr.jump 0).size))⟩]
        ⟨v :: stack, locals⟩ (.error e) :=
      Runs.instr fun offset next => by simp [Instr.step, hv, bind, Except.bind, Except.map]
    exact hjump.append_error _
  | ok t =>
    cases t with
    | true =>
      -- the first branch runs and then jumps over the second
      refine Runs.cons (g := ⟨stack, locals⟩) (fun offset next => ?_) ?_
      · simp [Instr.step, hv, bind, Except.bind, pure, Except.pure]
      · apply (ha stack).append_ok
        intro g
        apply Runs.skip
        intro offset next
        simp only [Instr.step, toNat_ofNat hsize']
    | false =>
      have hskip : Runs pool
          (⟨line, .jumpIfFalse (UInt16.ofNat (Code.size a + (Instr.jump 0).size))⟩ ::
            (a ++ [⟨line, .jump (UInt16.ofNat (Code.size b))⟩]))
          ⟨v :: stack, locals⟩ (.ok ⟨stack, locals⟩) := by
        apply Runs.skip
        intro offset next
        have hjump : Code.size (a ++ [⟨line, .jump (UInt16.ofNat (Code.size b))⟩]) =
            Code.size a + (Instr.jump 0).size := by
          rw [Code.size_append]
          rfl
        simp only [Instr.step, Frame.pop_cons, bind, Except.bind, hv, pure, Except.pure, hjump,
          toNat_ofNat hsize]
        rfl
      simpa [Except.bind] using hskip.append (hb stack)

end Code

end TypedTemplate
