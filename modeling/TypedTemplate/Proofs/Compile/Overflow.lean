-- SUMMARY: Overflow checks only turn overflows into errors, unless a jump that an error left leads into an instruction.
import TypedTemplate.Proofs.Compile.Chunk
import TypedTemplate.Proofs.Compile.Unchecked

/-!
# Overflow checks

A source compiles with overflow checks just when it compiles without them, with the same
diagnostics, and a call without them gives what the call with them gives, unless that
overflows. For the calls the jumps must lead to instructions. They do so unless a binding
that mentions itself hides an error and the code is so long that the jump which the error
left over stays inside it.
-/

namespace TypedTemplate

variable {f g : CompiledFunction}

/-- The jumps of a function are aligned if it is short. -/
theorem CompiledFunction.Unchecks.aligned (h : f.Unchecks g) (hsize : f.chunk.size < UInt16.size) :
    f.chunk.Aligned := by
  obtain ⟨code, hsettled, hchunk, -⟩ := h
  rw [hchunk, Chunk.size_toChunk] at hsize
  rw [hchunk]
  exact hsettled.aligned hsize

/-- **Overflow checks only turn overflows into errors.** Both ways of compiling a source fail with the
same diagnostics, or succeed with the same warnings and with functions of the same names. A call
without the checks gives the value or the error that the call with them gives, unless that is an
overflow, and it never overflows; provided that no binding of the function mentions itself, or that
the function is shorter than the placeholder of a jump. -/
theorem compile_overflowChecks (r : Registry) (level : OptLevel) (source : String) :
    (∃ ds, compile r ⟨true, level⟩ source = .error ds ∧
        compile r ⟨false, level⟩ source = .error ds) ∨
      ∃ u a b, SourceUnit.parse source = .ok u ∧ compile r ⟨true, level⟩ source = .ok a ∧
        compile r ⟨false, level⟩ source = .ok b ∧ a.warnings = b.warnings ∧
        ∀ q x, Option.Rel (fun f g => ∃ s, u.signature? r q x = some s ∧
            (s.namesItself = false ∨ f.chunk.size < UInt16.size →
              ∀ args, Relaxes (f.call a.pool args) (g.call b.pool args)))
          (a.function? q x) (b.function? q x) := by
  unfold compile
  cases hparse : SourceUnit.parse source with
  | error errors => exact .inl ⟨_, rfl, rfl⟩
  | ok u =>
    have hunits := u.compile_unchecked r ⟨true, level⟩
    refine hunits.imp_right ?_
    rintro ⟨a, b, ha, hb, hunchecks⟩
    refine ⟨u, a, b, rfl, ha, hb, hunchecks.warnings, fun q x => ?_⟩
    have hmakes := SourceUnit.function?_makes ha q x
    have hfunctions := hunchecks.function? q x
    generalize u.signature? r q x = found, a.function? q x = f?, b.function? q x = g?
      at hmakes hfunctions ⊢
    cases hfunctions with
    | none => exact .none
    | @some f g hfg =>
      cases hmakes with
      | @some s _ hs =>
        refine .some ⟨s, rfl, fun hcond args => ?_⟩
        rw [← hunchecks.pool]
        refine hfg.relaxes_call ?_ a.pool args
        rcases hcond with hself | hsize
        · exact (hs.wellFormed (SourceUnit.compile_eq_ok ha).2.1 hself).aligned
        · exact hfg.aligned hsize

/-- The successor of the greatest number overflows with the check and wraps without it. -/
theorem compile_overflowChecks_successor :
    let source := "module M \x7b type T \x7b fn F(x: int) -> int \x7b return x + 1; \x7d \x7d \x7d"
    let args : List Value := [.int 0x7FFFFFFFFFFFFFFF]
    ∃ a b f g, compile (.empty #[]) ⟨true, .release⟩ source = .ok a ∧
      compile (.empty #[]) ⟨false, .release⟩ source = .ok b ∧
      a.function? "M::T" "F" = some f ∧ b.function? "M::T" "F" = some g ∧ f.chunk.size < UInt16.size ∧
      f.call a.pool args = .error (.integerOverflow "+" 1) ∧
      ((g.call b.pool args).toOption.bind Value.wide? = some minInt) ∧
      ∀ args, Relaxes (f.call a.pool args) (g.call b.pool args) := by
  intro source args
  have hchecked : ((compile (.empty #[]) ⟨true, .release⟩ source).toOption.bind fun a =>
      (a.function? "M::T" "F").map fun f =>
        (f.chunk.size, match f.call a.pool args with | .ok _ => none | .error e => some e)) =
      some (5, some (.integerOverflow "+" 1)) := by decide +kernel
  have hunchecked : ((compile (.empty #[]) ⟨false, .release⟩ source).toOption.bind fun b =>
      (b.function? "M::T" "F").bind fun g => (g.call b.pool args).toOption.bind Value.wide?) =
      some minInt := by decide +kernel
  obtain ⟨a, ha, hf⟩ := Option.bind_eq_some_iff.1 hchecked
  obtain ⟨f, hf, hcall⟩ := Option.map_eq_some_iff.1 hf
  obtain ⟨b, hb, hg⟩ := Option.bind_eq_some_iff.1 hunchecked
  obtain ⟨g, hg, hcall'⟩ := Option.bind_eq_some_iff.1 hg
  obtain ⟨hsize, hcall⟩ := Prod.mk.inj hcall
  have hok := Value.toOption_eq_some ha
  have hok' := Value.toOption_eq_some hb
  have hlt : f.chunk.size < UInt16.size := by
    rw [hsize]
    decide
  have herror : f.call a.pool args = .error (.integerOverflow "+" 1) := by
    split at hcall
    · cases hcall
    · rename_i h
      rw [h, Option.some.inj hcall]
  refine ⟨a, b, f, g, hok, hok', hf, hg, hlt, herror, hcall', ?_⟩
  rcases compile_overflowChecks (.empty #[]) .release source with
    ⟨ds, hds, -⟩ | ⟨u, a', b', -, ha', hb', -, hrelaxes⟩
  · cases hok.symm.trans hds
  · obtain rfl : a = a' := Except.ok.inj (hok.symm.trans ha')
    obtain rfl : b = b' := Except.ok.inj (hok'.symm.trans hb')
    have hrel := hrelaxes "M::T" "F"
    rw [hf, hg] at hrel
    cases hrel with
    | some h =>
      obtain ⟨s, -, hrelaxes⟩ := h
      exact hrelaxes (.inr hlt)

/-! ## A stray jump -/

namespace Stray

/-- The sixteen parameters. -/
def names : List String :=
  ["p0", "p1", "p2", "p3", "p4", "p5", "p6", "p7", "p8", "p9", "p10", "p11", "p12", "p13", "p14", "p15"]

def name (x : String) : Expr := .name ⟨x, .nowhere⟩

/-- The value in `let a = 1 ?? a;`. -/
def first : Expr := .binary .coalesce (.literal (.int 1) .nowhere) (name "a") .nowhere

/-- A string with `n` holes. -/
def second (n : Nat) : Expr := .interpolated (List.replicate n (.hole (name "p0") none .nowhere)) .nowhere

def sum : Expr := .binary .add (name "p0") (name "p8") .nowhere

def signature (n : Nat) : Signature :=
  { decl := SourceUnit.function (names.map fun x => (x, "int")) "int" [
      .letBinding ⟨"a", .nowhere⟩ first .nowhere,
      .letBinding ⟨"b", .nowhere⟩ (second n) .nowhere,
      .ret sum .nowhere]
    params := names.map fun _ => ⟨.int, .int⟩
    result := ⟨.int, .int⟩ }

def unit (n : Nat) : SourceUnit := .ofFunction (signature n).decl

def args : List Value := (List.range 16).map fun i => .int (Int64.ofNat i)

def scope : Scope := ⟨(names.map fun x => ⟨x, .int, .nowhere⟩).toArray, []⟩

theorem signatures_unit (n : Nat) :
    (unit n).signatures (.empty #[]) = ([⟨"M::T", [signature n]⟩], []) := by
  with_unfolding_all rfl

theorem body_signature (n : Nat) (pool : Pool) (ds : Diagnostics) :
    (signature n).body pool ds = .start scope pool ds := by
  with_unfolding_all rfl

variable (checked : Bool) (pool : Pool)

def context (s : Scope) : Context := ⟨.empty #[], ⟨checked, .release⟩, s⟩

theorem infer_first : (context checked scope).infer first pool =
    ⟨.error ⟨.unknownVariable "a", .nowhere⟩,
      Code.on 0 [.pushOne, .jumpIfNotNull Chunk.unpatched, .pop], pool⟩ := by
  with_unfolding_all rfl

theorem infer_name {s : Scope} (hs : s.get? "p0" = some (0, ⟨"p0", .int, .nowhere⟩)) :
    (context checked s).infer (name "p0") pool = ⟨.ok .int, Code.on 0 [.getLocal 0], pool⟩ := by
  simp only [name, Context.infer, Context.name, context, hs]
  rfl

/-- A hole is pushed. -/
theorem inferSegment_hole {s : Scope} (hs : s.get? "p0" = some (0, ⟨"p0", .int, .nowhere⟩))
    {p : Pieces} (hp : p.pending = none) :
    (context checked s).inferSegment p (.hole (name "p0") none .nowhere) pool =
      ⟨.ok ⟨p.count + 1, false, none, .nowhere⟩, Code.on 0 [.getLocal 0], pool⟩ := by
  have hflush : p.flush = pure p := by
    unfold Pieces.flush
    rw [hp]
  have hinfer := infer_name checked pool hs
  obtain ⟨count, onlyText, pending, span⟩ := p
  obtain rfl : pending = none := hp
  simp only [Context.inferSegment, hflush]
  exact Emit.bind_ok.2 ⟨_, _, _, _, Emit.pure_ok.2 ⟨rfl, rfl, rfl⟩,
    Emit.bind_ok.2 ⟨⟨⟩, _, _, _, Emit.bind_ok.2 ⟨_, _, _, _, hinfer, Emit.pure_ok.2 ⟨rfl, rfl, rfl⟩, rfl⟩,
      Emit.pure_ok.2 ⟨rfl, rfl, rfl⟩, rfl⟩, rfl⟩

theorem inferSegments_holes {s : Scope} (hs : s.get? "p0" = some (0, ⟨"p0", .int, .nowhere⟩)) (n : Nat)
    {p : Pieces} (hp : p.pending = none) :
    (context checked s).inferSegmentsOnto p [] (List.replicate (n + 1) (.hole (name "p0") none .nowhere)) pool =
      ⟨.ok ⟨p.count + (n + 1), false, none, .nowhere⟩, Code.on 0 (List.replicate (n + 1) (.getLocal 0)), pool⟩ := by
  induction n generalizing p with
  | zero =>
    rw [List.replicate_one, Context.inferSegmentsOnto_cons]
    exact Emit.bind_ok.2 ⟨_, _, _, _, inferSegment_hole checked pool hs hp,
      Emit.pure_ok.2 ⟨rfl, rfl, rfl⟩, rfl⟩
  | succ n ih =>
    have hrest := ih (p := ⟨p.count + 1, false, none, .nowhere⟩) rfl
    have hcount : p.count + 1 + (n + 1) = p.count + (n + 1 + 1) := by omega
    simp only [hcount] at hrest
    rw [List.replicate_succ, Context.inferSegmentsOnto_cons]
    exact Emit.bind_ok.2 ⟨_, _, _, _, inferSegment_hole checked pool hs hp, hrest, rfl⟩

theorem infer_second {s : Scope} (hs : s.get? "p0" = some (0, ⟨"p0", .int, .nowhere⟩)) {n : Nat}
    (hn : n + 2 < UInt16.size) :
    (context checked s).infer (second (n + 2)) pool =
      ⟨.ok .str, Code.on 0 (List.replicate (n + 2) (.getLocal 0) ++ [.buildString (UInt16.ofNat (n + 2))]),
        pool⟩ := by
  have hconstant : (second (n + 2)).constant? = none := rfl
  have hsegments := inferSegments_holes checked pool hs (n + 1) (p := .start .nowhere) rfl
  have hcount : (Pieces.start .nowhere).count + (n + 1 + 1) = n + 2 := Nat.zero_add _
  simp only [hcount] at hsegments
  have hjoin : Pieces.join ⟨n + 2, false, none, .nowhere⟩ .nowhere pool =
      ⟨.ok .str, Code.on 0 [.buildString (UInt16.ofNat (n + 2))], pool⟩ := by
    have hcounted : Emit.counted .nowhere (n + 2) "interpolation segments" .buildString pool =
        ⟨.ok ⟨⟩, Code.on 0 [.buildString (UInt16.ofNat (n + 2))], pool⟩ :=
      Emit.counted_ok.2 ⟨hn, rfl, rfl⟩
    exact Emit.bind_ok.2 ⟨_, _, _, _, Emit.pure_ok.2 ⟨rfl, rfl, rfl⟩,
      Emit.bind_ok.2 ⟨_, _, _, _, hcounted, Emit.pure_ok.2 ⟨rfl, rfl, rfl⟩, rfl⟩, rfl⟩
  unfold second at hconstant ⊢
  simp only [Context.infer, Context.fold, hconstant, ite_self]
  exact Emit.bind_ok.2 ⟨_, _, _, _, hsegments, hjoin, by simp [Code.on]⟩

/-- The instructions of the function. -/
def instrs (n : Nat) : List Instr :=
  [.pushOne, .jumpIfNotNull Chunk.unpatched, .pop] ++
    (List.replicate n (.getLocal 0) ++ [.buildString (UInt16.ofNat n)]) ++ [.setLocal 16] ++
    [.getLocal 0, .getLocal 8, .arith .add checked, .ret]

/-- The scope of the last statement. -/
def lastScope : Scope := ⟨scope.locals.push ⟨"b", .str, .nowhere⟩, ["a"]⟩

theorem ret_sum : Body.ret (context checked lastScope) .int sum .nowhere pool =
    ⟨.ok ⟨⟩, Code.on 0 [.getLocal 0, .getLocal 8, .arith .add checked, .ret], pool⟩ := by
  with_unfolding_all rfl

theorem compile_signature {n : Nat} (hn : n + 2 < UInt16.size) (ds : Diagnostics) :
    (signature (n + 2)).compile (.empty #[]) ⟨checked, .release⟩ pool ds =
      (⟨"F", names.map fun _ => .int, .int, 17, (Code.on 0 (instrs checked (n + 2))).toChunk⟩, pool, ds) := by
  have hfirst : (Body.start scope pool ds).step (.empty #[]) ⟨checked, .release⟩ .int
      (.letBinding ⟨"a", .nowhere⟩ first .nowhere) =
      ⟨scope.poison "a", (Code.on 0 [.pushOne, .jumpIfNotNull Chunk.unpatched, .pop]).reverseAux [],
        pool, ds, false⟩ := by
    rw [Body.step_let_error (infer_first checked pool)]
    with_unfolding_all rfl
  have hdeclare : (scope.poison "a").declare "b" .str .nowhere = .ok (16, lastScope) := by
    with_unfolding_all rfl
  have hget : (scope.poison "a").get? "p0" = some (0, ⟨"p0", .int, .nowhere⟩) := by
    with_unfolding_all rfl
  have hsecond (code : Code) : Body.step (.empty #[]) ⟨checked, .release⟩ .int
      ⟨scope.poison "a", code, pool, ds, false⟩ (.letBinding ⟨"b", .nowhere⟩ (second (n + 2)) .nowhere) =
      ⟨lastScope, (Code.on 0 (List.replicate (n + 2) (.getLocal 0) ++ [.buildString (UInt16.ofNat (n + 2))] ++
        [.setLocal 16])).reverseAux code, pool, ds, false⟩ := by
    rw [Body.step_let (infer_second checked pool hget hn) hdeclare]
    simp [Body.warnUnreachable, Code.on, List.reverseAux_eq, Span.nowhere]
  have hlast (code : Code) : Body.step (.empty #[]) ⟨checked, .release⟩ .int
      ⟨lastScope, code, pool, ds, false⟩ (.ret sum .nowhere) =
      ⟨lastScope, (Code.on 0 [.getLocal 0, .getLocal 8, .arith .add checked, .ret]).reverseAux code, pool,
        ds, true⟩ := Body.step_ret (ret_sum checked pool)
  have hrun : (Body.start scope pool ds).run (.empty #[]) ⟨checked, .release⟩ .int
      (signature (n + 2)).decl.body.stmts =
      ⟨lastScope, (Code.on 0 (instrs checked (n + 2))).reverse, pool, ds, true⟩ := by
    have hstmts : (signature (n + 2)).decl.body.stmts = [.letBinding ⟨"a", .nowhere⟩ first .nowhere,
      .letBinding ⟨"b", .nowhere⟩ (second (n + 2)) .nowhere, .ret sum .nowhere] := rfl
    simp only [hstmts, Body.run, List.foldl_cons, List.foldl_nil]
    rw [hfirst, hsecond, hlast]
    simp [instrs, Code.on, List.reverseAux_eq]
  have hresult : (signature (n + 2)).result.type = .int := rfl
  rw [Signature.compile_eq, body_signature, hresult]
  simp only [hrun, List.reverse_reverse]
  rfl

/-! The jump leads to the operand of the last `getLocal`, which is the opcode of another one. -/

/-- The code over which the jump leads, which is all but the end of the last read of a local. -/
def middle (n : Nat) : Code :=
  Code.on 0 ([.pop] ++ List.replicate n (.getLocal 0) ++
    [.buildString (UInt16.ofNat n), .setLocal 16, .getLocal 0])

theorem size_replicate (n : Nat) (i : Instr) : (Code.on 0 (List.replicate n i)).size = n * i.size := by
  induction n with
  | zero => simp [Code.on]
  | succ n ih =>
    rw [List.replicate_succ, Nat.succ_mul, Nat.add_comm, ← ih]
    rfl

theorem size_middle (n : Nat) : Code.size (middle n) = 2 * n + 8 := by
  have hsize : (Code.on 0 (List.replicate n (.getLocal 0))).size = n * 2 := size_replicate n _
  simp only [middle, Code.on, List.map_append, Code.size_append] at hsize ⊢
  rw [hsize, Nat.mul_comm]
  simp +arith [Code.size, Instr.size, Instr.bytes, Instr.operands, wordBytes]

variable {checked pool}

/-- The first two instructions, and those that come behind the code over which the jump leads. -/
structure Placed (checked : Bool) (c : Chunk) : Prop where
  size : c.size = 65542
  first : c.HoldsAt 0 ⟨0, .pushOne⟩
  jump : c.HoldsAt 1 ⟨0, .jumpIfNotNull Chunk.unpatched⟩
  read : c.HoldsAt 65538 ⟨0, .getLocal 8⟩
  sum : c.HoldsAt 65540 ⟨0, .arith .add checked⟩
  ret : c.HoldsAt 65541 ⟨0, .ret⟩

variable (checked) in
theorem placed_toChunk {code : Code} (hcode : Code.size code = 65534) :
    Placed checked (Code.toChunk (⟨0, .pushOne⟩ :: ⟨0, .jumpIfNotNull Chunk.unpatched⟩ ::
      (code ++ [⟨0, .getLocal 8⟩, ⟨0, .arith .add checked⟩, ⟨0, .ret⟩]))) := by
  let front : Code := [⟨0, .pushOne⟩, ⟨0, .jumpIfNotNull Chunk.unpatched⟩]
  let add : PlacedInstr := ⟨0, .arith .add checked⟩
  have hfront : Code.size front = 4 := rfl
  have hadd : add.instr.size = 1 := by cases checked <;> rfl
  change Placed checked (Code.toChunk (front ++ (code ++ [⟨0, .getLocal 8⟩, add, ⟨0, .ret⟩])))
  constructor
  case size =>
    simp only [Chunk.size_toChunk, Code.size_append, hcode, hfront, Code.size_cons, hadd]
    rfl
  case first => exact Chunk.holdsAt_toChunk [] _ _
  case jump => exact Chunk.holdsAt_toChunk [⟨0, .pushOne⟩] _ _
  case read =>
    have h := Chunk.holdsAt_toChunk (front ++ code) [add, ⟨0, .ret⟩] ⟨0, .getLocal 8⟩
    rw [List.append_assoc, Code.size_append, hcode, hfront] at h
    exact h
  case sum =>
    have h := Chunk.holdsAt_toChunk (front ++ code ++ [⟨0, .getLocal 8⟩]) [⟨0, .ret⟩] add
    rw [List.append_assoc, List.append_assoc, Code.size_append, Code.size_append, hcode, hfront] at h
    exact h
  case ret =>
    have h := Chunk.holdsAt_toChunk (front ++ code ++ [⟨0, .getLocal 8⟩, add]) [] ⟨0, .ret⟩
    rw [List.append_assoc, List.append_assoc, Code.size_append, Code.size_append, hcode, hfront,
      Code.size_cons, Code.size_cons, hadd] at h
    exact h

namespace Placed

variable {c : Chunk}

/-- The placeholder leads behind the opcode of the last read. -/
theorem step_jump (h : Placed checked c) (f : Frame) :
    c.step pool 1 (f.push (.int 1)) = .ok (.inr (65539, f.push (.int 1))) := by
  have hskip (site : Site) : (Instr.jumpIfNotNull Chunk.unpatched).step site (f.push (.int 1)) =
      .ok (.skip (f.push (.int 1)) Chunk.unpatched.toNat) := rfl
  have hnext : 1 + (Instr.jumpIfNotNull Chunk.unpatched).size = 4 := rfl
  have hdistance : Chunk.unpatched.toNat = 65535 := rfl
  rw [h.jump.step, hskip, hnext, hdistance]
  simp only [Except.bind, Chunk.follow, h.size]
  rfl

/-- There the operand of the read is an opcode, and that of the addition its operand. -/
theorem fetch_operand (h : Placed checked c) :
    c.fetch 65539 = .ok (.getLocal (Instr.arith .add checked).opcode.byte, 65541) := by
  have hopcode : c.byteAt? 65539 = some 8 := h.read.byteAt? (k := 1) (by decide)
  have hoperand : c.byteAt? 65540 = some (Instr.arith .add checked).opcode.byte :=
    h.sum.byteAt? (k := 0) (Instr.size_pos _)
  have hop : c.opcodeAt? 65539 = some .getLocal := by
    simp only [Chunk.opcodeAt?, hopcode]
    rfl
  simp only [Chunk.fetch, hop, Chunk.instr, hoperand, Option.map_some]
  rfl

theorem run (h : Placed checked c) {f : Frame} {v : Value}
    (hv : f.locals[(Instr.arith .add checked).opcode.byte.toNat]? = some v) :
    c.run pool 0 f = .ok v := by
  have hone : c.step pool 0 f = .ok (.inr (1, f.push (.int 1))) := h.first.step f
  have hlocals : (f.push (.int 1)).locals[(Instr.arith .add checked).opcode.byte.toNat]? = some v :=
    hv
  have hpush : c.step pool 65539 (f.push (.int 1)) =
      .ok (.inr (65541, (f.push (.int 1)).push v)) := by
    simp only [Chunk.step, h.fetch_operand, Instr.step, hlocals]
    rfl
  have hlast : c.step pool 65541 ((f.push (.int 1)).push v) = .ok (.inl v) := h.ret.step _
  rw [Chunk.run_of_step, hone]
  simp only
  rw [Chunk.run_of_step, h.step_jump]
  simp only
  rw [Chunk.run_of_step, hpush]
  simp only
  rw [Chunk.run_of_step, hlast]

end Placed

variable (checked)

/-- A call of the function gives the argument that has the number of the addition's opcode. -/
theorem exists_call {n : Nat} (hn : n + 2 < UInt16.size) (hsize : Code.size (middle (n + 2)) = 65534)
    {v : Value} (hv : args[(Instr.arith .add checked).opcode.byte.toNat]? = some v) :
    ∃ a f, (unit (n + 2)).compile (.empty #[]) ⟨checked, .release⟩ = .ok a ∧
      a.function? "M::T" "F" = some f ∧ f.call a.pool args = .ok v := by
  have hcompile (pool : Pool) (ds : Diagnostics) := compile_signature checked pool hn ds
  have hfinal : (unit (n + 2)).final (.empty #[]) ⟨checked, .release⟩ = (.empty, []) := by
    simp only [SourceUnit.final, SourceUnit.registered, signatures_unit]
    exact congrArg Prod.snd (hcompile .empty [])
  obtain ⟨a, ha, -⟩ := SourceUnit.exists_artifact (u := unit (n + 2)) (r := .empty #[])
    (o := ⟨checked, .release⟩) (by rw [hfinal]; rfl)
  have hs : (unit (n + 2)).signature? (.empty #[]) "M::T" "F" = some (signature (n + 2)) := by
    simp only [SourceUnit.signature?, signatures_unit]
    rfl
  obtain ⟨f, hf, hmakes⟩ := SourceUnit.exists_function ha hs
  have haccepts : f.Accepts args := hmakes.accepts_iff.2 (by with_unfolding_all exact ⟨rfl, rfl⟩)
  obtain ⟨pool, ds, hmakes, -⟩ := hmakes
  have hfunction := hmakes.symm.trans (congrArg Prod.fst (hcompile pool ds))
  have hcode : Code.on 0 (instrs checked (n + 2)) =
      ⟨0, .pushOne⟩ :: ⟨0, .jumpIfNotNull Chunk.unpatched⟩ ::
        (middle (n + 2) ++ [⟨0, .getLocal 8⟩, ⟨0, .arith .add checked⟩, ⟨0, .ret⟩]) := by
    simp [instrs, middle, Code.on]
  have hlocal : (Frame.start args 17).locals[(Instr.arith .add checked).opcode.byte.toNat]? = some v :=
    (Signature.getElem?_start (List.getElem?_eq_some_iff.1 hv).1).trans hv
  refine ⟨a, f, ha, hf, ?_⟩
  rw [CompiledFunction.call_of_accepts haccepts, hfunction]
  simp only [hcode]
  exact (placed_toChunk checked hsize).run hlocal

/-- With this number of holes the placeholder leads into the last read of a local. -/
def holes : Nat := 32763

end Stray

/-- The call with overflow checks reads the local that has the number of the checked sum, the one
without them another. -/
theorem checked_ne_unchecked_stray :
    ∃ a b f g, (Stray.unit Stray.holes).compile (.empty #[]) ⟨true, .release⟩ = .ok a ∧
      (Stray.unit Stray.holes).compile (.empty #[]) ⟨false, .release⟩ = .ok b ∧
      a.function? "M::T" "F" = some f ∧ b.function? "M::T" "F" = some g ∧
      f.call a.pool Stray.args = .ok (.int 15) ∧ g.call b.pool Stray.args = .ok (.int 11) ∧
      ¬Relaxes (f.call a.pool Stray.args) (g.call b.pool Stray.args) := by
  have hsize : Code.size (Stray.middle (32761 + 2)) = 65534 := Stray.size_middle _
  obtain ⟨a, f, ha, hf, hcall⟩ :=
    Stray.exists_call true (by decide) hsize (v := .int 15) (by with_unfolding_all rfl)
  obtain ⟨b, g, hb, hg, hcall'⟩ :=
    Stray.exists_call false (by decide) hsize (v := .int 11) (by with_unfolding_all rfl)
  refine ⟨a, b, f, g, ha, hb, hf, hg, hcall, hcall', fun hrelaxes => ?_⟩
  have h := hcall'.symm.trans (hrelaxes.ok _ hcall)
  cases h

end TypedTemplate
