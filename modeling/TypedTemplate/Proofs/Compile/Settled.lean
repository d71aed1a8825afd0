-- SUMMARY: Also code that an error cut short has its jumps lead to instructions, or never gave them a distance.
import TypedTemplate.Proofs.Compile.Fault
import TypedTemplate.Proofs.Compile.Formed
import TypedTemplate.Proofs.Machine.Unchecked

/-!
# Settled code

An error in a statement leaves the code up to it, and a jump over that code keeps the
placeholder for its distance. So in whatever code the compiler leaves, a jump leads to an
instruction, or to the end, or it has the placeholder. In code of less than a word of bytes
the placeholder leads past the end, and no jump leads into an instruction.
-/

namespace TypedTemplate

/-! ## Code -/

namespace Code

variable {a b code : Code} {p : PlacedInstr} {d : Nat}

/-- Every jump leads to an instruction of the code or to its end, or holds the placeholder. -/
def Settled : Code → Prop
  | []        => True
  | p :: post =>
    (∀ d, p.instr.distance? = some d → d = Chunk.unpatched.toNat ∨
      ∃ skipped rest, post = skipped ++ rest ∧ Code.size skipped = d) ∧ Settled post

theorem settled_cons (hp : p.instr.distance? = none) (h : code.Settled) : Settled (p :: code) := by
  refine ⟨fun d hd => ?_, h⟩
  simp [hp] at hd

theorem Settled.append (ha : a.Settled) (hb : b.Settled) : (a ++ b).Settled := by
  induction a with
  | nil => exact hb
  | cons p a ih =>
    obtain ⟨hp, ha⟩ := ha
    refine ⟨fun d hd => ?_, ih ha⟩
    rcases hp d hd with hplaceholder | ⟨skipped, rest, rfl, hsize⟩
    · exact .inl hplaceholder
    · exact .inr ⟨skipped, rest ++ b, List.append_assoc _ _ _, hsize⟩

theorem Settled.of_append (h : (a ++ b).Settled) : b.Settled := by
  induction a with
  | nil => exact h
  | cons p a ih => exact ih h.2

/-- A jump over the first part of code, or one with the placeholder. -/
theorem Settled.jump (h : (a ++ b).Settled) (hp : p.instr.distance? = some d)
    (hd : d = Chunk.unpatched.toNat ∨ d = Code.size a) : Settled (p :: (a ++ b)) := by
  refine ⟨fun d' hd' => ?_, h⟩
  obtain rfl := Option.some.inj (hp.symm.trans hd')
  exact hd.imp_right fun hsize => ⟨a, b, rfl, hsize.symm⟩

theorem settled_on {is : List Instr} {line : Nat} (h : ∀ i ∈ is, i.distance? = none) :
    (Code.on line is).Settled := by
  induction is with
  | nil => trivial
  | cons i is ih =>
    obtain ⟨hi, his⟩ := List.forall_mem_cons.1 h
    exact settled_cons hi (ih his)

/-- In code of less than a word of bytes the placeholder leads past the end. -/
theorem Settled.aligned (h : code.Settled) (hsize : Code.size code < UInt16.size) :
    (Code.toChunk code).Aligned := by
  intro offset i next d hboundary hfetch hd
  obtain ⟨pre, p, post, rfl, rfl, rfl, rfl⟩ := Chunk.exists_of_fetch hboundary hfetch
  rcases h.of_append.1 d hd with rfl | ⟨skipped, rest, rfl, rfl⟩
  · right
    have hpos := p.instr.size_pos
    have hplaceholder : Chunk.unpatched.toNat + 1 = UInt16.size := by decide
    simp only [Chunk.size_toChunk, size_append, size_cons, size_nil] at hsize ⊢
    omega
  · left
    rw [← size_append]
    exact (Chunk.boundary_toChunk _ _).2 ⟨pre ++ [p] ++ skipped, rest, by simp, rfl⟩

end Code

/-! ## Actions -/

namespace Emit

variable {α β γ : Type} {m : Emit α} {next : α → Emit β} {span : Span}

/-- Whether or not the action succeeds, its code is settled. -/
def Settles (m : Emit α) : Prop := ∀ P, (m P).code.Settled

theorem settles_pure (a : α) : (pure a : Emit α).Settles := fun _ => trivial

theorem settles_fail (fault : SemanticFault) : (fail fault span : Emit α).Settles := fun _ => trivial

theorem code_bind (m : Emit α) (next : α → Emit β) (P : Pool) :
    (∃ e, (m P).result = .error e ∧ ((m >>= next) P).code = (m P).code) ∨
      ∃ a, (m P).result = .ok a ∧ ((m >>= next) P).code = (m P).code ++ (next a (m P).pool).code := by
  simp only [Bind.bind]
  cases m P with
  | mk result code P' =>
    cases result with
    | error e => exact .inl ⟨e, rfl, rfl⟩
    | ok a => exact .inr ⟨a, rfl, rfl⟩

theorem exists_code_bind (m : Emit α) (next : α → Emit β) (P : Pool) :
    ∃ tail, ((m >>= next) P).code = (m P).code ++ tail := by
  rcases code_bind m next P with ⟨-, -, hcode⟩ | ⟨a, -, hcode⟩
  · exact ⟨[], by rw [hcode, List.append_nil]⟩
  · exact ⟨_, hcode⟩

theorem Settles.bind (hm : m.Settles) (hnext : ∀ a, (next a).Settles) : (m >>= next).Settles := by
  intro P
  rcases code_bind m next P with ⟨-, -, hcode⟩ | ⟨a, -, hcode⟩
  · rw [hcode]
    exact hm P
  · rw [hcode]
    exact (hm P).append (hnext a _)

theorem Settles.silently (hm : m.Settles) : m.silently.Settles := by
  intro P
  have hcode := hm P
  unfold Emit.silently
  split <;> rename_i heq
  · trivial
  · rwa [heq] at hcode

theorem settles_instrs {is : List Instr} (h : ∀ i ∈ is, i.distance? = none) :
    (instrs span is).Settles := fun _ => Code.settled_on h

theorem settles_instr {i : Instr} (h : i.distance? = none) : (instr span i).Settles :=
  settles_instrs (List.forall_mem_singleton.2 h)

theorem settles_lift (x : Except SemanticFault α) : (lift span x).Settles := by
  cases x with
  | error e => exact settles_fail e
  | ok a => exact settles_pure a

theorem settles_ruling {rule : Ruling} (h : ∀ is t, rule = .ok (is, t) → ∀ i ∈ is, i.Plain) :
    (ruling span rule).Settles := by
  cases rule with
  | error e => exact fun _ => trivial
  | ok rule =>
    have hplain := h rule.1 rule.2 rfl
    exact (settles_instrs fun i hi => (hplain i hi).distance?).bind fun _ => settles_pure _

theorem settles_word (n : Nat) (message : String) : (word span n message).Settles := by
  unfold word
  split
  · exact settles_pure _
  · exact settles_fail _

theorem settles_counted (n : Nat) (what : String) : (counted span n what .buildString).Settles :=
  (settles_word n _).bind fun _ => settles_instr rfl

theorem settles_constantIndex (k : Constant) : (constantIndex span k).Settles :=
  fun P => settles_word _ _ (P.add k).2

theorem settles_constant (k : Constant) : (constant span k).Settles :=
  (settles_constantIndex k).bind fun _ => settles_instr rfl

theorem settles_getField (index : Nat) (name : String) : (getField span index name).Settles :=
  (settles_word index _).bind fun _ => (settles_constantIndex _).bind fun _ => settles_instr rfl

theorem settles_int (i : Int64) : (int span i).Settles := by
  unfold Emit.int
  split
  · exact settles_instr rfl
  · split
    · exact settles_instr rfl
    · exact settles_constant _

theorem settles_value (v : Value) : (value span v).Settles := by
  cases v with
  | null => exact settles_instr rfl
  | bool b => exact settles_instr rfl
  | int i => exact settles_int i
  | object m => exact settles_fail _
  | _ => exact settles_constant _

/-- A jump stands before the code of its body. If the action fails it has the placeholder. -/
theorem code_jumpOver (span : Span) (j : UInt16 → Instr) (more : Nat) (m : Emit α) (P : Pool) :
    ∃ d, (jumpOver span j more m P).code = ⟨span.line, j d⟩ :: (m P).code ∧
      (d = Chunk.unpatched ∨ d.toNat = Code.size (m P).code + more) ∧
      ∀ e, (jumpOver span j more m P).result = .error e → d = Chunk.unpatched := by
  unfold jumpOver
  cases m P with
  | mk result code P' =>
    cases result with
    | error e => exact ⟨_, rfl, .inl rfl, fun _ _ => rfl⟩
    | ok a =>
      by_cases hlt : code.size + more < UInt16.size
      · simp only [word, hlt, if_true]
        refine ⟨_, rfl, .inr (Code.toNat_ofNat hlt), fun e h => ?_⟩
        cases h
      · simp only [word, hlt, if_false]
        exact ⟨_, rfl, .inl rfl, fun _ _ => rfl⟩

theorem Settles.jumpOver {j : UInt16 → Instr} (hm : m.Settles)
    (hj : ∀ d, (j d).distance? = some d.toNat) : (jumpOver span j 0 m).Settles := by
  intro P
  obtain ⟨d, hcode, hd, -⟩ := code_jumpOver span j 0 m P
  have hbody : ((m P).code ++ []).Settled := by simpa using hm P
  rw [hcode, ← (m P).code.append_nil]
  exact hbody.jump (hj d) (hd.imp_left (congrArg UInt16.toNat))

/-- Of two pieces of code one is skipped, and then the action goes on. -/
theorem Settles.either {m' : Emit β} {rest : α → β → Emit γ} (hm : m.Settles) (hm' : m'.Settles)
    (hrest : ∀ a b, (rest a b).Settles) :
    (do
      let a ← Emit.jumpOver span .jumpIfFalse (Instr.jump 0).size m
      let b ← Emit.jumpOver span .jump 0 m'
      rest a b).Settles := by
  intro P
  let first := Emit.jumpOver span .jumpIfFalse (Instr.jump 0).size m
  let others (a : α) : Emit γ := Emit.jumpOver span .jump 0 m' >>= rest a
  obtain ⟨d, hfirst, hd, herror⟩ := code_jumpOver span .jumpIfFalse (Instr.jump 0).size m P
  rcases code_bind first others P with ⟨e, he, hcode⟩ | ⟨a, -, hcode⟩
  · have hbody : ((m P).code ++ []).Settled := by simpa using hm P
    refine hcode ▸ hfirst ▸ ?_
    rw [← (m P).code.append_nil]
    exact hbody.jump rfl (.inl (congrArg UInt16.toNat (herror e he)))
  · -- what follows begins with the jump over the second piece
    let P' := (first P).pool
    obtain ⟨d', hsecond, -, -⟩ := code_jumpOver span .jump 0 m' P'
    obtain ⟨tail, htail⟩ := exists_code_bind (Emit.jumpOver span .jump 0 m') (rest a) P'
    have hothers : (others a P').code.Settled := (hm'.jumpOver fun _ => rfl).bind (hrest a) P'
    have hboth := (hm P).append hothers
    rw [htail, hsecond, List.cons_append] at hboth
    rw [List.append_cons] at hboth
    refine hcode ▸ hfirst ▸ ?_
    rw [htail, hsecond, List.cons_append, List.cons_append, List.append_cons]
    refine hboth.jump rfl (hd.imp (congrArg UInt16.toNat) fun hsize => ?_)
    rw [hsize, Code.size_append]
    rfl

end Emit

/-! ## Expressions -/

namespace Pieces

open Emit

variable {p : Pieces} {span : Span}

theorem settles_pushText (s : String) : (p.pushText s).Settles :=
  (settles_constant _).bind fun _ => settles_pure _

theorem settles_flush : p.flush.Settles := by
  unfold flush
  split
  · exact settles_pushText _
  · exact settles_pure _

theorem settles_addText (keep : Bool) (s : String) : (p.addText keep s).Settles := by
  unfold addText
  split
  · exact settles_pure _
  · exact settles_pushText s

theorem settles_join : (p.join span).Settles := by
  refine settles_flush.bind fun q => ?_
  dsimp only
  split
  · exact (settles_constant _).bind fun _ => settles_pure _
  · split
    · exact settles_pure _
    · exact (settles_counted _ _).bind fun _ => settles_pure _

end Pieces

namespace Context

open Emit

variable (c : Context) {span : Span}

theorem settles_name (x : Ident) : (c.name x).Settles := by
  unfold name
  split
  · exact (settles_instr rfl).bind fun _ => settles_pure _
  · exact settles_fail _

theorem settles_member (t : Ty) (field : Ident) : (c.member t field span).Settles :=
  (settles_lift _).bind fun _ => (settles_getField _ _).bind fun _ => settles_pure _

theorem settles_call (t : Ty) (method : Ident) (args : List Expr) :
    (c.call t method args span).Settles := by
  unfold call
  cases hrule : Rule.method c.registry method.name t with
  | error e => exact fun _ => trivial
  | ok rule =>
    change (Emit.lift span (Rule.arguments method.name args.length) >>= fun _ =>
      Emit.ruling span (.ok rule)).Settles
    refine (settles_lift _).bind fun _ => settles_ruling ?_
    rintro is u ⟨⟩
    exact Rule.method_plain hrule

theorem settles_format (t : Ty) (format : Option FormatSpec) : (c.format t format).Settles := by
  cases format with
  | none => exact settles_pure _
  | some spec => exact (settles_lift _).bind fun _ => settles_instr rfl

theorem settles_fold {m : Emit Ty} (e : Expr) (hm : m.Settles) : (c.fold e m).Settles := by
  unfold fold
  split
  · exact hm.silently.bind fun _ => (settles_value _).bind fun _ => settles_pure _
  · exact hm

theorem settles_literal (l : Literal) : (literal span l).Settles := by
  cases l with
  | int i => exact (settles_int i).bind fun _ => settles_pure _
  | bool b => exact (settles_instr rfl).bind fun _ => settles_pure _
  | null => exact (settles_instr rfl).bind fun _ => settles_pure _
  | _ => exact (settles_constant _).bind fun _ => settles_pure _

mutual

/-- The code of an expression is settled, also when an error cuts it short. -/
theorem settles_infer : (e : Expr) → (c.infer e).Settles
  | .literal l _ => settles_literal l
  | .name x => c.settles_name x
  | .member e field _ => (settles_infer e).bind fun t => c.settles_member t field
  | .call e method args _ => c.settles_fold _ ((settles_infer e).bind fun t => c.settles_call t method args)
  | .unary _ e _ =>
    c.settles_fold _ ((settles_infer e).bind fun _ => settles_ruling fun _ _ => Rule.unary_plain)
  | .binary op l r span => by
    have hl := settles_infer l
    have hr := settles_infer r
    by_cases hop : op = .coalesce
    · subst hop
      have hpop : (Emit.instr span .pop).Settles := settles_instr rfl
      have hskip : (Emit.jumpOver span .jumpIfNotNull 0
          (do Emit.instr span .pop; c.infer r)).Settles :=
        (hpop.bind fun _ => hr).jumpOver fun _ => rfl
      exact c.settles_fold _ (hl.bind fun _ => hskip.bind fun _ => settles_lift _)
    · rw [c.infer_binary l r span hop]
      exact c.settles_fold _ (hl.bind fun _ => hr.bind fun _ =>
        settles_ruling fun _ _ => Rule.binary_plain)
  | .ternary e t f _ =>
    c.settles_fold _ ((settles_infer e).bind fun _ => (settles_lift _).bind fun _ =>
      (settles_infer t).either (settles_infer f) fun _ _ => settles_lift _)
  | .interpolated parts span =>
    c.settles_fold _ ((settles_inferSegments (.start span) parts).bind fun _ => Pieces.settles_join)
  | .paren e _ => c.settles_fold _ (settles_infer e)

theorem settles_inferSegment (p : Pieces) : (s : Segment) → (c.inferSegment p s).Settles
  | .text s => Pieces.settles_addText _ s
  | .hole e format _ => by
    have hole := (settles_infer e).bind fun t => c.settles_format t format
    simp only [inferSegment]
    split
    · exact hole.silently.bind fun _ => Pieces.settles_addText _ _
    · exact Pieces.settles_flush.bind fun _ => hole.bind fun _ => settles_pure _

theorem settles_inferSegments (p : Pieces) : (segments : List Segment) →
    (c.inferSegmentsOnto p [] segments).Settles
  | [] => settles_pure p
  | s :: rest => by
    rw [inferSegmentsOnto_cons]
    exact (settles_inferSegment p s).bind fun q => settles_inferSegments q rest

end

end Context

/-! ## Bodies -/

namespace Body

variable {r : Registry} {o : Options}

theorem settles_ret (c : Context) (declared : Ty) (value : Expr) (span : Span) :
    (Body.ret c declared value span).Settles := by
  refine (c.settles_infer value).bind fun t => ?_
  cases hrule : Rule.result c.registry declared t with
  | error e => exact fun _ => trivial
  | ok is =>
    obtain ⟨before, rfl, hplain⟩ := Rule.result_eq hrule
    change (Emit.instrs span (before ++ [.ret])).Settles
    refine Emit.settles_instrs (List.forall_mem_append.2 ⟨fun i hi => (hplain i hi).distance?, ?_⟩)
    simp [Instr.distance?]

/-- A statement adds settled code. -/
theorem exists_settled_step (b : Body) (declared : Ty) (s : Stmt) :
    ∃ new : Code, (b.step r o declared s).code = new.reverse ++ b.code ∧ new.Settled := by
  cases s with
  | letBinding x value span =>
    have hsettled := Context.settles_infer ⟨r, o, b.scope⟩ value b.pool
    cases hinfer : Context.infer ⟨r, o, b.scope⟩ value b.pool with
    | mk result code P =>
    rw [hinfer] at hsettled
    cases result with
    | error e => exact ⟨code, by simp [step_let_error hinfer], hsettled⟩
    | ok t =>
      cases hdeclare : b.scope.declare x.name t x.span with
      | error e => exact ⟨code, by simp [step_let_undeclared hinfer hdeclare], hsettled⟩
      | ok found =>
        refine ⟨code ++ [⟨span.line, .setLocal (UInt8.ofNat found.1)⟩], ?_, ?_⟩
        · simp [step_let hinfer hdeclare]
        · exact hsettled.append (Code.settled_cons rfl trivial)
  | ret value span =>
    have hsettled := settles_ret ⟨r, o, b.scope⟩ declared value span b.pool
    cases hret : Body.ret ⟨r, o, b.scope⟩ declared value span b.pool with
    | mk result code P =>
    rw [hret] at hsettled
    cases result with
    | error e => exact ⟨code, by simp [step_ret_error hret], hsettled⟩
    | ok a => exact ⟨code, by simp [step_ret hret], hsettled⟩

/-- Statements add settled code. -/
theorem exists_settled (b : Body) (declared : Ty) (stmts : List Stmt) :
    ∃ new : Code, (b.run r o declared stmts).code = new.reverse ++ b.code ∧ new.Settled := by
  induction stmts generalizing b with
  | nil => exact ⟨[], rfl, trivial⟩
  | cons s ss ih =>
    obtain ⟨first, hfirst, hsettled⟩ := b.exists_settled_step (r := r) (o := o) declared s
    obtain ⟨rest, hrest, hsettled'⟩ := ih (b.step r o declared s)
    refine ⟨first ++ rest, ?_, hsettled.append hsettled'⟩
    change ((b.step r o declared s).run r o declared ss).code = _
    rw [hrest, hfirst]
    simp

end Body

end TypedTemplate
