-- SUMMARY: The code of an expression jumps inside what follows and names constants and locals that are there.
import TypedTemplate.Proofs.Code.WellFormed
import TypedTemplate.Proofs.Compile.Infer

/-!
# Formed code

An action is formed when the code it emits on success lands all its jumps, whatever
follows, and when its operands name locals that are declared and constants of every later
pool. There is one rule for each way of emitting code; only a jump over code and a choice
between two pieces of code say something of jumps. Along these rules every expression is
formed.
-/

namespace TypedTemplate

/-! ## Plain instructions -/

/-- The instruction does not jump, and it has no operand that names something. -/
def Instr.Plain : Instr → Prop
  | .constant _ | .getField _ _ | .getLocal _ | .setLocal _ => False
  | .jump _ | .jumpIfFalse _ | .jumpIfNotNull _            => False
  | _                                                      => True

theorem Instr.Plain.distance? {i : Instr} (h : i.Plain) : i.distance? = none := by
  cases i with
  | jump | jumpIfFalse | jumpIfNotNull => exact h.elim
  | _ => rfl

theorem Instr.Plain.refers {i : Instr} (h : i.Plain) (pool : Pool) (slots : Nat) :
    i.Refers pool slots := by
  cases i with
  | constant | getField | getLocal | setLocal => exact h.elim
  | _ => trivial

namespace Rule

variable {r : Registry} {o : Options} {a b t u : Ty} {is : List Instr}

theorem unary_plain {op : UnaryOp} (h : Rule.unary r o op t = .ok (is, u)) : ∀ i ∈ is, i.Plain := by
  cases op <;> simp only [Rule.unary, Rule.unary.mismatch] at h <;> repeat' split at h
  all_goals first
    | (cases h; done)
    | (obtain ⟨rfl, -⟩ := Prod.mk.inj (Except.ok.inj h); exact List.forall_mem_singleton.2 trivial)

theorem promotion_plain : ∀ i ∈ Rule.promotion a b, i.Plain := by
  unfold Rule.promotion
  split
  · exact List.forall_mem_singleton.2 trivial
  · exact List.forall_mem_singleton.2 trivial
  · exact nofun

theorem arith_plain {op : ArithOp} (h : Rule.arith r o op a b = .ok (is, u)) : ∀ i ∈ is, i.Plain := by
  unfold Rule.arith at h
  split at h
  · cases h
  · split at h
    · obtain ⟨rfl, -⟩ := Prod.mk.inj (Except.ok.inj h)
      exact List.forall_mem_singleton.2 trivial
    · obtain ⟨rfl, -⟩ := Prod.mk.inj (Except.ok.inj h)
      exact List.forall_mem_append.2 ⟨promotion_plain, List.forall_mem_singleton.2 trivial⟩

theorem equality_plain {positive : Bool} (h : Rule.equality r positive a b = .ok (is, u)) :
    ∀ i ∈ is, i.Plain := by
  unfold Rule.equality at h
  split at h
  · obtain ⟨rfl, -⟩ := Prod.mk.inj (Except.ok.inj h)
    exact List.forall_mem_append.2 ⟨promotion_plain, List.forall_mem_singleton.2 trivial⟩
  · cases h

theorem binary_plain {op : BinaryOp} (h : Rule.binary r o op a b = .ok (is, u)) :
    ∀ i ∈ is, i.Plain := by
  cases op with
  | add =>
    simp only [Rule.binary, Rule.add] at h
    split at h
    · obtain ⟨rfl, -⟩ := Prod.mk.inj (Except.ok.inj h)
      exact List.forall_mem_singleton.2 trivial
    · exact arith_plain h
  | sub => exact arith_plain h
  | mul => exact arith_plain h
  | equal => exact equality_plain h
  | notEqual => exact equality_plain h
  | coalesce =>
    cases hc : Rule.coalesce r a b with
    | error e => simp [Rule.binary, hc, Except.map] at h
    | ok t =>
      simp only [Rule.binary, hc, Except.map] at h
      obtain ⟨rfl, -⟩ := Prod.mk.inj (Except.ok.inj h)
      simp

theorem method_plain {name : String} (h : Rule.method r name t = .ok (is, u)) : ∀ i ∈ is, i.Plain := by
  unfold Rule.method at h
  split at h
  case h_6 => cases h
  all_goals
    obtain ⟨rfl, -⟩ := Prod.mk.inj (Except.ok.inj h)
    exact List.forall_mem_singleton.2 trivial

/-- A `return` ends with the instruction that returns. -/
theorem result_eq (h : Rule.result r t u = .ok is) :
    ∃ before, is = before ++ [.ret] ∧ ∀ i ∈ before, i.Plain := by
  unfold Rule.result Rule.result.mismatch at h
  split at h
  · cases h
  · split at h
    · obtain rfl := Except.ok.inj h
      exact ⟨[], rfl, by simp⟩
    · split at h
      · obtain rfl := Except.ok.inj h
        exact ⟨[.promote], rfl, List.forall_mem_singleton.2 trivial⟩
      · cases h

end Rule

/-! ## Formed code -/

namespace Code

variable {a b code : Code} {pool : Pool} {slots line : Nat}

/-- The code lands its jumps, and its operands name what they should. -/
structure Formed (pool : Pool) (slots : Nat) (code : Code) : Prop where
  lands : code.Lands
  refers : code.Refers pool slots

theorem formed_nil (pool : Pool) (slots : Nat) : Formed pool slots [] := ⟨lands_nil, by simp [Refers]⟩

theorem Formed.append (ha : a.Formed pool slots) (hb : b.Formed pool slots) :
    (a ++ b).Formed pool slots :=
  ⟨ha.lands.append hb.lands, ha.refers.append hb.refers⟩

theorem formed_single {i : Instr} (hjump : i.distance? = none) (hrefers : i.Refers pool slots) :
    Formed pool slots [⟨line, i⟩] :=
  ⟨lands_single hjump, refers_cons.2 ⟨hrefers, by simp [Refers]⟩⟩

theorem formed_on {is : List Instr} (h : ∀ i ∈ is, i.Plain) : (Code.on line is).Formed pool slots := by
  induction is with
  | nil => exact formed_nil pool slots
  | cons i is ih =>
    obtain ⟨hi, his⟩ := List.forall_mem_cons.1 h
    exact (formed_single hi.distance? (hi.refers pool slots)).append (ih his)

end Code

/-! ## Formed actions -/

namespace Emit

variable {α β γ : Type} {m : Emit α} {next : α → Emit β} {Q : Pool} {slots : Nat} {span : Span}

/-- The action only adds to the pool, and what it emits when it succeeds is formed for the pool `Q`,
when that is a later one. -/
def Formed (Q : Pool) (slots : Nat) (m : Emit α) : Prop :=
  ∀ (P P' : Pool) (a : α) (code : Code), m P = ⟨.ok a, code, P'⟩ →
    P.Within P' ∧ (P'.Within Q → code.Formed Q slots)

theorem formed_pure (a : α) : (pure a : Emit α).Formed Q slots := by
  intro P P' b code h
  obtain ⟨-, rfl, rfl⟩ := pure_ok.1 h
  exact ⟨.refl _, fun _ => Code.formed_nil _ _⟩

theorem formed_fail (fault : SemanticFault) : (fail fault span : Emit α).Formed Q slots :=
  fun _ _ _ _ h => (fail_ok.1 h).elim

theorem Formed.bind (hm : m.Formed Q slots) (hnext : ∀ a, (next a).Formed Q slots) :
    (m >>= next).Formed Q slots := by
  intro P P' b code h
  obtain ⟨a, c₁, P₁, c₂, hfirst, hrest, rfl⟩ := bind_ok.1 h
  obtain ⟨hgrows₁, hcode₁⟩ := hm P P₁ a c₁ hfirst
  obtain ⟨hgrows₂, hcode₂⟩ := hnext a P₁ P' b c₂ hrest
  exact ⟨hgrows₁.trans hgrows₂, fun hin => (hcode₁ (hgrows₂.trans hin)).append (hcode₂ hin)⟩

theorem Formed.silently (hm : m.Formed Q slots) : m.silently.Formed Q slots := by
  intro P P' a code h
  obtain ⟨rfl, c, hm'⟩ := silently_ok.1 h
  exact ⟨(hm P P' a c hm').1, fun _ => Code.formed_nil _ _⟩

theorem formed_instrs {is : List Instr} (h : ∀ i ∈ is, i.Plain) :
    (instrs span is).Formed Q slots := by
  intro P P' a code hok
  obtain ⟨rfl, rfl⟩ := instrs_ok.1 hok
  exact ⟨.refl _, fun _ => Code.formed_on h⟩

theorem formed_instr {i : Instr} (h : i.Plain) : (instr span i).Formed Q slots :=
  formed_instrs (List.forall_mem_singleton.2 h)

theorem formed_lift (x : Except SemanticFault α) : (lift span x).Formed Q slots := by
  cases x with
  | error e => exact formed_fail e
  | ok a => exact formed_pure a

theorem formed_ruling {rule : Ruling} (h : ∀ is t, rule = .ok (is, t) → ∀ i ∈ is, i.Plain) :
    (ruling span rule).Formed Q slots := by
  intro P P' t code hok
  obtain ⟨is, hrule, rfl, rfl⟩ := ruling_ok.1 hok
  exact ⟨.refl _, fun _ => Code.formed_on (h is t hrule)⟩

theorem formed_counted (n : Nat) (what : String) :
    (counted span n what .buildString).Formed Q slots := by
  intro P P' a code h
  obtain ⟨-, rfl, rfl⟩ := counted_ok.1 h
  exact ⟨.refl _, fun _ => Code.formed_single rfl trivial⟩

/-- A jump over formed code is formed. -/
theorem Formed.jumpOver {j : UInt16 → Instr} (hm : m.Formed Q slots)
    (hjump : ∀ d, (j d).distance? = some d.toNat) (hrefers : ∀ d, (j d).Refers Q slots) :
    (jumpOver span j 0 m).Formed Q slots := by
  intro P P' a code h
  obtain ⟨c, hbody, hsize, rfl⟩ := jumpOver_ok.1 h
  obtain ⟨hgrows, hcode⟩ := hm P P' a c hbody
  refine ⟨hgrows, fun hin => ⟨(hcode hin).lands.over ?_, ?_⟩⟩
  · rw [hjump, Code.toNat_ofNat hsize, Nat.add_zero]
  · exact Code.refers_cons.2 ⟨hrefers _, (hcode hin).refers⟩

/-- Of two formed pieces of code one is skipped, and then the action goes on. -/
theorem Formed.either {m' : Emit β} {rest : α → β → Emit γ} (hm : m.Formed Q slots)
    (hm' : m'.Formed Q slots) (hrest : ∀ a b, (rest a b).Formed Q slots) :
    (do
      let a ← Emit.jumpOver span .jumpIfFalse (Instr.jump 0).size m
      let b ← Emit.jumpOver span .jump 0 m'
      rest a b).Formed Q slots := by
  intro P P' c code h
  obtain ⟨a, _, P₁, _, hfirst, hothers, rfl⟩ := bind_ok.1 h
  obtain ⟨b, _, P₂, c₃, hsecond, hlast, rfl⟩ := bind_ok.1 hothers
  obtain ⟨c₁, hbody₁, hsize₁, rfl⟩ := jumpOver_ok.1 hfirst
  obtain ⟨c₂, hbody₂, hsize₂, rfl⟩ := jumpOver_ok.1 hsecond
  obtain ⟨hgrows₁, hcode₁⟩ := hm P P₁ a c₁ hbody₁
  obtain ⟨hgrows₂, hcode₂⟩ := hm' P₁ P₂ b c₂ hbody₂
  obtain ⟨hgrows₃, hcode₃⟩ := hrest a b P₂ P' c c₃ hlast
  refine ⟨(hgrows₁.trans hgrows₂).trans hgrows₃, fun hin => ?_⟩
  have hin₂ := hgrows₃.trans hin
  have hformed₁ := hcode₁ (hgrows₂.trans hin₂)
  have hformed₂ := hcode₂ hin₂
  have hchoice : Code.Formed Q slots
      ((⟨span.line, .jumpIfFalse (UInt16.ofNat (c₁.size + (Instr.jump 0).size))⟩ :: c₁) ++
        ⟨span.line, .jump (UInt16.ofNat (c₂.size + 0))⟩ :: c₂) := by
    refine ⟨hformed₁.lands.either hformed₂.lands ?_ ?_, Code.Refers.append ?_ ?_⟩
    · exact congrArg some (Code.toNat_ofNat hsize₁)
    · exact congrArg some (Code.toNat_ofNat hsize₂)
    · exact Code.refers_cons.2 ⟨trivial, hformed₁.refers⟩
    · exact Code.refers_cons.2 ⟨trivial, hformed₂.refers⟩
  rw [← List.append_assoc]
  exact hchoice.append (hcode₃ hin)

/-! ## Constants -/

variable (hQ : Q.Consistent)

include hQ

theorem formed_constant (k : Constant) : (constant span k).Formed Q slots := by
  intro P P' a code h
  obtain ⟨hsize, rfl, rfl⟩ := constant_ok.1 h
  refine ⟨Pool.within_add k, fun hin => Code.formed_single rfl ?_⟩
  obtain ⟨d, hd, -⟩ := Pool.get?_of_index hQ (hin.index _ _ (P.index_add k))
  simp only [Instr.Refers, Code.toNat_ofNat hsize, hd, Option.isSome_some]

theorem formed_getField (index : Nat) (name : String) :
    (getField span index name).Formed Q slots := by
  intro P P' a code h
  obtain ⟨-, hsize, rfl, rfl⟩ := getField_ok.1 h
  refine ⟨Pool.within_add _, fun hin => Code.formed_single rfl ?_⟩
  have hstr := Pool.str?_of_index hQ (hin.index _ _ (P.index_add (.str name)))
  simp only [Instr.Refers, Code.toNat_ofNat hsize, hstr, Option.isSome_some]

theorem formed_int (i : Int64) : (int span i).Formed Q slots := by
  unfold Emit.int
  split
  · exact formed_instr trivial
  · split
    · exact formed_instr trivial
    · exact formed_constant hQ _

theorem formed_value (v : Value) : (value span v).Formed Q slots := by
  cases v with
  | null => exact formed_instr trivial
  | bool b => exact formed_instr trivial
  | int i => exact formed_int hQ i
  | object m => exact formed_fail _
  | _ => exact formed_constant hQ _

end Emit

/-! ## Pieces -/

namespace Pieces

variable {p : Pieces} {Q : Pool} {slots : Nat} {span : Span} (hQ : Q.Consistent)

include hQ

theorem formed_pushText (s : String) : (p.pushText s).Formed Q slots :=
  (Emit.formed_constant hQ _).bind fun _ => Emit.formed_pure _

theorem formed_flush : p.flush.Formed Q slots := by
  unfold flush
  split
  · exact formed_pushText hQ _
  · exact Emit.formed_pure _

theorem formed_addText (keep : Bool) (s : String) : (p.addText keep s).Formed Q slots := by
  unfold addText
  split
  · exact Emit.formed_pure _
  · exact formed_pushText hQ s

theorem formed_join : (p.join span).Formed Q slots := by
  refine (formed_flush hQ).bind fun q => ?_
  dsimp only
  split
  · exact (Emit.formed_constant hQ _).bind fun _ => Emit.formed_pure _
  · split
    · exact Emit.formed_pure _
    · exact (Emit.formed_counted _ _).bind fun _ => Emit.formed_pure _

end Pieces

/-! ## Expressions -/

namespace Context

variable (c : Context) {Q : Pool} {slots : Nat} {span : Span}

/-- A name is read from the slot of a local that is declared. -/
theorem formed_name (x : Ident) : (c.name x).Formed Q c.scope.frameSize := by
  intro P P' t code h
  obtain ⟨slot, l, hget, -, rfl, rfl⟩ := name_ok h
  refine ⟨.refl _, fun _ => Code.formed_single rfl ?_⟩
  have hslot : (UInt8.ofNat slot).toNat ≤ slot := by simpa using Nat.mod_le slot 256
  exact Nat.lt_of_le_of_lt hslot (Scope.lt_of_get? hget)

theorem formed_call (t : Ty) (method : Ident) (args : List Expr) :
    (c.call t method args span).Formed Q slots := by
  intro P P' u code h
  obtain ⟨is, -, hrule, rfl, rfl⟩ := call_ok h
  exact ⟨.refl _, fun _ => Code.formed_on (Rule.method_plain hrule)⟩

theorem formed_format (t : Ty) (format : Option FormatSpec) : (c.format t format).Formed Q slots := by
  cases format with
  | none => exact Emit.formed_pure _
  | some spec => exact (Emit.formed_lift _).bind fun _ => Emit.formed_instr trivial

theorem formed_fold (hQ : Q.Consistent) {m : Emit Ty} (e : Expr) (hm : m.Formed Q slots) :
    (c.fold e m).Formed Q slots := by
  unfold fold
  split
  · exact hm.silently.bind fun _ => (Emit.formed_value hQ _).bind fun _ => Emit.formed_pure _
  · exact hm

theorem formed_literal (hQ : Q.Consistent) (l : Literal) : (literal span l).Formed Q slots := by
  cases l with
  | int i => exact (Emit.formed_int hQ i).bind fun _ => Emit.formed_pure _
  | bool b => exact (Emit.formed_instr (i := .pushBool b) trivial).bind fun _ => Emit.formed_pure _
  | null => exact (Emit.formed_instr (i := .pushNull) trivial).bind fun _ => Emit.formed_pure _
  | _ => exact (Emit.formed_constant hQ _).bind fun _ => Emit.formed_pure _

theorem formed_member (hQ : Q.Consistent) (t : Ty) (field : Ident) :
    (c.member t field span).Formed Q slots :=
  (Emit.formed_lift _).bind fun _ => (Emit.formed_getField hQ _ _).bind fun _ => Emit.formed_pure _

mutual

/-- The code of an expression lands its jumps, and its operands name what they should. -/
theorem formed_infer (hQ : Q.Consistent) : (e : Expr) → (c.infer e).Formed Q c.scope.frameSize
  | .literal l _ => formed_literal hQ l
  | .name x => c.formed_name x
  | .member e field _ => (formed_infer hQ e).bind fun t => c.formed_member hQ t field
  | .call e method args _ =>
    c.formed_fold hQ _ ((formed_infer hQ e).bind fun t => c.formed_call t method args)
  | .unary _ e _ =>
    c.formed_fold hQ _ ((formed_infer hQ e).bind fun _ => Emit.formed_ruling fun _ _ => Rule.unary_plain)
  | .binary op l r span => by
    have hl := formed_infer hQ l
    have hr := formed_infer hQ r
    by_cases hop : op = .coalesce
    · subst hop
      have hpop : (Emit.instr span .pop).Formed Q c.scope.frameSize := Emit.formed_instr trivial
      have hskip : (Emit.jumpOver span .jumpIfNotNull 0
          (do Emit.instr span .pop; c.infer r)).Formed Q c.scope.frameSize :=
        (hpop.bind fun _ => hr).jumpOver (fun _ => rfl) (fun _ => trivial)
      exact c.formed_fold hQ _ (hl.bind fun _ => hskip.bind fun _ => Emit.formed_lift _)
    · rw [c.infer_binary l r span hop]
      exact c.formed_fold hQ _ (hl.bind fun _ => hr.bind fun _ =>
        Emit.formed_ruling fun _ _ => Rule.binary_plain)
  | .ternary e t f _ =>
    c.formed_fold hQ _ ((formed_infer hQ e).bind fun _ => (Emit.formed_lift _).bind fun _ =>
      (formed_infer hQ t).either (formed_infer hQ f) fun _ _ => Emit.formed_lift _)
  | .interpolated parts span =>
    c.formed_fold hQ _
      ((formed_inferSegments hQ (.start span) parts).bind fun _ => Pieces.formed_join hQ)
  | .paren e _ => c.formed_fold hQ _ (formed_infer hQ e)

theorem formed_inferSegment (hQ : Q.Consistent) (p : Pieces) : (s : Segment) →
    (c.inferSegment p s).Formed Q c.scope.frameSize
  | .text s => Pieces.formed_addText hQ _ s
  | .hole e format _ => by
    have hole := (formed_infer hQ e).bind fun t => c.formed_format t format
    simp only [inferSegment]
    split
    · exact hole.silently.bind fun _ => Pieces.formed_addText hQ _ _
    · exact (Pieces.formed_flush hQ).bind fun _ => hole.bind fun _ => Emit.formed_pure _

theorem formed_inferSegments (hQ : Q.Consistent) (p : Pieces) : (segments : List Segment) →
    (c.inferSegmentsOnto p [] segments).Formed Q c.scope.frameSize
  | [] => Emit.formed_pure p
  | s :: rest => by
    rw [inferSegmentsOnto_cons]
    exact (formed_inferSegment hQ p s).bind fun q => formed_inferSegments hQ q rest

end

end Context

end TypedTemplate
