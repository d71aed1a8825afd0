-- SUMMARY: A debug build puts no floats into the pool but those it was given, so it reads each as written.
import TypedTemplate.Proofs.Compile.Agreement

/-!
# Floats of a debug build

A pool has one entry for both zeros, so a zero is read with the sign of the one added first.
That matters only to code with zeros of both signs. A debug build computes no constants of its
own: the floats that it adds to the pool are literals. So where the literal zeros of an
expression have one sign, its code reads every float as it was written.
-/

namespace TypedTemplate

variable {S : Float → Prop}

/-! ## Pools -/

namespace Pool

variable {p : Pool}

/-- Every float in the pool is one of `S`. -/
def Draws (S : Float → Prop) (p : Pool) : Prop := ∀ x, Constant.float x ∈ p.items → S x

theorem draws_empty : empty.Draws S := by
  simp [Draws, empty]

theorem Draws.add (h : p.Draws S) {c : Constant} (hc : ∀ x, c = .float x → S x) :
    (p.add c).2.Draws S := by
  unfold Pool.add
  split
  · exact h
  · intro x hmem
    rcases Array.mem_push.1 hmem with hmem | heq
    · exact h x hmem
    · exact hc x heq.symm

/-- What is read for a float is the float or one that the pool has. -/
theorem Draws.readFloat (h : p.Draws S) {x : Float} (hx : S x) : S (p.readFloat x) := by
  unfold Pool.readFloat
  split
  · rename_i y hy
    obtain ⟨i, -, hget⟩ := Option.bind_eq_some_iff.1 hy
    exact h y (Array.mem_of_getElem? hget)
  · exact hx

/-- Where the zeros of `S` are all the same, its floats are read as they are. -/
theorem Draws.readFloat_eq (h : p.Draws S) (hp : p.Consistent)
    (hzero : ∀ x y, S x → S y → (x == 0) = true → (y == 0) = true → x = y) {x : Float} (hx : S x) :
    p.readFloat x = x := by
  rcases readFloat_eq_or_zero hp x with hread | ⟨hx0, hread0⟩
  · exact hread
  · exact hzero _ _ (h.readFloat hx) hx hread0 hx0

end Pool

/-! ## Steps -/

namespace Emit

variable {α β : Type} {m : Emit α}

/-- The floats that the action adds to a pool are among those of `S`. -/
def Draws (S : Float → Prop) (m : Emit α) : Prop :=
  ∀ P : Pool, P.Draws S → (m P).pool.Draws S

theorem draws_pure (a : α) : Draws S (pure a) := fun _ h => h

theorem draws_instrs (span : Span) (is : List Instr) : Draws S (instrs span is) := fun _ h => h

theorem draws_instr (span : Span) (i : Instr) : Draws S (instr span i) := fun _ h => h

theorem draws_lift (span : Span) (x : Except SemanticFault α) : Draws S (lift span x) := by
  cases x <;> exact fun _ h => h

theorem Draws.bind {next : α → Emit β} (h : m.Draws S) (hnext : ∀ a, (next a).Draws S) :
    (m >>= next).Draws S := by
  intro P hP
  have hm := h P hP
  simp only [Bind.bind]
  split <;> rename_i heq
  · simpa [heq] using hm
  · rename_i a _ P'
    rw [heq] at hm
    exact hnext a P' hm

theorem Draws.jumpOver (h : m.Draws S) (span : Span) (jump : UInt16 → Instr) (more : Nat) :
    (jumpOver span jump more m).Draws S := by
  intro P hP
  rw [pool_jumpOver]
  exact h P hP

theorem draws_ruling (span : Span) (rule : Ruling) : Draws S (ruling span rule) :=
  (draws_lift span rule).bind fun _ => (draws_instrs span _).bind fun _ => draws_pure _

theorem draws_word (span : Span) (n : Nat) (message : String) : Draws S (word span n message) := by
  intro P hP
  rw [pool_word]
  exact hP

theorem draws_counted (span : Span) (n : Nat) (what : String) (i : UInt16 → Instr) :
    Draws S (counted span n what i) :=
  (draws_word span n _).bind fun _ => draws_instr span _

/-! Constants are where floats come in. -/

theorem draws_constantIndex (span : Span) {c : Constant} (hc : ∀ x, c = .float x → S x) :
    Draws S (constantIndex span c) :=
  fun P hP => draws_word span _ _ (P.add c).2 (hP.add hc)

theorem draws_constant (span : Span) {c : Constant} (hc : ∀ x, c = .float x → S x) :
    Draws S (constant span c) :=
  (draws_constantIndex span hc).bind fun _ => draws_instr span _

theorem draws_str (span : Span) (s : String) : Draws S (str span s) := draws_constant span nofun

theorem draws_int (span : Span) (i : Int64) : Draws S (int span i) := by
  unfold int
  split
  · exact draws_instr span _
  · split
    · exact draws_instr span _
    · exact draws_constant span nofun

theorem draws_getField (span : Span) (index : Nat) (name : String) :
    Draws S (getField span index name) :=
  (draws_word span index _).bind fun _ =>
    (draws_constantIndex span nofun).bind fun _ => draws_instr span _

theorem draws_pushText (p : Pieces) (s : String) : Draws S (p.pushText s) :=
  (draws_str p.span s).bind fun _ => draws_pure _

theorem draws_flush (p : Pieces) : Draws S p.flush := by
  unfold Pieces.flush
  split
  · exact draws_pushText _ _
  · exact draws_pure _

theorem draws_addText (p : Pieces) (keep : Bool) (s : String) : Draws S (p.addText keep s) := by
  unfold Pieces.addText
  split
  · exact draws_pure _
  · exact draws_pushText _ _

theorem draws_join (p : Pieces) (span : Span) : Draws S (p.join span) := by
  refine (draws_flush p).bind fun q => ?_
  dsimp only
  split
  · exact (draws_str span "").bind fun _ => draws_pure _
  · split
    · exact draws_pure _
    · exact (draws_counted span _ _ _).bind fun _ => draws_pure _

end Emit

/-! ## Expressions -/

namespace Context

open Emit

variable {c : Context}

theorem draws_literal (span : Span) {l : Literal} (h : ∀ x ∈ l.value.floats, S x) :
    Draws S (Context.literal span l) := by
  cases l with
  | int i => exact (draws_int span i).bind fun _ => draws_pure _
  | float x =>
    have hx : ∀ y, Constant.float x = .float y → S y := by
      rintro _ ⟨⟩
      exact h x (by simp [Literal.value, Value.floats])
    exact (draws_constant span hx).bind fun _ => draws_pure _
  | str s => exact (draws_str span s).bind fun _ => draws_pure _
  | _ => exact (draws_instr span _).bind fun _ => draws_pure _

theorem draws_name (x : Ident) : Draws S (c.name x) := by
  unfold name
  split
  · exact (draws_instr _ _).bind fun _ => draws_pure _
  · exact fun _ h => h

theorem draws_member (t : Ty) (field : Ident) (span : Span) : Draws S (c.member t field span) :=
  (draws_lift _ _).bind fun _ => (draws_getField span _ _).bind fun _ => draws_pure _

theorem draws_call (t : Ty) (method : Ident) (args : List Expr) (span : Span) :
    Draws S (c.call t method args span) :=
  (draws_lift _ _).bind fun _ => (draws_lift _ _).bind fun _ => draws_ruling _ _

theorem draws_format (t : Ty) (format : Option FormatSpec) : Draws S (c.format t format) := by
  cases format with
  | none => exact draws_pure _
  | some spec => exact (draws_lift _ _).bind fun _ => draws_instr _ _

theorem draws_fold (hc : c.options.folds = false) {e : Expr} {m : Emit Ty} {rest : List Float}
    (hm : (∀ x ∈ rest, S x) → m.Draws S) (h : ∀ x ∈ e.loadsOr false rest, S x) :
    (c.fold e m).Draws S := by
  simp only [fold, hc, Bool.false_eq_true, if_false]
  exact hm h

mutual

/-- A debug build takes no floats into the pool but those that the expression reads. -/
theorem draws_infer (hc : c.options.folds = false) : (e : Expr) →
    (∀ x ∈ e.loads false, S x) → (c.infer e).Draws S
  | .literal l span, h => draws_literal span h
  | .name x, _ => draws_name x
  | .member e field span, h => (draws_infer hc e h).bind fun _ => draws_member _ field span
  | .call e method args span, h =>
    draws_fold hc (fun h => (draws_infer hc e h).bind fun _ => draws_call _ method args span) h
  | .unary op e span, h =>
    draws_fold hc (fun h => (draws_infer hc e h).bind fun _ => draws_ruling span _) h
  | .binary op l r span, h => by
    by_cases hop : op = .coalesce
    · subst hop
      refine draws_fold hc (fun h => ?_) h
      obtain ⟨hl, hr⟩ := List.forall_mem_append.1 h
      have hright := (draws_instr span .pop).bind fun _ => draws_infer hc r hr
      refine (draws_infer hc l hl).bind fun _ => ?_
      exact (hright.jumpOver span _ 0).bind fun _ => draws_lift span _
    · rw [c.infer_binary l r span hop]
      refine draws_fold hc (fun h => ?_) h
      obtain ⟨hl, hr⟩ := List.forall_mem_append.1 h
      refine (draws_infer hc l hl).bind fun _ => ?_
      exact (draws_infer hc r hr).bind fun _ => draws_ruling span _
  | .ternary e t f span, h => by
    refine draws_fold hc (fun h => ?_) h
    obtain ⟨he, h⟩ := List.forall_mem_append.1 h
    obtain ⟨ht, hf⟩ := List.forall_mem_append.1 h
    refine (draws_infer hc e he).bind fun _ => (draws_lift _ _).bind fun _ => ?_
    refine ((draws_infer hc t ht).jumpOver span _ _).bind fun _ => ?_
    exact ((draws_infer hc f hf).jumpOver span _ 0).bind fun _ => draws_lift span _
  | .interpolated parts span, h =>
    draws_fold hc (fun h => (draws_inferSegments hc _ parts h).bind fun q => draws_join q span) h
  | .paren e span, h => draws_fold hc (fun h => draws_infer hc e h) h

theorem draws_inferSegment (hc : c.options.folds = false) (p : Pieces) : (s : Segment) →
    (∀ x ∈ s.loads false, S x) → (c.inferSegment p s).Draws S
  | .text s, _ => draws_addText p _ s
  | .hole e format _, h => by
    have hole := (draws_infer hc e h).bind fun t => draws_format (c := c) t format
    simp only [inferSegment, hc, Bool.false_eq_true, if_false]
    exact (draws_flush p).bind fun _ => hole.bind fun _ => draws_pure _

theorem draws_inferSegments (hc : c.options.folds = false) (p : Pieces) : (segments : List Segment) →
    (∀ x ∈ Segment.loadsAll false segments, S x) → (c.inferSegmentsOnto p [] segments).Draws S
  | [], _ => draws_pure p
  | s :: rest, h => by
    obtain ⟨hs, hrest⟩ := List.forall_mem_append.1 h
    rw [inferSegmentsOnto_cons]
    exact (draws_inferSegment hc p s hs).bind fun q => draws_inferSegments hc q rest hrest

end

end Context

end TypedTemplate
