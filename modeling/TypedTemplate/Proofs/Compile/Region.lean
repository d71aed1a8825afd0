-- SUMMARY: An error in an expression is reported at a place in the expression.
import TypedTemplate.Proofs.Code.Emission
import TypedTemplate.Proofs.Tree.Spans

/-!
# Emission in a region

The compiler reports an error at the construct that it has at hand: an expression, a name in
it, a specifier, or the construct that it emitted last. All of these are spans of the
expression, so an error lies where the expression does.
-/

namespace TypedTemplate

/-! ## Spans of steps -/

instance : Spanned CompilationError := ⟨fun e => [e.span]⟩
instance : Spanned Ty := ⟨fun _ => []⟩
instance : Spanned Nat := ⟨fun _ => []⟩
instance : Spanned UInt16 := ⟨fun _ => []⟩
instance : Spanned Instr := ⟨fun _ => []⟩
instance : Spanned Pieces := ⟨fun p => [p.span]⟩

namespace Region

variable {R : Region}

@[simp] theorem holds_compilationError (e : CompilationError) : R.Holds e ↔ R e.span.place :=
  List.forall_mem_singleton

@[simp] theorem holds_ty (t : Ty) : R.Holds t := nofun

@[simp] theorem holds_nat (n : Nat) : R.Holds n := nofun

@[simp] theorem holds_word (w : UInt16) : R.Holds w := nofun

@[simp] theorem holds_instr (i : Instr) : R.Holds i := nofun

@[simp] theorem holds_pieces (p : Pieces) : R.Holds p ↔ R p.span.place := List.forall_mem_singleton

end Region

variable {R : Region}

namespace Emit

variable {α β : Type} [Spanned α] [Spanned β] {span : Span}

/-- From any pool the result, or the error that stops the action, lies in the region. -/
def LiesIn (m : Emit α) (R : Region) : Prop := ∀ P, R.Holds (m P).result

theorem liesIn_pure {a : α} (ha : R.Holds a) : LiesIn (pure a) R := fun _ => ha

theorem liesIn_fail (hspan : R span.place) (fault : SemanticFault) :
    (fail fault span : Emit α).LiesIn R :=
  fun _ => (Region.holds_error _).2 ((Region.holds_compilationError _).2 hspan)

theorem LiesIn.bind {m : Emit α} {next : α → Emit β} (hm : m.LiesIn R)
    (hnext : ∀ a, R.Holds a → (next a).LiesIn R) : LiesIn (m >>= next) R := by
  intro P
  have hresult := hm P
  simp only [Bind.bind]
  cases h : m P with
  | mk result code P' =>
    rw [h] at hresult
    cases result with
    | error e => exact hresult
    | ok a => exact hnext a hresult P'

theorem LiesIn.silently {m : Emit α} (hm : m.LiesIn R) : m.silently.LiesIn R := by
  intro P
  have hresult := hm P
  unfold Emit.silently
  cases h : m P with
  | mk result code P' =>
    rw [h] at hresult
    cases result <;> exact hresult

theorem liesIn_instrs (is : List Instr) : (instrs span is).LiesIn R := fun _ => nofun

theorem liesIn_instr (i : Instr) : (instr span i).LiesIn R := fun _ => nofun

theorem liesIn_lift (hspan : R span.place) (hα : ∀ a : α, R.Holds a) (x : Except SemanticFault α) :
    (lift span x).LiesIn R := by
  cases x with
  | ok a => exact liesIn_pure (hα a)
  | error f => exact liesIn_fail hspan f

theorem liesIn_ruling (hspan : R span.place) (rule : Ruling) : (ruling span rule).LiesIn R :=
  (liesIn_lift hspan (by simp) rule).bind fun _ _ => (liesIn_instrs _).bind fun _ _ =>
    liesIn_pure (by simp)

theorem liesIn_word (hspan : R span.place) (n : Nat) (message : String) :
    (word span n message).LiesIn R := by
  unfold word
  split
  · exact liesIn_pure (by simp)
  · exact liesIn_fail hspan _

theorem liesIn_counted (hspan : R span.place) (n : Nat) (what : String) (i : UInt16 → Instr) :
    (counted span n what i).LiesIn R :=
  (liesIn_word hspan n _).bind fun _ _ => liesIn_instr _

theorem LiesIn.jumpOver {m : Emit α} (hm : m.LiesIn R) (hspan : R span.place)
    (jump : UInt16 → Instr) (more : Nat) : (jumpOver span jump more m).LiesIn R := by
  intro P
  have hresult := hm P
  unfold Emit.jumpOver
  cases h : m P with
  | mk result code P' =>
    rw [h] at hresult
    cases result with
    | error e => exact hresult
    | ok a =>
      by_cases hlt : code.size + more < UInt16.size
      · simpa [word, hlt, Pure.pure] using hresult
      · simpa [word, hlt, fail] using hspan

theorem liesIn_constantIndex (hspan : R span.place) (k : Constant) :
    (constantIndex span k).LiesIn R :=
  fun P => liesIn_word hspan (P.add k).1 _ (P.add k).2

theorem liesIn_constant (hspan : R span.place) (k : Constant) : (constant span k).LiesIn R :=
  (liesIn_constantIndex hspan k).bind fun _ _ => liesIn_instr _

theorem liesIn_int (hspan : R span.place) (i : Int64) : (int span i).LiesIn R := by
  unfold int
  split
  · exact liesIn_instr _
  · split
    · exact liesIn_instr _
    · exact liesIn_constant hspan _

theorem liesIn_value (hspan : R span.place) (v : Value) : (value span v).LiesIn R := by
  cases v with
  | null => exact liesIn_instr _
  | bool b => exact liesIn_instr _
  | int i => exact liesIn_int hspan i
  | object m => exact liesIn_fail hspan _
  | _ => exact liesIn_constant hspan _

theorem liesIn_getField (hspan : R span.place) (index : Nat) (name : String) :
    (getField span index name).LiesIn R :=
  (liesIn_word hspan index _).bind fun _ _ => (liesIn_constantIndex hspan _).bind fun _ _ =>
    liesIn_instr _

end Emit

open Emit

/-! ## Pieces -/

namespace Pieces

variable {p : Pieces}

theorem liesIn_pushText (hp : R p.span.place) (s : String) : (p.pushText s).LiesIn R :=
  (liesIn_constant hp _).bind fun _ _ => liesIn_pure (by simpa using hp)

theorem liesIn_flush (hp : R p.span.place) : p.flush.LiesIn R := by
  unfold flush
  split
  · exact liesIn_pushText (p := { p with pending := none }) hp _
  · exact liesIn_pure (by simpa using hp)

theorem liesIn_addText (hp : R p.span.place) (keep : Bool) (s : String) :
    (p.addText keep s).LiesIn R := by
  unfold addText
  split
  · exact liesIn_pure (by simpa using hp)
  · exact liesIn_pushText hp s

theorem liesIn_join (hp : R p.span.place) {span : Span} (hspan : R span.place) :
    (p.join span).LiesIn R := by
  refine (liesIn_flush hp).bind fun q _ => ?_
  split
  · exact (liesIn_constant hspan _).bind fun _ _ => liesIn_pure (by simp)
  · split
    · exact liesIn_pure (by simp)
    · exact (liesIn_counted hspan _ _ _).bind fun _ _ => liesIn_pure (by simp)

end Pieces

/-! ## Expressions -/

namespace Context

variable (c : Context) {span : Span}

theorem liesIn_fold {e : Expr} (he : R e.span.place) {m : Emit Ty} (hm : m.LiesIn R) :
    (c.fold e m).LiesIn R := by
  unfold fold
  split
  · exact hm.silently.bind fun _ _ => (liesIn_value he _).bind fun _ _ => liesIn_pure (by simp)
  · exact hm

theorem liesIn_literal (hspan : R span.place) (l : Literal) : (literal span l).LiesIn R := by
  cases l with
  | int i => exact (liesIn_int hspan i).bind fun _ _ => liesIn_pure (by simp)
  | bool b => exact (liesIn_instr _).bind fun _ _ => liesIn_pure (by simp)
  | null => exact (liesIn_instr _).bind fun _ _ => liesIn_pure (by simp)
  | _ => exact (liesIn_constant hspan _).bind fun _ _ => liesIn_pure (by simp)

theorem liesIn_name {x : Ident} (hx : R x.span.place) : (c.name x).LiesIn R := by
  unfold name
  split
  · exact (liesIn_instr _).bind fun _ _ => liesIn_pure (by simp)
  · exact liesIn_fail hx _

theorem liesIn_member (t : Ty) {field : Ident} (hfield : R field.span.place)
    (hspan : R span.place) : (c.member t field span).LiesIn R :=
  (liesIn_lift hfield (by simp) _).bind fun _ _ => (liesIn_getField hspan _ _).bind fun _ _ =>
    liesIn_pure (by simp)

theorem liesIn_call (t : Ty) {method : Ident} (hmethod : R method.span.place) (args : List Expr)
    (hspan : R span.place) : (c.call t method args span).LiesIn R :=
  (liesIn_lift hmethod (by simp) _).bind fun _ _ => (liesIn_lift hspan (by simp) _).bind fun _ _ =>
    liesIn_ruling hspan _

theorem liesIn_format (t : Ty) {format : Option FormatSpec} (hformat : R.Holds format) :
    (c.format t format).LiesIn R := by
  cases format with
  | none => exact liesIn_pure (by simp)
  | some spec =>
    have hspec : R spec.span.place := by simpa using hformat
    exact (liesIn_lift hspec (by simp) _).bind fun _ _ => liesIn_instr _

theorem place_lastSpan : (e : Expr) → R.Holds e → R (c.lastSpan e).place
  | .paren e span, h => by
    obtain ⟨hspan, he⟩ := (Region.holds_paren e span).1 h
    unfold lastSpan
    split
    · exact hspan
    · exact place_lastSpan e he
  | .literal .., h | .name .., h | .member .., h | .call .., h | .unary .., h | .binary .., h
  | .ternary .., h | .interpolated .., h => h.span

theorem place_holeSpan {e : Expr} (he : R.Holds e) {format : Option FormatSpec}
    (hformat : R.Holds format) : R (c.holeSpan e format).place := by
  cases format with
  | none => exact c.place_lastSpan e he
  | some spec => simpa [holeSpan] using hformat

mutual

/-- The compilation of an expression stops, if it does, at a place in the expression. -/
theorem liesIn_infer : (e : Expr) → R.Holds e → (c.infer e).LiesIn R
  | .literal l span, h => liesIn_literal ((Region.holds_literal _ _).1 h) l
  | .name x, h => c.liesIn_name ((Region.holds_name x).1 h)
  | .member e field span, h => by
    obtain ⟨hspan, hfield, he⟩ := (Region.holds_member _ _ _).1 h
    exact (liesIn_infer e he).bind fun t _ => c.liesIn_member t hfield hspan
  | .call e method args span, h => by
    obtain ⟨hspan, hmethod, he, -⟩ := (Region.holds_call _ _ _ _).1 h
    exact c.liesIn_fold hspan ((liesIn_infer e he).bind fun t _ =>
      c.liesIn_call t hmethod args hspan)
  | .unary op e span, h => by
    obtain ⟨hspan, he⟩ := (Region.holds_unary _ _ _).1 h
    exact c.liesIn_fold hspan ((liesIn_infer e he).bind fun _ _ => liesIn_ruling hspan _)
  | .binary op l r span, h => by
    obtain ⟨hspan, hl, hr⟩ := (Region.holds_binary _ _ _ _).1 h
    by_cases hop : op = .coalesce
    · subst hop
      refine c.liesIn_fold hspan ((liesIn_infer l hl).bind fun a _ => ?_)
      have hpop : (instr span .pop).LiesIn R := liesIn_instr .pop
      have hright := hpop.bind fun _ _ => liesIn_infer r hr
      exact (hright.jumpOver hspan _ 0).bind fun b _ => liesIn_lift hspan (by simp) _
    · rw [c.infer_binary l r span hop]
      exact c.liesIn_fold hspan ((liesIn_infer l hl).bind fun a _ =>
        (liesIn_infer r hr).bind fun b _ => liesIn_ruling hspan _)
  | .ternary e t f span, h => by
    obtain ⟨hspan, he, ht, hf⟩ := (Region.holds_ternary _ _ _ _).1 h
    refine c.liesIn_fold hspan ((liesIn_infer e he).bind fun _ _ => ?_)
    refine (liesIn_lift he.span (by simp) _).bind fun _ _ => ?_
    refine ((liesIn_infer t ht).jumpOver hspan _ _).bind fun a _ => ?_
    refine ((liesIn_infer f hf).jumpOver hspan _ 0).bind fun b _ => ?_
    exact liesIn_lift hspan (by simp) _
  | .interpolated parts span, h => by
    obtain ⟨hspan, hparts⟩ := (Region.holds_interpolated _ _).1 h
    refine c.liesIn_fold hspan ((liesIn_inferSegments hspan parts hparts).bind fun p hp => ?_)
    exact Pieces.liesIn_join ((Region.holds_pieces p).1 hp) hspan
  | .paren e span, h => by
    obtain ⟨hspan, he⟩ := (Region.holds_paren _ _).1 h
    exact c.liesIn_fold hspan (liesIn_infer e he)

theorem liesIn_inferSegment {p : Pieces} (hp : R p.span.place) : (s : Segment) → R.Holds s →
    (c.inferSegment p s).LiesIn R
  | .text s, _ => Pieces.liesIn_addText hp _ s
  | .hole e format span, h => by
    obtain ⟨-, he, hformat⟩ := (Region.holds_hole _ _ _).1 h
    have hhole := (liesIn_infer e he).bind fun t _ => c.liesIn_format t hformat
    have hafter := c.place_holeSpan he hformat
    simp only [Context.inferSegment]
    split
    · exact hhole.silently.bind fun _ _ => Pieces.liesIn_addText hafter _ _
    · refine (Pieces.liesIn_flush hp).bind fun q _ => hhole.bind fun _ _ => liesIn_pure ?_
      simpa using hafter

theorem liesIn_inferSegments {p : Pieces} (hp : R p.span.place) : (segments : List Segment) →
    R.Holds segments → (c.inferSegmentsOnto p [] segments).LiesIn R
  | [], _ => liesIn_pure (by simpa using hp)
  | s :: rest, h => by
    rw [inferSegmentsOnto_cons]
    exact (liesIn_inferSegment hp s h.head).bind fun q hq =>
      liesIn_inferSegments ((Region.holds_pieces q).1 hq) rest h.tail

end

end Context

end TypedTemplate
