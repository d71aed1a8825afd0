-- SUMMARY: What a successful emission is made of.
import TypedTemplate.Compile.Expr
import TypedTemplate.Proofs.Code.Constants

/-!
# Emissions

An emission that succeeds is the emissions of its steps, one behind the other. Each
kind of step has one lemma that says when it succeeds and with what code.
-/

namespace TypedTemplate

namespace Emit

variable {α β : Type} {P P' : Pool} {code : Code} {span : Span}

/-! ## Successful emissions -/

theorem bind_ok {m : Emit α} {next : α → Emit β} {b : β} :
    (m >>= next) P = ⟨.ok b, code, P'⟩ ↔
      ∃ a c₁ P₁ c₂, m P = ⟨.ok a, c₁, P₁⟩ ∧ next a P₁ = ⟨.ok b, c₂, P'⟩ ∧ code = c₁ ++ c₂ := by
  simp only [bind]
  constructor
  · intro h
    split at h
    · simp at h
    · rename_i a c₁ P₁ hm
      simp only [Emission.mk.injEq] at h
      obtain ⟨hresult, hcode, hpool⟩ := h
      refine ⟨a, c₁, P₁, (next a P₁).code, hm, ?_, hcode.symm⟩
      rw [← hresult, ← hpool]
  · rintro ⟨a, c₁, P₁, c₂, hm, hnext, rfl⟩
    simp [hm, hnext]

theorem pure_ok {a b : α} :
    (pure a : Emit α) P = ⟨.ok b, code, P'⟩ ↔ b = a ∧ code = [] ∧ P' = P := by
  simp only [pure, Emission.mk.injEq, Except.ok.injEq]
  exact ⟨fun ⟨h, h', h''⟩ => ⟨h.symm, h'.symm, h''.symm⟩,
    fun ⟨h, h', h''⟩ => ⟨h.symm, h'.symm, h''.symm⟩⟩

theorem fail_ok {fault : SemanticFault} {a : α} :
    (fail fault span : Emit α) P = ⟨.ok a, code, P'⟩ ↔ False := by
  simp [fail]

theorem instrs_ok {is : List Instr} {a : PUnit} :
    instrs span is P = ⟨.ok a, code, P'⟩ ↔
      code = is.map (fun i => ⟨span.line, i⟩) ∧ P' = P := by
  simp only [instrs, Emission.mk.injEq, true_and]
  exact ⟨fun ⟨h, h'⟩ => ⟨h.symm, h'.symm⟩, fun ⟨h, h'⟩ => ⟨h.symm, h'.symm⟩⟩

theorem instr_ok {i : Instr} {a : PUnit} :
    instr span i P = ⟨.ok a, code, P'⟩ ↔ code = [⟨span.line, i⟩] ∧ P' = P := by
  have h : instr span i = instrs span [i] := rfl
  rw [h]
  exact instrs_ok

theorem lift_ok {x : Except SemanticFault α} {a : α} :
    lift span x P = ⟨.ok a, code, P'⟩ ↔ x = .ok a ∧ code = [] ∧ P' = P := by
  cases x with
  | error e => simp [lift, fail_ok]
  | ok b => simp [lift, pure_ok, eq_comm]

theorem ruling_ok {rule : Ruling} {t : Ty} :
    ruling span rule P = ⟨.ok t, code, P'⟩ ↔
      ∃ is, rule = .ok (is, t) ∧ code = is.map (fun i => ⟨span.line, i⟩) ∧ P' = P := by
  simp only [ruling, bind_ok, lift_ok, instrs_ok, pure_ok]
  constructor
  · rintro ⟨⟨is, u⟩, _, _, _, ⟨hrule, rfl, rfl⟩, ⟨_, _, _, _, ⟨rfl, rfl⟩, ⟨rfl, rfl, rfl⟩, rfl⟩, rfl⟩
    exact ⟨is, hrule, by simp, rfl⟩
  · rintro ⟨is, hrule, rfl, rfl⟩
    exact ⟨(is, t), [], P', _, ⟨hrule, rfl, rfl⟩,
      ⟨⟨⟩, _, P', [], ⟨rfl, rfl⟩, ⟨rfl, rfl, rfl⟩, rfl⟩, by simp⟩

theorem word_ok {n : Nat} {message : String} {w : UInt16} :
    word span n message P = ⟨.ok w, code, P'⟩ ↔
      n < UInt16.size ∧ w = UInt16.ofNat n ∧ code = [] ∧ P' = P := by
  unfold word
  split
  · simp [pure_ok, *]
  · simp [fail_ok, *]

theorem counted_ok {n : Nat} {what : String} {i : UInt16 → Instr} {a : PUnit} :
    counted span n what i P = ⟨.ok a, code, P'⟩ ↔
      n < UInt16.size ∧ code = [⟨span.line, i (UInt16.ofNat n)⟩] ∧ P' = P := by
  simp only [counted, bind_ok, word_ok, instr_ok]
  constructor
  · rintro ⟨_, _, _, _, ⟨hn, rfl, rfl, rfl⟩, ⟨rfl, rfl⟩, rfl⟩
    exact ⟨hn, rfl, rfl⟩
  · rintro ⟨hn, rfl, rfl⟩
    exact ⟨_, [], P', _, ⟨hn, rfl, rfl, rfl⟩, ⟨rfl, rfl⟩, rfl⟩

theorem silently_ok {m : Emit α} {a : α} :
    m.silently P = ⟨.ok a, code, P'⟩ ↔ code = [] ∧ ∃ c, m P = ⟨.ok a, c, P'⟩ := by
  unfold silently
  split <;> rename_i h <;> simp [h, eq_comm, and_assoc, and_comm]

theorem jumpOver_ok {jump : UInt16 → Instr} {more : Nat} {body : Emit α} {a : α} :
    jumpOver span jump more body P = ⟨.ok a, code, P'⟩ ↔
      ∃ c, body P = ⟨.ok a, c, P'⟩ ∧ c.size + more < UInt16.size ∧
        code = ⟨span.line, jump (UInt16.ofNat (c.size + more))⟩ :: c := by
  unfold jumpOver
  cases hbody : body P with
  | mk result c P₁ =>
    cases result with
    | error e => simp
    | ok b =>
      simp only [word]
      by_cases hlt : c.size + more < UInt16.size
      · simp [hlt, pure, eq_comm, and_comm, and_assoc]
      · simp only [hlt, if_false, fail, Emission.mk.injEq, reduceCtorEq, false_and, false_iff]
        rintro ⟨_, ⟨-, rfl, -⟩, hc, -⟩
        exact hlt hc

/-- A constant that code reads is in the pool. -/
theorem constantIndex_ok {c : Constant} {w : UInt16} :
    constantIndex span c P = ⟨.ok w, code, P'⟩ ↔
      (P.add c).1 < UInt16.size ∧ w = UInt16.ofNat (P.add c).1 ∧ code = [] ∧ P' = (P.add c).2 :=
  word_ok

theorem constant_ok {c : Constant} {a : PUnit} :
    constant span c P = ⟨.ok a, code, P'⟩ ↔
      (P.add c).1 < UInt16.size ∧
        code = [⟨span.line, .constant (UInt16.ofNat (P.add c).1)⟩] ∧ P' = (P.add c).2 := by
  simp only [constant, bind_ok, constantIndex_ok, instr_ok]
  constructor
  · rintro ⟨_, _, _, _, ⟨hn, rfl, rfl, rfl⟩, ⟨rfl, rfl⟩, rfl⟩
    exact ⟨hn, rfl, rfl⟩
  · rintro ⟨hn, rfl, rfl⟩
    exact ⟨_, [], _, _, ⟨hn, rfl, rfl, rfl⟩, ⟨rfl, rfl⟩, rfl⟩

theorem getField_ok {index : Nat} {name : String} {a : PUnit} :
    getField span index name P = ⟨.ok a, code, P'⟩ ↔
      index < UInt16.size ∧ (P.add (.str name)).1 < UInt16.size ∧
        code = [⟨span.line,
          .getField (UInt16.ofNat index) (UInt16.ofNat (P.add (.str name)).1)⟩] ∧
        P' = (P.add (.str name)).2 := by
  simp only [getField, bind_ok, word_ok, constantIndex_ok, instr_ok]
  constructor
  · rintro ⟨_, _, _, _, ⟨hi, rfl, rfl, rfl⟩, ⟨_, _, _, _, ⟨hn, rfl, rfl, rfl⟩, ⟨rfl, rfl⟩, rfl⟩, rfl⟩
    exact ⟨hi, hn, rfl, rfl⟩
  · rintro ⟨hi, hn, rfl, rfl⟩
    exact ⟨_, [], P, _, ⟨hi, rfl, rfl, rfl⟩, ⟨_, [], _, _, ⟨hn, rfl, rfl, rfl⟩, ⟨rfl, rfl⟩, rfl⟩, rfl⟩

end Emit

namespace Context

variable (c : Context)

/-! ## Emissions of the compiler -/

theorem inferSegmentsOnto_out (p : Pieces) (out : Code) (segments : List Segment) (P : Pool) :
    c.inferSegmentsOnto p out segments P =
      let e := c.inferSegmentsOnto p [] segments P
      ⟨e.result, out.reverse ++ e.code, e.pool⟩ := by
  induction segments generalizing p out P with
  | nil => simp [inferSegmentsOnto]
  | cons s rest ih =>
    simp only [inferSegmentsOnto]
    cases h : c.inferSegment p s P with
    | mk result code P₁ =>
      cases result with
      | error e => simp
      | ok q =>
        simp only [List.reverseAux_eq]
        rw [ih q (code.reverse ++ out), ih q (code.reverse ++ [])]
        simp

/-- Segments are pushed one behind the other. -/
theorem inferSegmentsOnto_cons (p : Pieces) (s : Segment) (rest : List Segment) :
    c.inferSegmentsOnto p [] (s :: rest) =
      (c.inferSegment p s >>= fun q => c.inferSegmentsOnto q [] rest) := by
  funext P
  simp only [inferSegmentsOnto, bind]
  cases h : c.inferSegment p s P with
  | mk result code P₁ =>
    cases result with
    | error e => simp
    | ok q =>
      have hout := c.inferSegmentsOnto_out q (code.reverseAux []) rest P₁
      simpa [List.reverseAux_eq] using hout

theorem inferSegmentsOnto_nil (p : Pieces) : c.inferSegmentsOnto p [] [] = pure p := rfl

theorem infer_binary {op : BinaryOp} (l r : Expr) (span : Span) (hop : op ≠ .coalesce) :
    c.infer (.binary op l r span) = c.fold (.binary op l r span) (do
      let a ← c.infer l
      let b ← c.infer r
      Emit.ruling span (Rule.binary c.registry c.options op a b)) := by
  cases op <;> first | rfl | exact absurd rfl hop

end Context

end TypedTemplate
