-- SUMMARY: Every function of an artifact has well-formed code.
import TypedTemplate.Proofs.Compile.Artifact
import TypedTemplate.Proofs.Compile.Formed

/-!
# Compiled chunks

A body without faults is a row of statements whose code is formed. Each statement ends
with an instruction of its own, so its jumps stay inside it, and the first `return` ends
the block that control never leaves. So the chunk of every compiled function is well
formed, unless a binding mentions itself.
-/

namespace TypedTemplate

open Diagnostics

namespace Code

variable {a b : Code} {p : PlacedInstr} {Q : Pool} {slots line : Nat}

/-- Formed code with an instruction behind it keeps its jumps inside. -/
theorem Formed.jumpsInside (h : a.Formed Q slots) (hp : p.instr.distance? = none) :
    Code.JumpsInside (a ++ [p]) :=
  h.lands [p] (by simp) (jumpsInside_cons hp trivial)

theorem Returns.prepend (ha : a.JumpsInside) (hb : b.Returns) : (a ++ b).Returns := by
  obtain ⟨before, tail, p, hret, rfl, hblock⟩ := hb
  refine ⟨a ++ before, tail, p, hret, by simp, ?_⟩
  rw [List.append_assoc]
  exact ha.append hblock

/-- Formed code that ends with a return, and whatever follows. -/
theorem Formed.returns (h : a.Formed Q slots) (hret : p.instr = .ret) (b : Code) :
    Code.Returns (a ++ p :: b) :=
  ⟨a, b, p, hret, rfl, h.jumpsInside (by rw [hret]; rfl)⟩

end Code

namespace Body

variable {r : Registry} {o : Options} {declared : Ty} {b : Body} {Q : Pool}

/-- The code `new` of statements jumps inside itself, its operands name what they should, and it
returns if one of the statements does. -/
structure Intact (Q : Pool) (slots : Nat) (returns : Bool) (new : Code) : Prop where
  jumps : new.JumpsInside
  refers : new.Refers Q slots
  returns : returns = true → new.Returns

/-- The code of a binding without a fault. -/
theorem formed_letBinding (hQ : Q.Consistent) {scope scope' : Scope} {x : Ident} {value : Expr} {t : Ty}
    {slot : Nat} {code : Code} {P P' : Pool} (line : Nat)
    (hinfer : Context.infer ⟨r, o, scope⟩ value P = ⟨.ok t, code, P'⟩)
    (hdeclare : scope.declare x.name t x.span = .ok (slot, scope')) (hin : P'.Within Q) :
    Code.JumpsInside (code ++ [⟨line, .setLocal (UInt8.ofNat slot)⟩]) ∧
      Code.Refers Q scope'.frameSize (code ++ [⟨line, .setLocal (UInt8.ofNat slot)⟩]) := by
  have hformed := (Context.formed_infer ⟨r, o, scope⟩ hQ value P P' t code hinfer).2 hin
  have hsize : scope'.frameSize = scope.frameSize + 1 := Scope.frameSize_declare hdeclare
  have hslot : slot = scope.frameSize := (Scope.declare_eq_ok hdeclare).2.1
  have hgrows : scope.frameSize ≤ scope'.frameSize := by omega
  refine ⟨hformed.jumpsInside rfl, (hformed.refers.mono hgrows).append ?_⟩
  refine Code.refers_cons.2 ⟨?_, by simp [Code.Refers]⟩
  have hle : (UInt8.ofNat slot).toNat ≤ slot := by simpa using Nat.mod_le slot 256
  change (UInt8.ofNat slot).toNat < scope'.frameSize
  omega

/-- The code of a return without a fault ends with the instruction that returns. -/
theorem formed_ret (hQ : Q.Consistent) {c : Context} {value : Expr} {span : Span} {code : Code}
    {P P' : Pool} {a : PUnit} (hret : Body.ret c declared value span P = ⟨.ok a, code, P'⟩)
    (hin : P'.Within Q) :
    ∃ before, code = before ++ [⟨span.line, .ret⟩] ∧ Code.Formed Q c.scope.frameSize before := by
  obtain ⟨t, c₁, is, hinfer, hrule, rfl⟩ := ret_ok hret
  obtain ⟨before, rfl, hplain⟩ := Rule.result_eq hrule
  have hformed := (Context.formed_infer c hQ value P P' t c₁ hinfer).2 hin
  exact ⟨c₁ ++ Code.on span.line before, by simp [Code.on], hformed.append (Code.formed_on hplain)⟩

/-- Statements without faults leave intact code. -/
theorem exists_intact (hQ : Q.Consistent) {stmts : List Stmt} (hfaults : b.faults r o declared stmts = [])
    (hin : (b.run r o declared stmts).pool.Within Q) :
    ∃ new : Code, (b.run r o declared stmts).code = new.reverse ++ b.code ∧
      Intact Q (b.run r o declared stmts).scope.frameSize (stmts.any (·.isReturn)) new := by
  induction stmts generalizing b with
  | nil => exact ⟨[], rfl, trivial, by simp [Code.Refers], by simp⟩
  | cons s ss ih =>
    simp only [faults, List.append_eq_nil_iff, Option.toList_eq_nil_iff] at hfaults
    obtain ⟨hfault, hfaults⟩ := hfaults
    obtain ⟨rest, hcode, hrest⟩ := ih hfaults hin
    have hleads : (b.step r o declared s).Leads (b.run r o declared (s :: ss)) := leads_run ss
    have hin₁ := hleads.pool.within.trans hin
    have hsize₁ := hleads.size
    change (b.run r o declared (s :: ss)).code = _ at hcode
    cases s with
    | letBinding x value span =>
      obtain ⟨t, code, P, slot, scope, hinfer, hdeclare⟩ := fault?_letBinding hfault
      rw [step_let hinfer hdeclare] at hcode hin₁ hsize₁
      obtain ⟨hjumps, hrefers⟩ := formed_letBinding hQ span.line hinfer hdeclare hin₁
      refine ⟨code ++ [⟨span.line, .setLocal (UInt8.ofNat slot)⟩] ++ rest, ?_, ?_, ?_, ?_⟩
      · rw [hcode]
        simp
      · exact hjumps.append hrest.jumps
      · exact (hrefers.mono hsize₁).append hrest.refers
      · intro hreturns
        exact (hrest.returns (by simpa [Stmt.isReturn] using hreturns)).prepend hjumps
    | ret value span =>
      obtain ⟨code, P, hret⟩ := fault?_ret hfault
      rw [step_ret hret] at hcode hin₁ hsize₁
      obtain ⟨before, rfl, hbefore⟩ := formed_ret hQ hret hin₁
      refine ⟨before ++ [⟨span.line, .ret⟩] ++ rest, ?_, ?_, ?_, ?_⟩
      · rw [hcode]
        simp
      · exact (hbefore.jumpsInside rfl).append hrest.jumps
      · refine (Code.Refers.append (hbefore.refers.mono hsize₁) ?_).append hrest.refers
        exact Code.refers_cons.2 ⟨trivial, by simp [Code.Refers]⟩
      · intro _
        rw [List.append_assoc]
        exact hbefore.returns rfl rest

end Body

theorem exists_of_mem_right {α β : Type} {R : α → β → Prop} {as : List α} {bs : List β} {b : β}
    (h : List.Forall₂ R as bs) (hb : b ∈ bs) : ∃ a ∈ as, R a b := by
  induction h with
  | nil => simp at hb
  | cons hab _ ih =>
    rcases List.mem_cons.1 hb with rfl | hb
    · exact ⟨_, List.mem_cons_self, hab⟩
    · obtain ⟨a, ha, hab⟩ := ih hb
      exact ⟨a, List.mem_cons_of_mem _ ha, hab⟩

/-- A function compiled without errors has well-formed code. -/
theorem Compilation.Makes.wellFormed {r : Registry} {o : Options} {Q : Pool} {s : Signature}
    {f : CompiledFunction} (h : Makes r o Q s f) (hQ : Q.Consistent) (hself : s.namesItself = false) :
    f.chunk.WellFormed Q f.localCount := by
  obtain ⟨pool, ds, rfl, hin, herrors⟩ := h
  have hfaults := Signature.faults_eq_nil hself herrors
  have hreturns := (Signature.hasErrors_of_compile herrors).1
  rw [Signature.compile_eq] at hin ⊢
  obtain ⟨new, hcode, hnew⟩ := Body.exists_intact hQ hfaults hin
  have hbody : ((s.body pool ds).run r o s.result.type s.decl.body.stmts).code.reverse = new := by
    rw [hcode]
    simp [Signature.body, Body.start]
  simp only [hbody]
  exact Chunk.wellFormed_toChunk hnew.jumps hnew.refers (hnew.returns hreturns)

namespace SourceUnit

variable {u : SourceUnit} {r : Registry} {o : Options} {a : Artifact}

/-- **Compiled code is well formed.** When a unit compiles and no binding in it mentions itself, the
code of every function reads as whole instructions up to its end, its jumps lead to instructions,
its operands name constants, strings and locals that are there, each byte has a line, and control
comes to a return before it comes to the end. -/
theorem compile_wellFormed (h : u.compile r o = .ok a) (hself : u.namesItself r = false) :
    ∀ t ∈ a.types, ∀ f ∈ t.functions, f.chunk.WellFormed a.pool f.localCount := by
  intro t ht f hf
  obtain ⟨-, hpool, htypes⟩ := compile_eq_ok h
  obtain ⟨ts, hts, hmakesType⟩ := exists_of_mem_right htypes ht
  obtain ⟨s, hs, hmakes⟩ := exists_of_mem_right hmakesType.2 hf
  have hmem : s ∈ u.registered r := List.mem_flatMap.2 ⟨ts, hts, hs⟩
  exact hmakes.wellFormed hpool (namesItself_of_mem hself hmem)

/-- A function that takes 0 for its argument when that is 1, in a binding it returns. -/
def choice : SourceUnit :=
  let x : Expr := .name ⟨"x", ⟨2, 13, 1⟩⟩
  let test : Expr := .binary .equal x (.literal (.int 1) ⟨2, 18, 1⟩) ⟨2, 13, 6⟩
  .ofFunction <| function [("x", "int")] "int" [
    .letBinding ⟨"y", ⟨2, 9, 1⟩⟩ (.ternary test (.literal (.int 0) ⟨2, 22, 1⟩) x ⟨2, 13, 14⟩)
      ⟨2, 5, 23⟩,
    .ret (.name ⟨"y", ⟨3, 12, 1⟩⟩) ⟨3, 5, 9⟩]

/-- The code of the choice has two jumps: by 4 bytes to the other number, and by 2 over that. -/
theorem compile_wellFormed_choice :
    ∃ a f, choice.compile (.empty #[]) .standard = .ok a ∧
      choice.namesItself (.empty #[]) = false ∧ a.function? "M::T" "F" = some f ∧
      f.chunk.bytes = [8, 0, 6, 38, 42, 0, 4, 5, 41, 0, 2, 8, 0, 9, 1, 8, 1, 44] ∧
      f.chunk.WellFormed a.pool f.localCount := by
  have hself : choice.namesItself (.empty #[]) = false := by decide
  have hok : ((choice.compile (.empty #[]) .standard).toOption.bind fun a =>
      (a.function? "M::T" "F").map fun f => f.chunk.bytes) =
      some [8, 0, 6, 38, 42, 0, 4, 5, 41, 0, 2, 8, 0, 9, 1, 8, 1, 44] := by decide +kernel
  obtain ⟨a, ha, hf⟩ := Option.bind_eq_some_iff.1 hok
  obtain ⟨f, hf, hbytes⟩ := Option.map_eq_some_iff.1 hf
  have hcompile : choice.compile (.empty #[]) .standard = .ok a := Value.toOption_eq_some ha
  obtain ⟨t, ht, hft⟩ := Option.bind_eq_some_iff.1 hf
  exact ⟨a, f, hcompile, hself, hf, hbytes, compile_wellFormed hcompile hself t
    (List.mem_of_find?_eq_some ht) f (List.mem_of_find?_eq_some hft)⟩

end SourceUnit

end TypedTemplate
