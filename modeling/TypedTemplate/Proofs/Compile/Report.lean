-- SUMMARY: No error in a body goes unreported, unless a binding mentions the name it binds.
import TypedTemplate.Proofs.Compile.Artifact

/-!
# Reported errors

A unit that compiles has no statement with an error. The one exception is a binding
whose value mentions the name bound: the name is poisoned by the very error that it
would report, so the error is taken for one that follows from another.
-/

namespace TypedTemplate

open Diagnostics

namespace SourceUnit

variable {u : SourceUnit} {r : Registry} {o : Options} {a : Artifact}

theorem faults_eq_nil (h : u.compile r o = .ok a) (hself : u.namesItself r = false) :
    u.faults r o = [] :=
  Compilation.faults_eq_nil (fun _ hs => namesItself_of_mem hself hs) (compile_eq_ok h).1

theorem faults_ne_nil (hself : u.namesItself r = true) : u.faults r o ≠ [] := by
  obtain ⟨s, hs, hs'⟩ := List.any_eq_true.1 hself
  exact Compilation.faults_ne_nil hs hs'

/-- A compilation that fails gives the diagnostics at its end, at least one of them an error. -/
theorem compile_eq_error_iff {ds : Diagnostics} :
    u.compile r o = .error ds ↔ (u.final r o).2.reverse = ds ∧ hasErrors ds = true := by
  rw [compile_eq]
  split
  · rename_i h
    rw [← hasErrors_reverse] at h
    constructor
    · intro herror
      cases herror
      exact ⟨rfl, h⟩
    · rintro ⟨rfl, -⟩
      rfl
  · rename_i h
    rw [← hasErrors_reverse] at h
    constructor
    · intro hok
      cases hok
    · rintro ⟨rfl, herrors⟩
      exact absurd herrors h

/-- A unit with an error in a statement does not compile, and an error is reported: the one in the
statement, unless that is the use of an unknown name. Exactly the units with a binding that mentions
itself may compile with an error in a statement. -/
theorem compile_reports (u : SourceUnit) (r : Registry) (o : Options) :
    (u.faults r o ≠ [] → u.namesItself r = false →
        ∃ ds, u.compile r o = .error ds ∧ hasErrors ds = true ∧
          ∀ e ∈ u.faults r o, .ofCompilationError e ∈ ds ∨ ∃ n, e.fault = .unknownVariable n) ∧
      ∀ a, u.compile r o = .ok a → (u.faults r o ≠ [] ↔ u.namesItself r = true) := by
  constructor
  · intro hfaults hself
    cases h : u.compile r o with
    | error ds =>
      obtain ⟨rfl, herrors⟩ := compile_eq_error_iff.1 h
      refine ⟨_, rfl, herrors, fun e he => ?_⟩
      exact (Compilation.mem_after he).imp_left List.mem_reverse.2
    | ok a => exact absurd (faults_eq_nil h hself) hfaults
  · refine fun a h => ⟨fun hfaults => ?_, faults_ne_nil⟩
    cases hself : u.namesItself r with
    | true => rfl
    | false => exact absurd (faults_eq_nil h hself) hfaults

/-- A unit with `let x = name;` before it returns. -/
def binding (name : String) : SourceUnit :=
  .ofFunction <| function [] "int" [
    .letBinding ⟨"x", ⟨2, 9, 1⟩⟩ (.name ⟨name, ⟨2, 13, 1⟩⟩) ⟨2, 5, 10⟩,
    .ret (.literal (.int 1) ⟨3, 12, 1⟩) ⟨3, 5, 9⟩]

theorem compile_reports_unknown :
    (binding "y").faults (.empty #[]) .standard ≠ [] ∧
      (binding "y").namesItself (.empty #[]) = false ∧
      ∃ ds, (binding "y").compile (.empty #[]) .standard = .error ds ∧ hasErrors ds = true ∧
        ∀ e ∈ (binding "y").faults (.empty #[]) .standard,
          .ofCompilationError e ∈ ds ∨ ∃ n, e.fault = .unknownVariable n := by
  have hfaults : (binding "y").faults (.empty #[]) .standard ≠ [] := by decide +kernel
  have hself : (binding "y").namesItself (.empty #[]) = false := by decide
  exact ⟨hfaults, hself, (compile_reports _ _ _).1 hfaults hself⟩

/-- `let x = x;` compiles, although `x` is unknown where it is mentioned. -/
theorem compile_hides_unknown :
    (binding "x").faults (.empty #[]) .standard = [⟨.unknownVariable "x", ⟨2, 13, 1⟩⟩] ∧
      ∃ a, (binding "x").compile (.empty #[]) .standard = .ok a := by
  have hok : ((binding "x").compile (.empty #[]) .standard).isOk = true := by decide +kernel
  refine ⟨by decide +kernel, ?_⟩
  cases h : (binding "x").compile (.empty #[]) .standard with
  | error ds =>
    rw [h] at hok
    cases hok
  | ok a => exact ⟨a, rfl⟩

end SourceUnit

end TypedTemplate
