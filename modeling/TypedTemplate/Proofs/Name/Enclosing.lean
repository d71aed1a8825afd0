-- SUMMARY: The namespaces around a spelled name are the paths before its separators.
import TypedTemplate.Name.Qualified
import TypedTemplate.Proofs.Template.Written

/-!
# Enclosing namespaces

A name is cut at the separators outside of its brackets. Where a spelled name starts with a path
and goes on with a separator, the path has closed all its brackets, so the cut goes through there
and the path is one of the namespaces around the name.
-/

namespace TypedTemplate.QualifiedName

open Spelling

variable {depth : Nat} {fresh : Bool} {part cs rest : List Char}

theorem splitFrom_ne_nil (depth : Nat) (part cs : List Char) : splitFrom depth part cs ≠ [] := by
  fun_induction splitFrom depth part cs <;> simp_all

theorem splitFrom_nil (depth : Nat) (part : List Char) :
    splitFrom depth part [] = [part.reverse] := rfl

@[simp] theorem splitFrom_open (depth : Nat) (part cs : List Char) :
    splitFrom depth part ('<' :: cs) = splitFrom (depth + 1) ('<' :: part) cs := rfl

@[simp] theorem splitFrom_close (depth : Nat) (part cs : List Char) :
    splitFrom depth part ('>' :: cs) = splitFrom (depth - 1) ('>' :: part) cs := rfl

theorem splitFrom_separator (depth : Nat) (part cs : List Char) :
    splitFrom depth part (':' :: ':' :: cs) =
      if depth = 0 then part.reverse :: splitFrom 0 [] cs
      else splitFrom depth (':' :: ':' :: part) cs := rfl

theorem splitFrom_cons {c : Char} (hc : c ≠ ':' ∧ c ≠ '<' ∧ c ≠ '>') (depth : Nat)
    (part cs : List Char) : splitFrom depth part (c :: cs) = splitFrom depth (c :: part) cs := by
  simp [splitFrom, hc]

/-- The parts, joined, are the text. -/
theorem intercalate_splitFrom (depth : Nat) (part cs : List Char) :
    [':', ':'].intercalate (splitFrom depth part cs) = part.reverse ++ cs := by
  fun_induction splitFrom depth part cs with
  | case1 part rest ih =>
    obtain ⟨p, ps, hps⟩ := List.exists_cons_of_ne_nil (splitFrom_ne_nil 0 [] rest)
    rw [hps] at ih ⊢
    rw [List.intercalate_cons_cons, ih]
    simp
  | _ => simp_all

/-- A path is cut as it stands where a separator comes behind it. -/
theorem splitFrom_append (h : isPathFrom depth fresh cs = true) (part rest : List Char) :
    splitFrom depth part (cs ++ ':' :: ':' :: rest) =
      splitFrom depth part cs ++ splitFrom 0 [] rest := by
  fun_induction isPathFrom depth fresh cs generalizing part with
  | case2 depth fresh cs ih =>
    have hpath := (Bool.and_eq_true_iff.1 h).2
    simp only [List.cons_append, splitFrom_separator, ih hpath]
    -- a separator outside of brackets cuts, and one inside of them is text
    split
    · rename_i hdepth
      subst hdepth
      rw [ih hpath, List.cons_append]
    · rfl
  | _ => simp_all [splitFrom_nil, splitFrom_separator, splitFrom_cons]

/-- A path has no empty parts. -/
theorem ne_nil_of_mem_splitFrom (h : isPathFrom depth fresh cs = true)
    (hpart : part = [] → fresh = true ∧ depth = 0) : ∀ p ∈ splitFrom depth part cs, p ≠ [] := by
  fun_induction isPathFrom depth fresh cs generalizing part with
  | case2 depth fresh cs ih =>
    obtain ⟨hfresh, hpath⟩ := Bool.and_eq_true_iff.1 h
    rw [splitFrom_separator]
    split
    · rename_i hdepth
      subst hdepth
      refine List.forall_mem_cons.2 ⟨?_, ih hpath fun _ => ⟨rfl, rfl⟩⟩
      intro hnil
      simp [(hpart (List.reverse_eq_nil_iff.1 hnil)).1] at hfresh
    · exact ih hpath (by simp)
  | case4 depth fresh cs ih =>
    rw [splitFrom_open]
    exact ih (Bool.and_eq_true_iff.1 h).2 (by simp)
  | case5 depth fresh cs ih =>
    rw [splitFrom_cons (by decide)]
    exact ih (Bool.and_eq_true_iff.1 h).2 (by simp)
  | case6 depth fresh cs ih =>
    rw [splitFrom_close]
    exact ih (Bool.and_eq_true_iff.1 h).2 (by simp)
  | case7 depth fresh c cs hpair hcolon hopen hcomma hclose ih =>
    rw [splitFrom_cons ⟨hcolon, hopen, hclose⟩]
    exact ih (Bool.and_eq_true_iff.1 h).2 (by simp)
  | _ => simp_all [splitFrom_nil]

theorem dropSeparators_of_isPath {cs : List Char} (h : isPath cs = true) :
    dropSeparators cs = cs := by
  unfold dropSeparators
  split
  · simp [isPath, isPathFrom] at h
  · rfl

theorem toList_intercalate (ps : List (List Char)) :
    ("::".intercalate (ps.map String.ofList)).toList = [':', ':'].intercalate ps := by
  induction ps with
  | nil => rfl
  | cons p ps ih =>
    cases ps with
    | nil => simp
    | cons q qs =>
      simp only [List.map_cons] at ih ⊢
      rw [toList_path, ih, List.intercalate_cons_cons]
      simp

/-- A path before a separator is a namespace around the name. -/
theorem mem_enclosing {name ns rest : String} (hname : isPath name.toList = true)
    (hns : isPath ns.toList = true) (h : name = ns ++ "::" ++ rest) :
    ns ∈ (parse name).enclosing := by
  have hcs : name.toList = ns.toList ++ ':' :: ':' :: rest.toList := by
    rw [h]
    simp
  have hparts := splitFrom_append hns [] rest.toList
  have hne : ∀ p ∈ splitFrom 0 [] name.toList, p ≠ [] :=
    ne_nil_of_mem_splitFrom hname fun _ => ⟨rfl, rfl⟩
  rw [← hcs] at hparts
  obtain ⟨p, ps, hps⟩ := List.exists_cons_of_ne_nil (splitFrom_ne_nil 0 [] ns.toList)
  have hspaces : (parse name).namespaces =
      ((splitFrom 0 [] ns.toList).map String.ofList) ++
        ((splitFrom 0 [] rest.toList).map String.ofList).dropLast := by
    simp only [parse, dropSeparators_of_isPath hname]
    rw [List.filter_eq_self.2, hparts, List.map_append,
      List.dropLast_append_of_ne_nil (by simp [splitFrom_ne_nil])]
    intro x hx
    obtain ⟨q, hq, rfl⟩ := List.mem_map.1 (List.dropLast_subset _ hx)
    simpa using hne q hq
  refine List.mem_map.2 ⟨ps.length, ?_, ?_⟩
  · rw [hspaces, List.mem_range, List.length_append, List.length_map, hps, List.length_cons]
    omega
  · have hlength : ps.length + 1 = ((splitFrom 0 [] ns.toList).map String.ofList).length := by
      simp [hps]
    rw [hspaces, hlength, List.take_left, ← String.toList_inj, toList_intercalate,
      intercalate_splitFrom]
    rfl

end TypedTemplate.QualifiedName
