-- SUMMARY: A spelled name is split without loss, and its parts find its type again in a registry.
import TypedTemplate.Proofs.Name.Enclosing
import TypedTemplate.Proofs.Typing.Closure

/-!
# Splitting names

The separators of a name are looked at three times: by the spelling, which accepts a name, by the
split, which counts brackets, and by the search in a registry, which puts the parts together again.
Here the three agree. No part of a spelled name has a separator outside of its brackets, the parts
in a row are the name, and a type that is entered under the name is found by its last part
wherever the namespaces before it are used.
-/

namespace TypedTemplate

namespace QualifiedName

open Spelling

/-- There is a separator in the text at which no bracket is open. -/
def HasSeparator (cs : List Char) : Prop :=
  ∃ before after, cs = before ++ ':' :: ':' :: after ∧ before.count '<' ≤ before.count '>'

/-! ## One more character -/

theorem not_hasSeparator_nil : ¬ HasSeparator [] := by
  rintro ⟨before, after, h, -⟩
  simp at h

/-- A separator ends with a colon. -/
theorem HasSeparator.of_concat {cs : List Char} {c : Char} (h : HasSeparator (cs ++ [c])) (hc : c ≠ ':') :
    HasSeparator cs := by
  obtain ⟨before, after, hsplit, hcount⟩ := h
  rcases List.eq_nil_or_concat after with rfl | ⟨after, d, rfl⟩
  · have hlast : cs ++ [c] = (before ++ [':']) ++ [':'] := by simpa using hsplit
    exact absurd (List.append_inj_right' hlast rfl) (by simpa using hc)
  · refine ⟨before, after, ?_, hcount⟩
    have hlast : cs ++ [c] = (before ++ ':' :: ':' :: after) ++ [d] := by simpa using hsplit
    exact List.append_inj_left' hlast rfl

/-- Behind a text that ends with no colon, a new separator is itself the only new one. -/
theorem HasSeparator.of_separator {cs : List Char} (h : HasSeparator (cs ++ [':', ':']))
    (hlast : cs.getLast? ≠ some ':') : HasSeparator cs ∨ cs.count '<' ≤ cs.count '>' := by
  obtain ⟨before, after, hsplit, hcount⟩ := h
  rcases List.eq_nil_or_concat after with rfl | ⟨after, d, rfl⟩
  · obtain rfl := List.append_inj_left' hsplit rfl
    exact .inr hcount
  rcases List.eq_nil_or_concat after with rfl | ⟨after, e, rfl⟩
  · have hends : cs ++ [':', ':'] = (before ++ [':']) ++ [':', d] := by simpa using hsplit
    rw [List.append_inj_left' hends rfl] at hlast
    simp at hlast
  · refine .inl ⟨before, after, ?_, hcount⟩
    have hends : cs ++ [':', ':'] = (before ++ ':' :: ':' :: after) ++ [e, d] := by
      simpa using hsplit
    exact List.append_inj_left' hends rfl

/-- The current part of a split, whose characters are held in reverse, where a path goes on. As many
brackets are open in it as the depth says, and a colon stands at its end only where a new segment
is due. -/
structure Unsplit (depth : Nat) (fresh : Bool) (part : List Char) : Prop where
  whole : ¬ HasSeparator part.reverse
  open_brackets : part.count '>' + depth = part.count '<'
  colon : part.head? = some ':' → fresh = true

namespace Unsplit

variable {depth depth' : Nat} {fresh fresh' : Bool} {part : List Char}

theorem start : Unsplit 0 true [] := ⟨not_hasSeparator_nil, rfl, fun _ => rfl⟩

/-- A character that is no colon joins the part. -/
theorem cons {c : Char} (h : Unsplit depth fresh part) (hc : c ≠ ':')
    (hdepth : (c :: part).count '>' + depth' = (c :: part).count '<') :
    Unsplit depth' fresh' (c :: part) := by
  refine ⟨?_, hdepth, fun hhead => absurd (Option.some.inj hhead) hc⟩
  rw [List.reverse_cons]
  exact fun hsep => h.whole (hsep.of_concat hc)

/-- A separator between brackets joins the part. -/
theorem separator (h : Unsplit depth false part) (hdepth : depth ≠ 0) :
    Unsplit depth true (':' :: ':' :: part) := by
  refine ⟨fun hsep => ?_, by simpa using h.open_brackets, fun _ => rfl⟩
  have hends : (':' :: ':' :: part).reverse = part.reverse ++ [':', ':'] := by simp
  have hlast : part.reverse.getLast? ≠ some ':' := by
    intro hcolon
    have hfresh := h.colon (by simpa using hcolon)
    cases hfresh
  rw [hends] at hsep
  rcases hsep.of_separator hlast with hsep | hcount
  · exact h.whole hsep
  · have hopen := h.open_brackets
    rw [List.count_reverse, List.count_reverse] at hcount
    omega

end Unsplit

/-! ## The parts -/

/-- No part of a path has a separator outside of brackets. -/
theorem not_hasSeparator_of_mem_splitFrom {depth : Nat} {fresh : Bool} {part cs : List Char}
    (h : isPathFrom depth fresh cs = true) (hpart : Unsplit depth fresh part) :
    ∀ p ∈ splitFrom depth part cs, ¬ HasSeparator p := by
  fun_induction isPathFrom depth fresh cs generalizing part with
  | case1 => simpa [splitFrom] using hpart.whole
  | case2 depth fresh cs ih =>
    obtain ⟨hfresh, hpath⟩ := Bool.and_eq_true_iff.1 h
    obtain rfl : fresh = false := by simpa using hfresh
    rw [splitFrom]
    split
    · rename_i hdepth
      subst hdepth
      exact List.forall_mem_cons.2 ⟨hpart.whole, ih hpath .start⟩
    · rename_i hdepth
      exact ih hpath (hpart.separator hdepth)
  | case3 => simp at h
  | case4 depth fresh cs ih =>
    have hopen := hpart.open_brackets
    rw [splitFrom_open]
    refine ih (Bool.and_eq_true_iff.1 h).2 (hpart.cons (by decide) ?_)
    simp only [List.count_cons, beq_self_eq_true, if_true]
    simp
    omega
  | case5 depth fresh cs ih =>
    rw [splitFrom_cons (by decide)]
    refine ih (Bool.and_eq_true_iff.1 h).2 (hpart.cons (by decide) ?_)
    simpa using hpart.open_brackets
  | case6 depth fresh cs ih =>
    obtain ⟨hdepth, hpath⟩ := Bool.and_eq_true_iff.1 h
    have hpos : depth ≠ 0 := by
      simp only [Bool.and_eq_true, bne_iff_ne] at hdepth
      exact hdepth.1
    have hopen := hpart.open_brackets
    rw [splitFrom_close]
    refine ih hpath (hpart.cons (by decide) ?_)
    simp only [List.count_cons, beq_self_eq_true, if_true]
    simp
    omega
  | case7 depth fresh c cs hpair hcolon hopen hcomma hclose ih =>
    rw [splitFrom_cons ⟨hcolon, hopen, hclose⟩]
    refine ih (Bool.and_eq_true_iff.1 h).2 (hpart.cons hcolon ?_)
    rw [List.count_cons_of_ne hclose, List.count_cons_of_ne hopen]
    exact hpart.open_brackets

/-- A name is split into its parts, and none of them is empty. -/
theorem parts_parse {name : String} (h : isPath name.toList = true) :
    (parse name).namespaces ++ [(parse name).name] =
      (splitFrom 0 [] name.toList).map String.ofList := by
  have hne : ∀ p ∈ splitFrom 0 [] name.toList, p ≠ [] :=
    ne_nil_of_mem_splitFrom h fun _ => ⟨rfl, rfl⟩
  have hsome := splitFrom_ne_nil 0 [] name.toList
  simp only [parse, dropSeparators_of_isPath h]
  rw [List.filter_eq_self.2, List.getLast?_eq_some_getLast (by simpa using hsome), Option.getD_some,
    List.dropLast_append_getLast]
  intro x hx
  obtain ⟨q, hq, rfl⟩ := List.mem_map.1 (List.dropLast_subset _ hx)
  simpa using hne q hq

theorem text_eq_intercalate (q : QualifiedName) :
    q.text = "::".intercalate (q.namespaces ++ [q.name]) := by
  obtain ⟨name, namespaces⟩ := q
  rw [text]
  induction namespaces with
  | nil => simp
  | cons ns namespaces ih =>
    cases namespaces with
    | nil => simp
    | cons ns' namespaces =>
      rw [List.foldr_cons, ih]
      simp [String.intercalate_cons_cons, String.append_assoc]

/-- The parts in a row are the name. -/
theorem text_parse {name : String} (h : isPath name.toList = true) : (parse name).text = name := by
  rw [text_eq_intercalate, parts_parse h, ← String.toList_inj, toList_intercalate,
    intercalate_splitFrom]
  rfl

theorem part_of_parse {name x : String} (h : isPath name.toList = true)
    (hx : x ∈ (parse name).namespaces ++ [(parse name).name]) : x ≠ "" ∧ ¬ HasSeparator x.toList := by
  rw [parts_parse h] at hx
  obtain ⟨p, hp, rfl⟩ := List.mem_map.1 hx
  rw [String.toList_ofList]
  refine ⟨?_, not_hasSeparator_of_mem_splitFrom h .start p hp⟩
  simpa using ne_nil_of_mem_splitFrom h (fun _ => ⟨rfl, rfl⟩) p hp

/-- Outside of the global namespace a name is its last part under the others. -/
theorem text_of_not_isGlobal {q : QualifiedName} (h : q.isGlobal = false) :
    q.text = q.namespacePath ++ "::" ++ q.name := by
  obtain ⟨name, namespaces⟩ := q
  rw [text, namespacePath]
  induction namespaces with
  | nil => cases h
  | cons ns namespaces ih =>
    cases namespaces with
    | nil => simp
    | cons ns' namespaces =>
      rw [List.foldr_cons, ih rfl, String.intercalate_cons_cons]
      simp only [String.append_assoc]

/-- The paths around a name are the starts of its namespaces. -/
theorem prefix_mem_enclosing {q : QualifiedName} {nss : List String} (h : nss <+: q.namespaces)
    (hne : nss ≠ []) : "::".intercalate nss ∈ q.enclosing := by
  have hlength : nss.length - 1 + 1 = nss.length := Nat.succ_pred (by simpa using hne)
  refine List.mem_map.2 ⟨nss.length - 1, ?_, ?_⟩
  · have hle := h.length_le
    exact List.mem_range.2 (by omega)
  · rw [hlength, ← List.prefix_iff_eq_take.1 h]

end QualifiedName

namespace Registry

open QualifiedName

variable {r : Registry} {s : Shape} {name : String}

/-- Entering a type makes its name known, and no other. -/
theorem lookup_enter_eq (r : Registry) (name : String) (s : Shape) (x : String) :
    (r.enter name s).lookup x = (r.lookup x).or (if name = x then some r.size else none) := by
  rw [lookup, shapes_enter, Array.findIdx?_push]
  simp [lookup, size]

/-- A type without fields is entered with the next place. -/
theorem register_of_fields_eq_nil (hname : s.typeName = some name) (hfields : s.fields = [])
    (hnew : r.lookup name = none) : r.register s = (.ok r.size, r.enter name s) := by
  have hnested : s.nested = [] := by simp [Shape.nested, hfields]
  rw [register, registerTo]
  simp only [hname, hnew, hnested, registerAllTo]

/-- The last part of a name finds its type from the namespaces before it, when neither it nor what it
is under a namespace used earlier is the name of another type. -/
theorem resolve_enter {q : QualifiedName} (htext : q.text = name) (hglobal : q.isGlobal = false)
    {before : List String} (after : List String) (hplain : r.lookup q.name = none)
    (hbefore : ∀ u ∈ before, r.lookup (u ++ "::" ++ q.name) = none) (hnew : r.lookup name = none) :
    (r.enter name s).resolve q.name (before ++ q.namespacePath :: after) = some r.size := by
  have hpath : q.namespacePath ++ "::" ++ q.name = name := by
    rw [← text_of_not_isGlobal hglobal, htext]
  have hlonger : name ≠ q.name := by
    intro heq
    have hlength := congrArg String.length (hpath.trans heq)
    simp only [String.length_append] at hlength
    simp at hlength
  have hmiss : (r.enter name s).lookup q.name = none := by
    rw [lookup_enter_eq, hplain, if_neg hlonger]
    rfl
  have hfound : (r.enter name s).lookup (q.namespacePath ++ "::" ++ q.name) = some r.size := by
    rw [hpath, lookup_enter hnew]
  rw [resolve, hmiss]
  simp only
  induction before with
  | nil => rw [List.nil_append, List.findSome?_cons, hfound]
  | cons u before ih =>
    obtain ⟨hu, hbefore⟩ := List.forall_mem_cons.1 hbefore
    rw [List.cons_append, List.findSome?_cons, lookup_enter_eq, hu]
    -- a namespace used earlier can only be the same path again
    split
    · rename_i id hid
      split at hid
      · exact hid.symm
      · cases hid
    · exact ih hbefore

end Registry

namespace Spelling

open QualifiedName

/-- A spelled name is spelled as it stands. It is split into parts, none of them empty and none
with a separator outside of its brackets, which in a row are the name. When a type of that name
without fields is registered, all namespaces around it are known, and its last part finds it from
the namespaces before it. -/
theorem split_normalized {raw name : String} (h : normalize raw = some name) :
    normalize name = some name ∧ (parse name).text = name ∧
      (∀ part ∈ (parse name).namespaces ++ [(parse name).name],
        part ≠ "" ∧ ¬ HasSeparator part.toList) ∧
      ∀ (r : Registry) (s : Shape), s.typeName = some name → s.fields = [] → r.lookup name = none →
        ∃ id r', r.register s = (.ok id, r') ∧ r'.shape? id = some ⟨name, s, s.typeHash⟩ ∧
          (∀ nss, nss <+: (parse name).namespaces → nss ≠ [] →
            r'.hasNamespace ("::".intercalate nss) = true) ∧
          ((parse name).isGlobal = false → ∀ before after, r.lookup (parse name).name = none →
            (∀ u ∈ before, r.lookup (u ++ "::" ++ (parse name).name) = none) →
              r'.resolve (parse name).name (before ++ (parse name).namespacePath :: after) =
                some id) := by
  obtain ⟨hchars, hpath⟩ := normalize_eq_some h
  refine ⟨normalize_of_isPath hchars hpath, text_parse hpath, fun part => part_of_parse hpath, ?_⟩
  intro r s hname hfields hnew
  refine ⟨r.size, r.enter name s, Registry.register_of_fields_eq_nil hname hfields hnew,
    Registry.shape?_enter r name s, fun nss hprefix hne => ?_, ?_⟩
  · rw [Registry.hasNamespace_enter]
    exact Registry.hasNamespace_foldl_of_mem r (prefix_mem_enclosing hprefix hne)
  · intro hglobal before after hplain hbefore
    exact Registry.resolve_enter (text_parse hpath) hglobal after hplain hbefore hnew

/-- A name that goes on behind its type arguments. -/
theorem split_normalized_entry :
    normalize "app::Map<k::K, v::V>::Entry" = some "app::Map<k::K,v::V>::Entry" ∧
      normalize "app::Map<k::K,v::V>::Entry" = some "app::Map<k::K,v::V>::Entry" ∧
      (parse "app::Map<k::K,v::V>::Entry").text = "app::Map<k::K,v::V>::Entry" ∧
      parse "app::Map<k::K,v::V>::Entry" = ⟨"Entry", ["app", "Map<k::K,v::V>"]⟩ ∧
      ∃ id r', (Registry.empty #[]).register ⟨"app::Map<k::K, v::V>::Entry", []⟩ = (.ok id, r') ∧
        r'.hasNamespace "app" = true ∧ r'.hasNamespace "app::Map<k::K,v::V>" = true ∧
        r'.resolve "Entry" ["std", "app::Map<k::K,v::V>"] = some id := by
  have hname : normalize "app::Map<k::K, v::V>::Entry" = some "app::Map<k::K,v::V>::Entry" := by
    decide +kernel
  have hparse : parse "app::Map<k::K,v::V>::Entry" = ⟨"Entry", ["app", "Map<k::K,v::V>"]⟩ := by
    decide +kernel
  have hempty (x : String) : (Registry.empty #[]).lookup x = none := by
    simp [Registry.lookup, Registry.empty]
  obtain ⟨hagain, htext, -, hregister⟩ := split_normalized hname
  obtain ⟨id, r', hid, -, hspaces, hresolve⟩ :=
    hregister (.empty #[]) ⟨"app::Map<k::K, v::V>::Entry", []⟩ hname rfl (hempty _)
  rw [hparse] at hspaces hresolve
  refine ⟨hname, hagain, htext, hparse, id, r', hid, ?_, ?_, ?_⟩
  · exact hspaces ["app"] ⟨["Map<k::K,v::V>"], rfl⟩ (List.cons_ne_nil _ _)
  · exact hspaces ["app", "Map<k::K,v::V>"] ⟨[], rfl⟩ (List.cons_ne_nil _ _)
  · exact hresolve rfl ["std"] [] (hempty _) fun u _ => hempty _

end Spelling

end TypedTemplate
