-- SUMMARY: The slots of a scope over any sequence of declarations and poisonings.
import TypedTemplate.Proofs.Compile.Scope

/-!
# Slots

The machine trusts the slots that a scope gives out and the size of the frame. A scope is
told from its history: the declarations that succeeded have the slots from zero on, in
order, and a name is poisoned when someone poisoned it and no declaration of it succeeded.
Each call keeps it so, and a declaration that fails changes nothing.
-/

namespace TypedTemplate

/-- A change that is asked of a scope. -/
inductive ScopeCall where
  | declare (name : String) (type : Ty) (span : Span)
  | poison (name : String)

namespace Scope

/-- The scope after the call. -/
def afterCall (s : Scope) : ScopeCall → Scope
  | .declare name type span =>
    match s.declare name type span with
    | .ok (_, s') => s'
    | .error _    => s
  | .poison name => s.poison name

/-- The declaration that the call makes, with its slot, unless it makes none. -/
def declared? (s : Scope) : ScopeCall → Option (Nat × Local)
  | .declare name type span =>
    match s.declare name type span with
    | .ok (slot, _) => some (slot, ⟨name, type, span⟩)
    | .error _      => none
  | .poison _ => none

/-- The scope after the calls, one after another. -/
def after (s : Scope) (calls : List ScopeCall) : Scope := calls.foldl afterCall s

/-- The declarations that succeed among the calls, in order. -/
def declarations (s : Scope) : List ScopeCall → List (Nat × Local)
  | []            => []
  | call :: calls => (s.declared? call).toList ++ (s.afterCall call).declarations calls

variable {s s' : Scope} {x y name : String} {t type : Ty} {span : Span} {slot : Nat}
  {calls : List ScopeCall} {ds : List (Nat × Local)} {e : CompilationError}

theorem after_append (s : Scope) (calls more : List ScopeCall) :
    s.after (calls ++ more) = (s.after calls).after more :=
  List.foldl_append

/-! ## Single calls -/

theorem afterCall_of_ok (h : s.declare name type span = .ok (slot, s')) :
    s.afterCall (.declare name type span) = s' ∧
      s.declared? (.declare name type span) = some (slot, ⟨name, type, span⟩) := by
  simp only [afterCall, declared?, h, and_self]

theorem afterCall_of_error (h : s.declare name type span = .error e) :
    s.afterCall (.declare name type span) = s ∧ s.declared? (.declare name type span) = none := by
  simp only [afterCall, declared?, h, and_self]

theorem isSome_get? (s : Scope) (x : String) : (s.get? x).isSome = (s.slot? x).isSome := by
  unfold get?
  cases h : s.slot? x with
  | none => rfl
  | some slot =>
    have hlt : slot < s.locals.size := lt_of_slot? h
    simp [hlt]

/-- A name is known when it is declared or poisoned. -/
theorem isKnown_iff : s.isKnown x = true ↔ s.get? x ≠ none ∨ s.isPoisoned x = true := by
  rw [isKnown, Bool.or_eq_true, ← isSome_get?, Option.isSome_iff_ne_none]

theorem isKnown_eq_false : s.isKnown x = false ↔ s.get? x = none ∧ s.isPoisoned x = false := by
  rw [isKnown, Bool.or_eq_false_iff, ← isSome_get?, Option.isSome_eq_false_iff,
    Option.isNone_iff_eq_none]

/-- A declaration fails in two ways: the name is known, or there is no slot left. -/
theorem declare_eq_error (h : s.declare x t span = .error e) :
    s.get? x ≠ none ∨ s.isPoisoned x = true ∨ maxLocals ≤ s.frameSize := by
  unfold declare at h
  split at h
  · rename_i hknown
    exact (isKnown_iff.1 hknown).imp_right .inl
  · split at h
    · cases h
    · rename_i hroom
      exact .inr (.inr (Nat.not_lt.1 hroom))

theorem isPoisoned_of_declare (h : s.declare x t span = .ok (slot, s')) :
    s.isPoisoned x = false := by
  unfold declare at h
  split at h
  · cases h
  · rename_i hknown
    exact (isKnown_eq_false.1 (Bool.not_eq_true _ ▸ hknown)).2

theorem get?_poison (s : Scope) (name x : String) : (s.poison name).get? x = s.get? x := by
  unfold poison
  split <;> rfl

theorem frameSize_poison (s : Scope) (name : String) : (s.poison name).frameSize = s.frameSize := by
  unfold poison
  split <;> rfl

/-- A name is poisoned unless it is declared. -/
theorem isPoisoned_poison (s : Scope) (name x : String) :
    (s.poison name).isPoisoned x = true ↔
      s.isPoisoned x = true ∨ x = name ∧ s.get? name = none := by
  unfold poison
  cases hknown : s.isKnown name with
  | true =>
    rw [if_pos rfl]
    refine ⟨.inl, fun h => h.elim id ?_⟩
    rintro ⟨rfl, hget⟩
    exact (isKnown_iff.1 hknown).resolve_left (· hget)
  | false =>
    have hget := (isKnown_eq_false.1 hknown).1
    simp [isPoisoned, hget, or_comm]

/-! ## Histories -/

/-- The scope came of an empty one by the calls, among which the declarations `ds` succeeded. -/
structure Records (s : Scope) (calls : List ScopeCall) (ds : List (Nat × Local)) : Prop where
  /-- Their slots are those of the frame, one after the other. -/
  slots : ds.map (·.1) = List.range s.frameSize
  room : s.frameSize ≤ maxLocals
  /-- No name is declared twice. -/
  names : (ds.map (·.2.name)).Nodup
  get : ∀ x d, s.get? x = some d ↔ d ∈ ds ∧ d.2.name = x
  poisoned : ∀ x, s.isPoisoned x = true ↔ .poison x ∈ calls ∧ ∀ d ∈ ds, d.2.name ≠ x

namespace Records

theorem get?_eq_none (h : s.Records calls ds) : s.get? x = none ↔ ∀ d ∈ ds, d.2.name ≠ x := by
  rw [Option.eq_none_iff_forall_ne_some]
  constructor
  · intro hget d hd hname
    exact hget d ((h.get x d).2 ⟨hd, hname⟩)
  · intro hnames d hget
    obtain ⟨hd, hname⟩ := (h.get x d).1 hget
    exact hnames d hd hname

theorem empty : Scope.empty.Records [] [] :=
  ⟨rfl, Nat.zero_le _, List.nodup_nil, fun x d => by simp [Scope.empty, get?, slot?], fun x => by
    simp [Scope.empty, isPoisoned]⟩

theorem declare (h : s.Records calls ds) (hok : s.declare name type span = .ok (slot, s')) :
    s'.Records (calls ++ [.declare name type span]) (ds ++ [(slot, ⟨name, type, span⟩)]) := by
  have hget := get?_declare hok
  have hsize := frameSize_declare hok
  have hclean := isPoisoned_of_declare hok
  obtain ⟨hslot, rfl, hroom, rfl⟩ := declare_eq_ok hok
  have hnone : s.get? name = none := by
    rw [← Option.isNone_iff_eq_none, ← Option.not_isSome, isSome_get?, hslot]
    rfl
  have hfresh := h.get?_eq_none.1 hnone
  refine ⟨?_, ?_, ?_, fun x d => ?_, fun x => ?_⟩
  · rw [List.map_append, h.slots, hsize, List.range_succ]
    rfl
  · omega
  · rw [List.map_append, List.nodup_append]
    refine ⟨h.names, List.pairwise_singleton _ _, ?_⟩
    intro x hx y hy
    obtain ⟨d, hd, rfl⟩ := List.mem_map.1 hx
    obtain rfl : y = name := by simpa using hy
    exact hfresh d hd
  · rw [hget x, List.mem_append, List.mem_singleton]
    split
    · rename_i hname
      subst hname
      constructor
      · rintro heq
        cases heq
        exact ⟨.inr rfl, rfl⟩
      · rintro ⟨hd | rfl, hname⟩
        · exact absurd hname (hfresh d hd)
        · rfl
    · rename_i hname
      rw [h.get x d]
      refine and_congr_left fun heq => ⟨.inl, fun hd => hd.resolve_right ?_⟩
      rintro rfl
      exact hname heq
  · -- The new name was not poisoned, for then it would have been known.
    change s.isPoisoned x = true ↔ _
    rw [h.poisoned x, List.forall_mem_append, List.forall_mem_singleton, List.mem_append]
    by_cases hname : name = x
    · subst hname
      refine iff_of_false (fun h' => ?_) fun h' => h'.2.2 rfl
      rw [(h.poisoned name).2 h'] at hclean
      cases hclean
    · simp [hname]

theorem poison (h : s.Records calls ds) (name : String) :
    (s.poison name).Records (calls ++ [.poison name]) ds := by
  have hsize := frameSize_poison s name
  refine ⟨?_, ?_, h.names, fun x d => ?_, fun x => ?_⟩
  · rw [hsize, h.slots]
  · rw [hsize]
    exact h.room
  · rw [get?_poison]
    exact h.get x d
  · rw [isPoisoned_poison, h.poisoned x, List.mem_append, List.mem_singleton, or_and_right]
    refine or_congr_right ?_
    rw [ScopeCall.poison.injEq]
    refine and_congr_right fun hx => ?_
    rw [← hx, h.get?_eq_none]

theorem fail (h : s.Records calls ds) : s.Records (calls ++ [.declare name type span]) ds :=
  ⟨h.slots, h.room, h.names, h.get, fun x => by simpa using h.poisoned x⟩

/-- One call keeps the history. -/
theorem call (h : s.Records calls ds) (call : ScopeCall) :
    (s.afterCall call).Records (calls ++ [call]) (ds ++ (s.declared? call).toList) := by
  cases call with
  | declare name type span =>
    cases hdeclare : s.declare name type span with
    | ok declared =>
      obtain ⟨slot, s'⟩ := declared
      obtain ⟨hafter, hdeclared⟩ := afterCall_of_ok hdeclare
      rw [hafter, hdeclared]
      exact h.declare hdeclare
    | error e =>
      obtain ⟨hafter, hdeclared⟩ := afterCall_of_error hdeclare
      rw [hafter, hdeclared, Option.toList_none, List.append_nil]
      exact h.fail
  | poison name =>
    rw [declared?, Option.toList_none, List.append_nil]
    exact h.poison name

/-- Whatever is called, the history goes on. -/
theorem after (h : s.Records calls ds) (more : List ScopeCall) :
    (s.after more).Records (calls ++ more) (ds ++ s.declarations more) := by
  induction more generalizing s calls ds with
  | nil => simpa [Scope.after, declarations] using h
  | cons call more ih => simpa [Scope.after, declarations] using ih (h.call call)

end Records

theorem records_after (calls : List ScopeCall) :
    (empty.after calls).Records calls (empty.declarations calls) :=
  Records.empty.after calls

/-! ## Slots -/

/-- The slots that an empty scope gives out are dense, unique and stable, whatever is declared and
poisoned. -/
theorem slots_stable (calls more : List ScopeCall) :
    (empty.after calls).Records calls (empty.declarations calls) ∧
      (empty.after calls).frameSize ≤ 256 ∧
      (∀ d ∈ empty.declarations calls, (empty.after (calls ++ more)).get? d.2.name = some d) ∧
      (∀ x, (empty.after calls).get? x = none ∨ (empty.after calls).isPoisoned x = false) ∧
      (∀ x t span e, (empty.after calls).declare x t span = .error e →
        ((empty.after calls).get? x ≠ none ∨ (empty.after calls).isPoisoned x = true ∨
          (empty.after calls).frameSize = 256) ∧
        empty.after (calls ++ .declare x t span :: more) = empty.after (calls ++ more)) := by
  have hrecords := records_after calls
  refine ⟨hrecords, hrecords.room, fun d hd => ?_, fun x => ?_, fun x t span e h => ⟨?_, ?_⟩⟩
  · rw [after_append]
    exact ((hrecords.after more).get _ d).2 ⟨List.mem_append_left _ hd, rfl⟩
  · cases hpoisoned : (empty.after calls).isPoisoned x with
    | false => exact .inr rfl
    | true => exact .inl (hrecords.get?_eq_none.2 ((hrecords.poisoned x).1 hpoisoned).2)
  · exact (declare_eq_error h).imp_right (.imp_right (Nat.le_antisymm hrecords.room))
  · rw [after_append, after_append, after, List.foldl_cons, (afterCall_of_error h).1]
    rfl

/-- A poisoned name is refused, while the name before it keeps its slot and cannot be poisoned. -/
theorem slots_stable_refused :
    let calls := [.declare "x" .int .nowhere, .poison "y"]
    (∃ e, (empty.after calls).declare "y" .bool .nowhere = .error e) ∧
      empty.after (calls ++ [.declare "y" .bool .nowhere, .poison "x"]) =
        empty.after (calls ++ [.poison "x"]) ∧
      (empty.after (calls ++ [.poison "x"])).get? "x" = some (0, ⟨"x", .int, .nowhere⟩) := by
  intro calls
  obtain ⟨-, -, hget, -, hfail⟩ := slots_stable calls [.poison "x"]
  have herror : (empty.after calls).declare "y" .bool .nowhere =
      .error ⟨.duplicate "y", .nowhere⟩ := by with_unfolding_all rfl
  have hmem : (0, ⟨"x", .int, .nowhere⟩) ∈ empty.declarations calls := by decide +kernel
  exact ⟨⟨_, herror⟩, (hfail _ _ _ _ herror).2, hget _ hmem⟩

end Scope

end TypedTemplate
