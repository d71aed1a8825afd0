-- SUMMARY: The names and literals in a tree: names mentioned, float literals, bindings that mention themselves.
import TypedTemplate.Proofs.Semantics.Build
import TypedTemplate.Proofs.Semantics.Constant

/-!
# Leaves

A typed expression mentions only names that have a type. An expression without
float literals is never constant with a float for its value, and its code reads no
float.
-/

namespace TypedTemplate

mutual

/-- The names and literals of an expression, from left to right. -/
def Expr.leaves : Expr → List Expr
  | .literal v span         => [.literal v span]
  | .name x                 => [.name x]
  | .member e _ _           => e.leaves
  | .call e _ args _        => e.leaves ++ Expr.leavesAll args
  | .unary _ e _            => e.leaves
  | .binary _ left right _  => left.leaves ++ right.leaves
  | .ternary e t f _        => e.leaves ++ (t.leaves ++ f.leaves)
  | .interpolated parts _   => Segment.leavesAll parts
  | .paren e _              => e.leaves

def Expr.leavesAll : List Expr → List Expr
  | []      => []
  | e :: es => e.leaves ++ Expr.leavesAll es

def Segment.leaves : Segment → List Expr
  | .text _     => []
  | .hole e _ _ => e.leaves

def Segment.leavesAll : List Segment → List Expr
  | []        => []
  | s :: rest => s.leaves ++ Segment.leavesAll rest

end

/-- Whether the expression is the name `x`. -/
def Expr.isName (x : String) : Expr → Bool
  | .name y => y.name == x
  | _       => false

/-- Whether the expression is a float as written. -/
def Expr.isFloat : Expr → Bool
  | .literal (.float _) _ => true
  | _                     => false

def Expr.mentions (e : Expr) (x : String) : Bool := e.leaves.any (Expr.isName x)

def Expr.hasFloat (e : Expr) : Bool := e.leaves.any Expr.isFloat

namespace Stmt

/-- A binding whose value mentions the name bound. -/
def namesItself : Stmt → Bool
  | .letBinding x value _ => value.mentions x.name
  | .ret _ _              => false

def hasFloat : Stmt → Bool
  | .letBinding _ value _ => value.hasFloat
  | .ret value _          => value.hasFloat

end Stmt

/-! ## Names -/

section

variable {r : Registry} {Γ : Typing} {x : String}

mutual

/-- A name in a typed expression has a type. -/
theorem typing_of_mentions : (e : Expr) → ∀ {t : Ty}, e.type? r Γ = some t →
    e.leaves.any (Expr.isName x) = true → ∃ u, Γ x = some u
  | .literal _ _, _, _, h => by simp [Expr.leaves, Expr.isName] at h
  | .name y, t, ht, h => by
    obtain rfl : y.name = x := by simpa [Expr.leaves, Expr.isName] using h
    exact ⟨t, ht⟩
  | .member e _ _, _, ht, h => by
    obtain ⟨t, i, he, -⟩ := type?_member.1 ht
    exact typing_of_mentions e he h
  | .call e _ _ _, _, ht, h => by
    obtain ⟨t, is, he, rfl, -⟩ := type?_call.1 ht
    exact typing_of_mentions e he (by simpa [Expr.leaves, Expr.leavesAll] using h)
  | .unary _ e _, _, ht, h => by
    obtain ⟨t, is, he, -⟩ := type?_unary.1 ht
    exact typing_of_mentions e he h
  | .binary _ left right _, _, ht, h => by
    obtain ⟨a, b, is, hl, hr, -⟩ := type?_binary.1 ht
    rcases Bool.or_eq_true_iff.1 (List.any_append ▸ h) with h | h
    · exact typing_of_mentions left hl h
    · exact typing_of_mentions right hr h
  | .ternary e t f _, _, ht, h => by
    obtain ⟨a, b, he, ha, hb, -⟩ := type?_ternary.1 ht
    simp only [Expr.leaves, List.any_append, Bool.or_eq_true] at h
    rcases h with h | h | h
    · exact typing_of_mentions e he h
    · exact typing_of_mentions t ha h
    · exact typing_of_mentions f hb h
  | .interpolated parts _, _, ht, h =>
    typing_of_mentionsAll parts (type?_interpolated.1 ht).1 h
  | .paren e _, _, ht, h => typing_of_mentions e ht h

theorem typing_of_mentions_segment : (s : Segment) → s.typed r Γ = true →
    s.leaves.any (Expr.isName x) = true → ∃ u, Γ x = some u
  | .text _, _, h => by simp [Segment.leaves] at h
  | .hole e _ _, ht, h => by
    obtain ⟨t, he, -⟩ := typed_hole.1 ht
    exact typing_of_mentions e he h

theorem typing_of_mentionsAll : (segments : List Segment) →
    Segment.allTyped r Γ segments = true →
    (Segment.leavesAll segments).any (Expr.isName x) = true → ∃ u, Γ x = some u
  | [], _, h => by simp [Segment.leavesAll] at h
  | s :: rest, ht, h => by
    simp only [Segment.allTyped, Bool.and_eq_true] at ht
    simp only [Segment.leavesAll, List.any_append, Bool.or_eq_true] at h
    rcases h with h | h
    · exact typing_of_mentions_segment s ht.1 h
    · exact typing_of_mentionsAll rest ht.2 h

end

end

/-! ## Floats -/

namespace Value

variable {v w x : Value}

theorem isFloat_of_fits {r : Registry} (h : Fits r .int v) : v.isFloat = false := by
  cases h <;> rfl

theorem isFloat_foldUnary? {op : UnaryOp} (hv : v.isFloat = false)
    (h : foldUnary? op v = some x) : x.isFloat = false := by
  unfold foldUnary? at h
  split at h
  · cases h
    rfl
  · simp at h
  · simp [isFloat] at hv
  · have hneg := toOption_eq_some h
    unfold neg at hneg
    split at hneg
    · exact isFloat_of_fits (fitOr_fits (r := .empty #[]) hneg)
    · simp at hneg

theorem isFloat_foldArith? {op : ArithOp} (hv : v.isFloat = false) (hw : w.isFloat = false)
    (h : foldArith? op v w = some x) : x.isFloat = false := by
  simp only [foldArith?, hv, hw, Bool.or_self, Bool.false_eq_true, if_false] at h
  have harith := toOption_eq_some h
  unfold arith at harith
  split at harith
  · exact isFloat_of_fits (fitOr_fits (r := .empty #[]) harith)
  · simp at harith

theorem isFloat_foldBinary? {op : BinaryOp} (hv : v.isFloat = false) (hw : w.isFloat = false)
    (h : foldBinary? op v w = some x) : x.isFloat = false := by
  cases op with
  | add =>
    simp only [foldBinary?] at h
    split at h
    · cases h
      rfl
    · exact isFloat_foldArith? hv hw h
  | sub => exact isFloat_foldArith? hv hw h
  | mul => exact isFloat_foldArith? hv hw h
  | equal =>
    obtain ⟨e, -, rfl⟩ := Option.map_eq_some_iff.1 h
    rfl
  | notEqual =>
    obtain ⟨e, -, rfl⟩ := Option.map_eq_some_iff.1 h
    rfl
  | coalesce => simp [foldBinary?] at h

theorem isFloat_foldMethod? {name : String} (h : foldMethod? name v = some x) :
    x.isFloat = false := by
  unfold foldMethod? at h
  split at h <;> cases h <;> rfl

theorem floats_of_isFloat (h : v.isFloat = false) : v.floats = [] := by
  cases v <;> first | rfl | simp [isFloat] at h

end Value

/-- A constant expression without float literals has no float for its value. -/
theorem isFloat_constant? : (e : Expr) → ∀ {v : Value}, e.leaves.any Expr.isFloat = false →
    e.constant? = some v → v.isFloat = false
  | .literal l _, _, h, hv => by
    cases hv
    cases l <;> first | rfl | simp [Expr.leaves, Expr.isFloat] at h
  | .name _, _, _, hv => by simp [Expr.constant?] at hv
  | .member _ _ _, _, _, hv => by simp [Expr.constant?] at hv
  | .call e method args span, x, _, hv => by
    simp only [Expr.constant?] at hv
    split at hv
    · obtain ⟨v, -, hfold⟩ := Option.bind_eq_some_iff.1 hv
      exact Value.isFloat_foldMethod? hfold
    · simp at hv
  | .unary op e span, x, h, hv => by
    obtain ⟨v, hv, hfold⟩ := Option.bind_eq_some_iff.1 (hv : e.constant?.bind _ = some x)
    exact Value.isFloat_foldUnary? (isFloat_constant? e h hv) hfold
  | .binary op left right span, x, h, hv => by
    simp only [Expr.leaves, List.any_append, Bool.or_eq_false_iff] at h
    by_cases hop : op = .coalesce
    · subst hop
      exact isFloat_constant? right h.2 (constant?_coalesce hv).2
    · obtain ⟨v, w, hl, hr, hfold⟩ := constant?_binary hop hv
      exact Value.isFloat_foldBinary? (isFloat_constant? left h.1 hl) (isFloat_constant? right h.2 hr)
        hfold
  | .ternary e t f span, _, h, hv => by
    simp only [Expr.leaves, List.any_append, Bool.or_eq_false_iff] at h
    obtain ⟨k, v, w, -, htv, hfw, rfl⟩ := constant?_ternary hv
    cases k with
    | true => exact isFloat_constant? t h.2.1 htv
    | false => exact isFloat_constant? f h.2.2 hfw
  | .interpolated parts span, x, _, hv => by
    obtain ⟨s, -, rfl⟩ := Option.map_eq_some_iff.1 (hv : (Segment.constantOnto? "" parts).map _ = some x)
    rfl
  | .paren e _, _, h, hv => isFloat_constant? e h hv

section

variable {folds : Bool}

theorem loadsOr_eq_nil {e : Expr} {rest : List Float} (h : e.leaves.any Expr.isFloat = false)
    (hrest : rest = []) : e.loadsOr folds rest = [] := by
  unfold Expr.loadsOr
  split
  · rename_i v hv
    unfold Expr.folded? at hv
    split at hv
    · exact Value.floats_of_isFloat (isFloat_constant? e h hv)
    · simp at hv
  · exact hrest

mutual

/-- The code of an expression without float literals reads no float. -/
theorem loads_eq_nil : (e : Expr) → e.leaves.any Expr.isFloat = false → e.loads folds = []
  | .literal l _, h => by
    cases l <;> first | rfl | simp [Expr.leaves, Expr.isFloat] at h
  | .name _, _ => rfl
  | .member e _ _, h => loads_eq_nil e h
  | .call e _ args _, h => by
    refine loadsOr_eq_nil h (loads_eq_nil e ?_)
    simp only [Expr.leaves, List.any_append, Bool.or_eq_false_iff] at h
    exact h.1
  | .unary _ e _, h => loadsOr_eq_nil h (loads_eq_nil e h)
  | .binary _ left right _, h => by
    refine loadsOr_eq_nil h ?_
    simp only [Expr.leaves, List.any_append, Bool.or_eq_false_iff] at h
    rw [loads_eq_nil left h.1, loads_eq_nil right h.2, List.append_nil]
  | .ternary e t f _, h => by
    refine loadsOr_eq_nil h ?_
    simp only [Expr.leaves, List.any_append, Bool.or_eq_false_iff] at h
    rw [loads_eq_nil e h.1, loads_eq_nil t h.2.1, loads_eq_nil f h.2.2, List.append_nil,
      List.append_nil]
  | .interpolated parts _, h => loadsOr_eq_nil h (loadsAll_eq_nil parts h)
  | .paren e _, h => loadsOr_eq_nil h (loads_eq_nil e h)

theorem segment_loads_eq_nil : (s : Segment) → s.leaves.any Expr.isFloat = false →
    s.loads folds = []
  | .text _, _ => rfl
  | .hole e format _, h => by
    unfold Segment.loads
    split
    · rfl
    · exact loads_eq_nil e h

theorem loadsAll_eq_nil : (segments : List Segment) →
    (Segment.leavesAll segments).any Expr.isFloat = false → Segment.loadsAll folds segments = []
  | [], _ => rfl
  | s :: rest, h => by
    simp only [Segment.leavesAll, List.any_append, Bool.or_eq_false_iff] at h
    unfold Segment.loadsAll
    rw [segment_loads_eq_nil s h.1, loadsAll_eq_nil rest h.2, List.append_nil]

end

/-- Statements without float literals read no float. -/
theorem stmts_loads_eq_nil {stmts : List Stmt} (h : stmts.any Stmt.hasFloat = false) :
    Stmt.loads folds stmts = [] := by
  induction stmts with
  | nil => rfl
  | cons s rest ih =>
    simp only [List.any_cons, Bool.or_eq_false_iff] at h
    cases s with
    | letBinding x value span =>
      unfold Stmt.loads
      rw [loads_eq_nil value h.1, ih h.2, List.append_nil]
    | ret value span => exact loads_eq_nil value h.1

end

end TypedTemplate
