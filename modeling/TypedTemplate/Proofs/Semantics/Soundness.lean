-- SUMMARY: Evaluation in a build is type sound, and is evaluation when no float is read wrong.
import TypedTemplate.Proofs.Semantics.Build
import TypedTemplate.Proofs.Semantics.Constant

/-!
# Soundness of evaluation in a build

Two facts about typed code, each by induction on trees. In an environment whose
values fit their types, an expression gives a value of its type or a checked
overflow. And where the build gives every float as it was written, its results are
those of the reference evaluator: replacing constants changes nothing.
-/

namespace TypedTemplate

variable {r : Registry} {b : Build} {checked : Bool} {env : Env}

/-- The values of the names are of their types. -/
def Env.Fits (r : Registry) (env : Env) : Prop :=
  ∀ x b, env.get? x = some b → TypedTemplate.Fits r b.type b.value

theorem Fits.readBy {t : Ty} {v : Value} (h : Fits r t v) (read : Float → Float) :
    Fits r t (v.readBy read) := by
  cases h with
  | float n x => exact .float n _
  | null k => exact .null k
  | bool n b => exact .bool n b
  | int n i => exact .int n i
  | uint n u => exact .uint n u
  | str n s => exact .str n s
  | object n id s m shape hash present fields => exact .object n id s m shape hash present fields

/-- An expression that is replaced gives its value. -/
theorem fold_safe {e : Expr} {t : Ty} {x : Except RuntimeError Value}
    (ht : e.type? r env.typing = some t) (hx : Safe checked (Fits r t) x) :
    Safe checked (Fits r t) (b.fold e x) := by
  unfold Build.fold
  split
  · rename_i v hv
    unfold Expr.folded? at hv
    split at hv
    · have hsound : _ ∧ e.eval r checked env = _ := constant_sound e ht hv
      exact hsound.1.readBy b.float
    · simp at hv
  · exact hx

mutual

/-- A typed expression gives a value of its type, or a checked overflow. -/
theorem evalBy_safe (henv : env.Fits r) : (e : Expr) → ∀ {t : Ty},
    e.type? r env.typing = some t → Safe checked (Fits r t) (e.evalBy r b checked env)
  | .literal l _, _, ht => by
    cases ht
    exact (l.fits r).readBy b.float
  | .name x, t, ht => by
    obtain ⟨binding, hget, rfl⟩ := Option.map_eq_some_iff.1 (ht : (env.get? x.name).map _ = some t)
    have hvalue : env.value x.name = binding.value := by simp [Env.value, hget]
    simp only [Expr.evalBy, hvalue]
    exact henv x.name binding hget
  | .member e field _, _, ht => by
    obtain ⟨t, i, he, hrule⟩ := type?_member.1 ht
    apply (evalBy_safe henv e he).bind
    intro v hv
    rw [kind_of_type he]
    exact Rule.member_safe hrule hv
  | .call e method args span, _, ht => by
    refine fold_safe ht ?_
    obtain ⟨t, is, he, -, hrule⟩ := type?_call.1 ht
    exact (evalBy_safe henv e he).bind fun v hv => Rule.method_safe hrule hv
  | .unary op e span, _, ht => by
    refine fold_safe ht ?_
    obtain ⟨t, is, he, hrule⟩ := type?_unary.1 ht
    apply (evalBy_safe henv e he).bind
    intro v hv
    rw [kind_of_type he]
    exact Rule.unary_safe hrule hv
  | .binary op l r' span, _, ht => by
    by_cases hop : op = .coalesce
    · subst hop
      refine fold_safe ht ?_
      obtain ⟨a, b', hl, hr, hrule⟩ := type?_coalesce.1 ht
      apply (evalBy_safe henv l hl).bind
      intro v hv
      have hcoalesce := Rule.coalesce_fits hrule hv
      split <;> rename_i hnull
      · rw [if_pos hnull] at hcoalesce
        exact (evalBy_safe henv r' hr).imp hcoalesce
      · rw [if_neg hnull] at hcoalesce
        exact hcoalesce
    · rw [evalBy_binary l r' span hop]
      refine fold_safe ht ?_
      obtain ⟨a, b', is, hl, hr, hrule⟩ := type?_binary.1 ht
      apply (evalBy_safe henv l hl).bind
      intro v hv
      apply (evalBy_safe henv r' hr).bind
      intro w hw
      rw [kind_of_type hl, kind_of_type hr]
      exact Rule.binary_safe hop hrule hv hw
  | .ternary e t f span, _, ht => by
    refine fold_safe ht ?_
    obtain ⟨a, b', he, ha, hb, hrule⟩ := type?_ternary.1 ht
    obtain ⟨hjoin, hjoin'⟩ := Rule.join_fits hrule
    apply (evalBy_safe henv e he).bind
    intro v hv
    obtain ⟨k, rfl⟩ := hv.eq_bool
    cases k with
    | true => exact (evalBy_safe henv t ha).imp hjoin
    | false => exact (evalBy_safe henv f hb).imp hjoin'
  | .interpolated parts span, _, ht => by
    refine fold_safe ht ?_
    obtain ⟨htyped, rfl⟩ := type?_interpolated.1 ht
    exact (evalAllBy_safe henv parts htyped).bind fun s _ => Fits.str _ _
  | .paren e span, _, ht => fold_safe ht (evalBy_safe henv e ht)

theorem segment_evalBy_safe (henv : env.Fits r) : (s : Segment) → s.typed r env.typing = true →
    Safe checked (fun _ : String => True) (s.evalBy r b checked env)
  | .text _, _ => trivial
  | .hole e format _, ht => by
    obtain ⟨t, he, htakes⟩ := typed_hole.1 ht
    unfold Segment.evalBy
    split
    · trivial
    · apply (evalBy_safe henv e he).bind
      intro v hv
      obtain ⟨s, hs⟩ := Rule.takes_ok htakes hv
      rw [hs]
      trivial

theorem evalAllBy_safe (henv : env.Fits r) : (segments : List Segment) →
    Segment.allTyped r env.typing segments = true →
    Safe checked (fun _ : String => True) (Segment.evalAllBy r b checked env segments)
  | [], _ => trivial
  | s :: rest, ht => by
    simp only [Segment.allTyped, Bool.and_eq_true] at ht
    apply (segment_evalBy_safe henv s ht.1).bind
    intro t _
    exact (evalAllBy_safe henv rest ht.2).bind fun u _ => trivial

end

/-! ## Reading constants as they are -/

/-- The build gives the floats of `xs` as they are. -/
def Build.Keeps (b : Build) (xs : List Float) : Prop := ∀ x ∈ xs, b.float x = x

theorem Build.keeps_append {xs ys : List Float} :
    b.Keeps (xs ++ ys) ↔ b.Keeps xs ∧ b.Keeps ys := by
  simp only [Keeps, List.mem_append]
  constructor
  · intro h
    exact ⟨fun x hx => h x (.inl hx), fun x hx => h x (.inr hx)⟩
  · rintro ⟨h, h'⟩ x hx
    exact hx.elim (h x) (h' x)

theorem Value.readBy_of_keeps {v : Value} (h : b.Keeps v.floats) : v.readBy b.float = v := by
  cases v with
  | float x => simp [Value.readBy, h x (by simp [Value.floats])]
  | _ => rfl

/-- Replacing a typed expression by its value changes nothing. -/
theorem fold_eq {e : Expr} {t : Ty} {rest : List Float} {x : Except RuntimeError Value}
    (ht : e.type? r env.typing = some t) (hkeeps : b.Keeps (e.loadsOr b.folds rest))
    (hx : b.Keeps rest → x = e.eval r checked env) : b.fold e x = e.eval r checked env := by
  unfold Build.fold
  unfold Expr.loadsOr at hkeeps
  split at hkeeps <;> rename_i hv
  · rw [Value.readBy_of_keeps hkeeps]
    unfold Expr.folded? at hv
    split at hv
    · exact (constant_sound e ht hv).2.symm
    · simp at hv
  · exact hx hkeeps

mutual

/-- Where floats are read as they are, a typed expression gives its value. -/
theorem evalBy_eq_eval : (e : Expr) → ∀ {t : Ty}, e.type? r env.typing = some t →
    b.Keeps (e.loads b.folds) → e.evalBy r b checked env = e.eval r checked env
  | .literal l _, _, _, hkeeps => by
    simp only [Expr.evalBy, Expr.eval, Value.readBy_of_keeps hkeeps]
  | .name _, _, _, _ => rfl
  | .member e field _, _, ht, hkeeps => by
    obtain ⟨t, i, he, -⟩ := type?_member.1 ht
    simp only [Expr.evalBy, Expr.eval, evalBy_eq_eval e he hkeeps]
  | .call e method args span, _, ht, hkeeps => by
    refine fold_eq ht hkeeps fun hkeeps => ?_
    obtain ⟨t, is, he, -, -⟩ := type?_call.1 ht
    simp only [Expr.eval, evalBy_eq_eval e he hkeeps]
  | .unary op e span, _, ht, hkeeps => by
    refine fold_eq ht hkeeps fun hkeeps => ?_
    obtain ⟨t, is, he, -⟩ := type?_unary.1 ht
    simp only [Expr.eval, evalBy_eq_eval e he hkeeps]
  | .binary op l r' span, _, ht, hkeeps => by
    obtain ⟨a, b', is, hl, hr, -⟩ := type?_binary.1 ht
    by_cases hop : op = .coalesce
    · subst hop
      refine fold_eq ht hkeeps fun hkeeps => ?_
      obtain ⟨hkeepsl, hkeepsr⟩ := Build.keeps_append.1 hkeeps
      simp only [Expr.eval, evalBy_eq_eval l hl hkeepsl, evalBy_eq_eval r' hr hkeepsr]
    · rw [evalBy_binary l r' span hop]
      refine fold_eq ht hkeeps fun hkeeps => ?_
      obtain ⟨hkeepsl, hkeepsr⟩ := Build.keeps_append.1 hkeeps
      rw [eval_binary l r' span hop, evalBy_eq_eval l hl hkeepsl, evalBy_eq_eval r' hr hkeepsr]
  | .ternary e t f span, _, ht, hkeeps => by
    refine fold_eq ht hkeeps fun hkeeps => ?_
    obtain ⟨a, b', he, ha, hb, -⟩ := type?_ternary.1 ht
    obtain ⟨hkeepse, hkeeps⟩ := Build.keeps_append.1 hkeeps
    obtain ⟨hkeepst, hkeepsf⟩ := Build.keeps_append.1 hkeeps
    simp only [Expr.eval, evalBy_eq_eval e he hkeepse, evalBy_eq_eval t ha hkeepst,
      evalBy_eq_eval f hb hkeepsf]
  | .interpolated parts span, _, ht, hkeeps => by
    refine fold_eq ht hkeeps fun hkeeps => ?_
    simp only [Expr.eval, evalAllBy_eq parts (type?_interpolated.1 ht).1 hkeeps]
  | .paren e span, _, ht, hkeeps =>
    fold_eq ht hkeeps fun hkeeps => evalBy_eq_eval e ht hkeeps

theorem segment_evalBy_eq : (s : Segment) → s.typed r env.typing = true →
    b.Keeps (s.loads b.folds) → s.evalBy r b checked env = s.eval r checked env
  | .text _, _, _ => rfl
  | .hole e format _, ht, hkeeps => by
    obtain ⟨t, he, -⟩ := typed_hole.1 ht
    unfold Segment.loads at hkeeps
    unfold Segment.evalBy
    split <;> rename_i hfold
    · unfold Expr.foldedHole? at hfold
      split at hfold
      · obtain ⟨v, hv, hs⟩ := Option.bind_eq_some_iff.1 hfold
        simp only [Segment.eval, (constant_sound e he hv).2]
        exact (Value.foldHole?_eval hs).symm
      · simp at hfold
    · rw [hfold] at hkeeps
      simp only [Segment.eval, evalBy_eq_eval e he hkeeps]

theorem evalAllBy_eq : (segments : List Segment) → Segment.allTyped r env.typing segments = true →
    b.Keeps (Segment.loadsAll b.folds segments) →
    Segment.evalAllBy r b checked env segments = Segment.evalAll r checked env segments
  | [], _, _ => rfl
  | s :: rest, ht, hkeeps => by
    simp only [Segment.allTyped, Bool.and_eq_true] at ht
    obtain ⟨hkeepss, hkeeps⟩ := Build.keeps_append.1 hkeeps
    simp only [Segment.evalAllBy, Segment.evalAll, segment_evalBy_eq s ht.1 hkeepss,
      evalAllBy_eq rest ht.2 hkeeps]

end

/-! ## Statements -/

variable {declared : Ty}

theorem Env.Fits.cons {x : String} {t : Ty} {v : Value} (henv : env.Fits r)
    (hv : TypedTemplate.Fits r t v) : Env.Fits r (⟨x, t, v⟩ :: env) := by
  intro y binding h
  rw [Env.get?_cons] at h
  split at h
  · cases h
    exact hv
  · exact henv y binding h

/-- Typed statements give a value of the declared type that is not null, or a checked overflow. -/
theorem stmts_safe (stmts : List Stmt) (henv : env.Fits r)
    (ht : Stmt.typed r declared env.typing stmts = true) :
    Safe checked (fun v => Fits r declared v ∧ v.isNull = false)
      (Stmt.evalAll r (Expr.evalBy r b checked) declared env stmts) := by
  induction stmts generalizing env with
  | nil => simp [Stmt.typed] at ht
  | cons s rest ih =>
    cases s with
    | letBinding x value span =>
      simp only [Stmt.typed] at ht
      split at ht
      · rename_i t hvalue
        apply (evalBy_safe henv value hvalue).bind
        intro v hv
        rw [hvalue, Option.getD_some]
        refine ih (henv.cons hv) ?_
        rwa [Env.typing_cons]
      · simp at ht
    | ret value span =>
      simp only [Stmt.typed] at ht
      split at ht
      · rename_i t hvalue
        apply (evalBy_safe henv value hvalue).bind
        intro v hv
        rw [kind_of_type hvalue]
        cases hresult : Rule.result r declared t with
        | error e => simp [hresult, Except.isOk, Except.toBool] at ht
        | ok is => exact Rule.result_fits hresult hv
      · simp at ht

/-- Where floats are read as they are, typed statements give their value. -/
theorem stmts_eq (stmts : List Stmt) (ht : Stmt.typed r declared env.typing stmts = true)
    (hkeeps : b.Keeps (Stmt.loads b.folds stmts)) :
    Stmt.evalAll r (Expr.evalBy r b checked) declared env stmts =
      Stmt.evalAll r (Expr.eval r checked) declared env stmts := by
  induction stmts generalizing env with
  | nil => rfl
  | cons s rest ih =>
    cases s with
    | letBinding x value span =>
      simp only [Stmt.typed] at ht
      split at ht
      · rename_i t hvalue
        obtain ⟨hkeepsv, hkeeps⟩ := Build.keeps_append.1 hkeeps
        simp only [Stmt.evalAll, evalBy_eq_eval value hvalue hkeepsv]
        congr 1
        funext v
        refine ih ?_ hkeeps
        rw [Env.typing_cons, hvalue]
        exact ht
      · simp at ht
    | ret value span =>
      simp only [Stmt.typed] at ht
      split at ht
      · rename_i t hvalue
        simp only [Stmt.evalAll, evalBy_eq_eval value hvalue hkeeps]
      · simp at ht

end TypedTemplate
