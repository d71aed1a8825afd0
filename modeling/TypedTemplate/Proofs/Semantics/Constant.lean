-- SUMMARY: The value of a constant expression is what the expression evaluates to.
import TypedTemplate.Compile.Constant
import TypedTemplate.Proofs.Semantics.Fits

/-!
# Constant expressions

Constants are computed from values alone, evaluation goes by static types. On a
typed expression the two agree: a constant fits its type, so its constructor tells
what the type would have told. Nothing is a constant whose evaluation fails.
-/

namespace TypedTemplate

/-! ## Operations -/

namespace Value

variable {r : Registry} {checked : Bool} {line : Nat} {a b t u : Ty} {v w x : Value}
  {is : List Instr}

theorem fitOr_of_checked {signed : Bool} {n : Int} (h : fitOr true signed n = .ok v) :
    fitOr checked signed n = .ok v := by
  unfold fitOr at h ⊢
  split at h
  · exact h
  · simp at h

theorem neg_of_checked (h : v.neg true = .ok x) : v.neg checked = .ok x := by
  unfold neg at h ⊢
  split at h
  · exact fitOr_of_checked h
  · simp at h

theorem arith_of_checked {op : ArithOp} (h : v.arith op w true = .ok x) :
    v.arith op w checked = .ok x := by
  unfold arith at h ⊢
  split at h
  · exact fitOr_of_checked h
  · simp at h

theorem toOption_eq_some {ε α : Type} {y : Except ε α} {z : α} (h : y.toOption = some z) :
    y = .ok z := by
  cases y <;> simp_all [Except.toOption]

theorem foldUnary?_eval {op : UnaryOp} (h : Rule.unary r .standard op t = .ok (is, u))
    (hv : Fits r t v) (hfold : foldUnary? op v = some x) :
    v.evalUnary op checked line t.kind = .ok x := by
  cases op with
  | not =>
    cases v <;> simp only [foldUnary?, reduceCtorEq] at hfold
    cases hfold
    rfl
  | neg =>
    cases hv with
    | float n y =>
      cases hfold
      rfl
    | int n i =>
      have hneg : (Value.int i).neg checked = .ok x := neg_of_checked (toOption_eq_some hfold)
      simp only [evalUnary, reduceCtorEq, if_false, hneg]
      rfl
    | uint n i =>
      have hneg : (Value.uint i).neg checked = .ok x := neg_of_checked (toOption_eq_some hfold)
      simp only [evalUnary, reduceCtorEq, if_false, hneg]
      rfl
    | _ => simp [foldUnary?, neg, wide?, Except.toOption] at hfold

theorem foldArith?_eval {op : ArithOp} (h : Rule.arith r .standard op a b = .ok (is, u))
    (hv : Fits r a v) (hw : Fits r b w) (hfold : foldArith? op v w = some x) :
    v.evalArith op checked line a.kind b.kind w = .ok x := by
  have hints (h : foldArith? op v w = (v.arith op w true).toOption) :
      (v.arith op w checked).mapError (IntFault.toError op.symbol line [v, w]) = .ok x := by
    rw [arith_of_checked (toOption_eq_some (h.symm.trans hfold))]
    rfl
  obtain ⟨ha, hb, hka, hkb, -⟩ := Rule.arith_ok h
  obtain ⟨ka, _⟩ := a
  obtain ⟨kb, _⟩ := b
  simp only at ha hb hka hkb
  subst ha hb
  rcases hka with rfl | rfl <;> rcases hkb with rfl | rfl <;> cases hv <;> cases hw <;>
    first
    | exact hints rfl
    | (cases hfold; rfl)

theorem isNull_convert (k l : TyKind) (v : Value) : (v.convert k l).isNull = v.isNull := by
  unfold convert
  split
  · cases v <;> rfl
  · rfl

theorem null_same (w : Value) : null.same w = w.isNull := by
  cases w <;> rfl

theorem same_null (v : Value) : v.same null = v.isNull := by
  cases v <;> simp [same, isNull, wide?]

/-- Comparing without static types is comparing after conversion. -/
theorem foldEqual?_eval {e : Bool} (hv : Fits r a v) (hw : Fits r b w)
    (hfold : foldEqual? v w = some e) :
    (v.convert a.kind b.kind).same (w.convert b.kind a.kind) = e := by
  by_cases hvnull : v = .null
  · subst hvnull
    have hconvert : null.convert a.kind b.kind = null := by
      unfold convert
      split <;> rfl
    rw [hconvert, null_same, isNull_convert, ← null_same w]
    simpa [foldEqual?, alike, isNull, float?] using hfold
  by_cases hwnull : w = .null
  · subst hwnull
    have hconvert : null.convert b.kind a.kind = null := by
      unfold convert
      split <;> rfl
    rw [hconvert, same_null, isNull_convert, ← same_null v]
    simpa [foldEqual?, alike, isNull, float?] using hfold
  cases hv <;> cases hw <;> first | exact absurd rfl hvnull | exact absurd rfl hwnull | skip
  all_goals
    simp [foldEqual?, alike, isNull, isFloat, float?, typeName] at hfold <;>
      first
      | exact hfold
      | exact hfold.2

theorem foldBinary?_eval {op : BinaryOp} (h : Rule.binary r .standard op a b = .ok (is, u))
    (hv : Fits r a v) (hw : Fits r b w) (hfold : foldBinary? op v w = some x) :
    v.evalBinary op checked line a.kind b.kind w = .ok x := by
  cases op with
  | coalesce => simp [foldBinary?] at hfold
  | sub => exact foldArith?_eval h hv hw hfold
  | mul => exact foldArith?_eval h hv hw hfold
  | equal =>
    obtain ⟨e, he, rfl⟩ := Option.map_eq_some_iff.1 hfold
    simp only [evalBinary, foldEqual?_eval hv hw he]
  | notEqual =>
    obtain ⟨e, he, rfl⟩ := Option.map_eq_some_iff.1 hfold
    simp only [evalBinary, foldEqual?_eval hv hw he]
  | add =>
    have hstr {t : Ty} {v : Value} (hv : Fits r t v) (h : v.str?.isSome = true) : t.kind = .str := by
      cases hv <;> simp [str?] at h ⊢
    have hnull {t : Ty} {v : Value} (hv : Fits r t v) (ht : t.kind = .str)
        (h : ¬v.str?.isSome = true) : v = .null := by
      cases hv <;> simp_all [str?]
    simp only [foldBinary?] at hfold
    simp only [Rule.binary, Rule.add] at h
    split at hfold <;> rename_i htext
    · cases hfold
      have hkinds : a.kind = .str ∨ b.kind = .str := by
        rcases Bool.or_eq_true_iff.1 htext with h | h
        · exact .inl (hstr hv h)
        · exact .inr (hstr hw h)
      simp only [evalBinary, if_pos hkinds]
    · simp only [Bool.or_eq_true, not_or] at htext
      -- with null for a string the sum is not constant
      have hkinds : ¬(a.kind = .str ∨ b.kind = .str) := by
        rintro (ha | hb)
        · obtain rfl := hnull hv ha htext.1
          cases w <;> simp [foldArith?, isFloat, float?, arith, wide?, Except.toOption] at hfold
        · obtain rfl := hnull hw hb htext.2
          cases v <;> simp [foldArith?, isFloat, float?, arith, wide?, Except.toOption] at hfold
      rw [if_neg hkinds] at h
      simp only [evalBinary, if_neg hkinds]
      exact foldArith?_eval h hv hw hfold

theorem foldMethod?_eval {name : String} (hfold : foldMethod? name v = some x) :
    v.evalMethod name = .ok x := by
  unfold foldMethod? at hfold
  split at hfold
  · cases hfold
    rfl
  · cases hfold
    rfl
  · cases hfold
    rfl
  · cases hfold
    rfl
  · cases hfold
    rfl
  · simp at hfold

theorem foldHole?_eval {format : Option FormatSpec} {s : String}
    (hfold : foldHole? format v = some s) : v.evalHole format = .ok s := by
  cases format with
  | none =>
    cases hfold
    rfl
  | some spec => exact toOption_eq_some hfold

end Value

/-! ## Expressions -/

theorem Literal.fits (r : Registry) (l : Literal) : Fits r l.type l.value := by
  cases l
  · exact .int _ _
  · exact .float _ _
  · exact .bool _ _
  · exact .str _ _
  · exact .null _

theorem eval_binary {r : Registry} {checked : Bool} {env : Env} {op : BinaryOp}
    (left right : Expr) (span : Span) (hop : op ≠ .coalesce) :
    (Expr.binary op left right span).eval r checked env =
      (left.eval r checked env).bind fun v => (right.eval r checked env).bind fun w =>
        v.evalBinary op checked span.line (left.kind r env) (right.kind r env) w := by
  cases op <;> first | rfl | exact absurd rfl hop

theorem constant?_binary {op : BinaryOp} {left right : Expr} {span : Span} {x : Value}
    (hop : op ≠ .coalesce) (h : (Expr.binary op left right span).constant? = some x) :
    ∃ v w, left.constant? = some v ∧ right.constant? = some w ∧
      Value.foldBinary? op v w = some x := by
  have hconstant : (Expr.binary op left right span).constant? =
      left.constant?.bind fun a => right.constant?.bind (Value.foldBinary? op a) := by
    cases op with
    | coalesce => exact absurd rfl hop
    | _ => cases hl : left.constant? <;> simp [Expr.constant?, hl]
  rw [hconstant] at h
  obtain ⟨v, hv, h⟩ := Option.bind_eq_some_iff.1 h
  obtain ⟨w, hw, hx⟩ := Option.bind_eq_some_iff.1 h
  exact ⟨v, w, hv, hw, hx⟩

theorem constant?_coalesce {left right : Expr} {span : Span} {x : Value}
    (h : (Expr.binary .coalesce left right span).constant? = some x) :
    left.constant? = some .null ∧ right.constant? = some x := by
  simp only [Expr.constant?] at h
  split at h
  · exact ⟨‹_›, h⟩
  · simp at h

theorem constant?_ternary {e t f : Expr} {span : Span} {x : Value}
    (h : (Expr.ternary e t f span).constant? = some x) :
    ∃ b v w, e.constant? = some (.bool b) ∧ t.constant? = some v ∧ f.constant? = some w ∧
      x = if b then v else w := by
  simp only [Expr.constant?] at h
  split at h
  · rename_i k hk
    split at h
    · rename_i v hv
      obtain ⟨w, hw, hx⟩ := Option.bind_eq_some_iff.1 h
      unfold Value.foldTernary? at hx
      split at hx
      · split at hx
        · exact ⟨_, v, w, hk, hv, hw, (Option.some.inj hx).symm⟩
        · simp at hx
      · simp at hx
    · simp at h
  · simp at h

section

variable {r : Registry} {checked : Bool} {env : Env}

theorem kind_of_type {e : Expr} {t : Ty} (h : e.type? r env.typing = some t) :
    e.kind r env = t.kind := by
  simp [Expr.kind, h]

mutual

/-- A typed constant expression evaluates to its value, which fits its type. -/
theorem constant_sound : (e : Expr) → ∀ {t : Ty} {v : Value}, e.type? r env.typing = some t →
    e.constant? = some v → Fits r t v ∧ e.eval r checked env = .ok v
  | .literal l _, _, _, ht, hv => by
    cases ht
    cases hv
    exact ⟨l.fits r, rfl⟩
  | .name _, _, _, _, hv => by simp [Expr.constant?] at hv
  | .member _ _ _, _, _, _, hv => by simp [Expr.constant?] at hv
  | .call e method args span, _, x, ht, hv => by
    obtain ⟨t, is, he, rfl, hrule⟩ := type?_call.1 ht
    obtain ⟨v, hv, hfold⟩ := Option.bind_eq_some_iff.1 (hv : e.constant?.bind _ = some x)
    obtain ⟨hfits, heval⟩ := constant_sound e he hv
    have hmethod := Value.foldMethod?_eval hfold
    have hsafe : Safe checked _ (v.evalMethod method.name) := Rule.method_safe hrule hfits
    rw [hmethod] at hsafe
    refine ⟨hsafe, ?_⟩
    simp only [Expr.eval, heval]
    exact hmethod
  | .unary op e span, _, x, ht, hv => by
    obtain ⟨t, is, he, hrule⟩ := type?_unary.1 ht
    obtain ⟨v, hv, hfold⟩ := Option.bind_eq_some_iff.1 (hv : e.constant?.bind _ = some x)
    obtain ⟨hfits, heval⟩ := constant_sound e he hv
    have hunary : v.evalUnary op checked span.line t.kind = .ok x :=
      Value.foldUnary?_eval hrule hfits hfold
    have hsafe : Safe checked _ (v.evalUnary op checked span.line t.kind) :=
      Rule.unary_safe hrule hfits
    rw [hunary] at hsafe
    refine ⟨hsafe, ?_⟩
    simp only [Expr.eval, heval, kind_of_type he]
    exact hunary
  | .binary op l r' span, _, x, ht, hv => by
    by_cases hop : op = .coalesce
    · subst hop
      obtain ⟨a, b, hl, hr, hrule⟩ := type?_coalesce.1 ht
      obtain ⟨hlnull, hrx⟩ := constant?_coalesce hv
      obtain ⟨hlfits, hleval⟩ := constant_sound l hl hlnull
      obtain ⟨hrfits, hreval⟩ := constant_sound r' hr hrx
      refine ⟨Rule.coalesce_fits hrule hlfits x hrfits, ?_⟩
      simp only [Expr.eval, hleval]
      exact hreval
    · obtain ⟨a, b, is, hl, hr, hrule⟩ := type?_binary.1 ht
      obtain ⟨v, w, hlv, hrw, hfold⟩ := constant?_binary hop hv
      obtain ⟨hlfits, hleval⟩ := constant_sound l hl hlv
      obtain ⟨hrfits, hreval⟩ := constant_sound r' hr hrw
      have hbinary : v.evalBinary op checked span.line a.kind b.kind w = .ok x :=
        Value.foldBinary?_eval hrule hlfits hrfits hfold
      have hsafe : Safe checked _ (v.evalBinary op checked span.line a.kind b.kind w) :=
        Rule.binary_safe hop hrule hlfits hrfits
      rw [hbinary] at hsafe
      refine ⟨hsafe, ?_⟩
      rw [eval_binary l r' span hop, hleval, hreval, kind_of_type hl, kind_of_type hr]
      exact hbinary
  | .ternary e t f span, _, _, ht, hv => by
    obtain ⟨a, b, he, hat, hbf, hrule⟩ := type?_ternary.1 ht
    obtain ⟨k, v, w, hek, htv, hfw, rfl⟩ := constant?_ternary hv
    obtain ⟨-, hkeval⟩ := constant_sound e he hek
    obtain ⟨hvfits, hveval⟩ := constant_sound t hat htv
    obtain ⟨hwfits, hweval⟩ := constant_sound f hbf hfw
    obtain ⟨hjoin, hjoin'⟩ := Rule.join_fits hrule
    simp only [Expr.eval, hkeval]
    cases k with
    | true => exact ⟨hjoin v hvfits, hveval⟩
    | false => exact ⟨hjoin' w hwfits, hweval⟩
  | .interpolated parts span, _, x, ht, hv => by
    obtain ⟨htyped, rfl⟩ := type?_interpolated.1 ht
    obtain ⟨s, hs, rfl⟩ := Option.map_eq_some_iff.1 (hv : (Segment.constantOnto? "" parts).map _ = some x)
    obtain ⟨u, hu, rfl⟩ := constants_sound parts htyped hs
    refine ⟨.str _ _, ?_⟩
    simp only [Expr.eval, hu, String.empty_append]
    rfl
  | .paren e _, _, _, ht, hv => constant_sound e ht hv

theorem constant_sound_segment : (s : Segment) → ∀ {t : String}, s.typed r env.typing = true →
    s.constant? = some t → s.eval r checked env = .ok t
  | .text s, _, _, ht => by
    cases ht
    rfl
  | .hole e format span, s, htyped, hs => by
    obtain ⟨t, he, -⟩ := typed_hole.1 htyped
    obtain ⟨v, hv, hfold⟩ := Option.bind_eq_some_iff.1 (hs : e.constant?.bind _ = some s)
    obtain ⟨-, heval⟩ := constant_sound e he hv
    simp only [Segment.eval, heval]
    exact Value.foldHole?_eval hfold

theorem constants_sound : (segments : List Segment) → ∀ {out s : String},
    Segment.allTyped r env.typing segments = true →
    Segment.constantOnto? out segments = some s →
    ∃ u, Segment.evalAll r checked env segments = .ok u ∧ s = out ++ u
  | [], _, _, _, hs => by
    cases hs
    exact ⟨"", rfl, by simp⟩
  | s :: rest, out, _, htyped, hs => by
    simp only [Segment.allTyped, Bool.and_eq_true] at htyped
    simp only [Segment.constantOnto?] at hs
    split at hs
    · rename_i t ht
      have hfirst := constant_sound_segment s htyped.1 ht
      obtain ⟨u, hu, rfl⟩ := constants_sound rest htyped.2 hs
      refine ⟨t ++ u, ?_, by simp [String.append_assoc]⟩
      simp only [Segment.evalAll, hfirst, hu]
      rfl
    · simp at hs

end

end

end TypedTemplate
