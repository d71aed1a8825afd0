-- SUMMARY: Values that are of a static type, and operations that stay within the types of their rules.
import TypedTemplate.Proofs.Semantics.Eval

/-!
# Values of a type

A value fits a type when it is of its kind, or null where that is allowed. An
instance fits a model type when its identity is that of the registered shape and
each of its fields fits the type of the field. Operations on values that fit the
types of their operands give a value that fits the type of the result. The only
error they may end in is an integer overflow, and that only when it is checked.
-/

namespace TypedTemplate

/-- The value is of the type. Fields of model types that are not registered are never read. -/
inductive Fits (r : Registry) : Ty → Value → Prop
  | null (k : TyKind) : Fits r ⟨k, true⟩ .null
  | bool (n b : Bool) : Fits r ⟨.bool, n⟩ (.bool b)
  | int (n : Bool) (i : Int64) : Fits r ⟨.int, n⟩ (.int i)
  | uint (n : Bool) (u : UInt64) : Fits r ⟨.int, n⟩ (.uint u)
  | float (n : Bool) (x : Float) : Fits r ⟨.float, n⟩ (.float x)
  | str (n : Bool) (s : String) : Fits r ⟨.str, n⟩ (.str s)
  | object (n : Bool) (id : ShapeId) (s : RegisteredShape) (m : Instance)
      (shape : r.shape? id = some s) (hash : m.typeHash = s.hash)
      (present : ∀ i f t, s.shape.fields[i]? = some f → Ty.ofField? r f.kind = some t →
        (m.field i).isSome)
      (fields : ∀ i f t v, s.shape.fields[i]? = some f → Ty.ofField? r f.kind = some t →
        m.field i = some v → Fits r t v) :
      Fits r ⟨.model id, n⟩ (.object m)

namespace Fits

variable {r : Registry} {n : Bool} {k : TyKind} {t : Ty} {v : Value}

theorem orNull (h : Fits r t v) (b : Bool) : Fits r (t.orNull b) v := by
  cases h <;> simp only [Ty.orNull, Bool.true_or]
  · exact null _
  · exact bool _ _
  · exact int _ _
  · exact uint _ _
  · exact float _ _
  · exact str _ _
  · exact object _ _ _ _ ‹_› ‹_› ‹_› ‹_›

/-- What fits a type that null does not fit also fits with null. -/
theorem of_kind (h : Fits r ⟨k, false⟩ v) (n : Bool) : Fits r ⟨k, n⟩ v := by
  simpa [Ty.orNull] using h.orNull n

/-- A value that is not null fits without null. -/
theorem nonNull (h : Fits r t v) (hv : v.isNull = false) (n : Bool) : Fits r ⟨t.kind, n⟩ v := by
  cases h with
  | null => simp [Value.isNull] at hv
  | bool => exact bool _ _
  | int => exact int _ _
  | uint => exact uint _ _
  | float => exact float _ _
  | str => exact str _ _
  | object => exact object _ _ _ _ ‹_› ‹_› ‹_› ‹_›

theorem isNull_eq_false (h : Fits r ⟨k, false⟩ v) : v.isNull = false := by
  cases h <;> rfl

theorem eq_null (h : Fits r ⟨.null, n⟩ v) : v = .null := by
  cases h
  rfl

theorem eq_bool (h : Fits r ⟨.bool, false⟩ v) : ∃ b, v = .bool b := by
  cases h
  exact ⟨_, rfl⟩

theorem eq_float (h : Fits r ⟨.float, false⟩ v) : ∃ x, v = .float x := by
  cases h
  exact ⟨_, rfl⟩

theorem wide? (h : Fits r ⟨.int, false⟩ v) : ∃ x, v.wide? = some x := by
  cases h <;> exact ⟨_, rfl⟩

theorem eq_str (h : Fits r ⟨.str, n⟩ v) : v = .null ∧ n = true ∨ ∃ s, v = .str s := by
  cases h
  · exact .inl ⟨rfl, rfl⟩
  · exact .inr ⟨_, rfl⟩

/-- A number that is not null is a float after conversion to one. -/
theorem convert_float (h : Fits r ⟨k, false⟩ v) (hk : k = .int ∨ k = .float) :
    ∃ x, v.convert k .float = .float x := by
  rcases hk with rfl | rfl
  · cases h <;> exact ⟨_, rfl⟩
  · cases h
    exact ⟨_, rfl⟩

end Fits

/-! ## Safety -/

/-- The outcome is a result as wanted, or an integer overflow that was checked for. -/
def Safe {α : Type} (checked : Bool) (want : α → Prop) : Except RuntimeError α → Prop
  | .ok a                         => want a
  | .error (.integerOverflow _ _) => checked = true
  | .error _                      => False

namespace Safe

variable {α β : Type} {checked : Bool} {want : α → Prop} {want' : β → Prop}
  {x : Except RuntimeError α} {next : α → Except RuntimeError β}

theorem outcome (h : Safe checked want x) :
    (∃ a, x = .ok a ∧ want a) ∨
      checked = true ∧ ∃ op line, x = .error (.integerOverflow op line) := by
  cases x with
  | ok a => exact .inl ⟨a, rfl, h⟩
  | error e =>
    cases e with
    | integerOverflow op line => exact .inr ⟨h, op, line, rfl⟩
    | _ => exact h.elim

theorem bind (h : Safe checked want x) (hnext : ∀ a, want a → Safe checked want' (next a)) :
    Safe checked want' (x.bind next) := by
  cases x with
  | ok a => exact hnext a h
  | error e => cases e <;> exact h

theorem imp {want' : α → Prop} (h : Safe checked want x) (himp : ∀ a, want a → want' a) :
    Safe checked want' x := by
  cases x with
  | ok a => exact himp a h
  | error e => cases e <;> exact h

end Safe

/-! ## Operators -/

section

variable {r : Registry} {checked : Bool} {line : Nat} {a b t u : Ty} {v w : Value}
  {is : List Instr}

theorem fit?_fits {signed : Bool} {n : Int} (h : Value.fit? signed n = some v) :
    Fits r .int v := by
  have hsigned (h : Value.ofSigned? n = some v) : Fits r .int v := by
    unfold Value.ofSigned? at h
    split at h
    · cases h
      exact .int _ _
    · simp at h
  unfold Value.fit? at h
  split at h
  · exact hsigned h
  · unfold Value.ofWide? at h
    split at h
    · cases h
      exact .int _ _
    · split at h
      · cases h
        exact .uint _ _
      · simp at h

theorem fitOr_fits {signed : Bool} {n : Int} (h : Value.fitOr checked signed n = .ok v) :
    Fits r .int v := by
  unfold Value.fitOr at h
  split at h
  · cases h
    exact fit?_fits ‹_›
  · split at h
    · simp at h
    · cases h
      exact .int _ _

theorem fitOr_safe (signed : Bool) (n : Int) (symbol : String) (operands : List Value) :
    Safe checked (Fits r .int)
      ((Value.fitOr checked signed n).mapError (IntFault.toError symbol line operands)) := by
  cases h : Value.fitOr checked signed n with
  | ok v => exact fitOr_fits h
  | error e =>
    unfold Value.fitOr at h
    split at h
    · simp at h
    · split at h
      · cases h
        assumption
      · simp at h

theorem Rule.unary_safe {op : UnaryOp} (h : Rule.unary r .standard op t = .ok (is, u))
    (hv : Fits r t v) : Safe checked (Fits r u) (v.evalUnary op checked line t.kind) := by
  cases op with
  | not =>
    simp only [Rule.unary] at h
    split at h
    · subst t
      obtain ⟨-, rfl⟩ : _ ∧ Ty.bool = u := by simpa using h
      obtain ⟨b, rfl⟩ := hv.eq_bool
      exact Fits.bool _ _
    · simp [Rule.unary.mismatch] at h
  | neg =>
    simp only [Rule.unary] at h
    split at h
    · subst t
      obtain ⟨-, rfl⟩ : _ ∧ Ty.int = u := by simpa using h
      obtain ⟨x, hx⟩ := hv.wide?
      have hneg : v.neg checked = Value.fitOr checked true (-x) := by simp [Value.neg, hx]
      have hint : ¬Ty.int.kind = .float := by decide
      simp only [Value.evalUnary, if_neg hint, hneg]
      exact fitOr_safe true (-x) _ _
    · split at h
      · subst t
        obtain ⟨-, rfl⟩ : _ ∧ Ty.float = u := by simpa using h
        obtain ⟨x, rfl⟩ := hv.eq_float
        exact Fits.float _ _
      · simp [Rule.unary.mismatch] at h

/-- What arithmetic asks of its operands, and the type of its result. -/
theorem Rule.arith_ok {op : ArithOp} (h : Rule.arith r .standard op a b = .ok (is, u)) :
    a.nullable = false ∧ b.nullable = false ∧ (a.kind = .int ∨ a.kind = .float) ∧
      (b.kind = .int ∨ b.kind = .float) ∧
      u = if a.kind = .int ∧ b.kind = .int then .int else .float := by
  unfold Rule.arith at h
  split at h
  · simp at h
  · rename_i hoperands
    simp only [Bool.or_eq_true, Bool.not_eq_true', not_or, Bool.not_eq_true, Ty.isNumeric,
      Bool.not_eq_false, beq_iff_eq] at hoperands
    obtain ⟨⟨⟨ha, hb⟩, hka⟩, hkb⟩ := hoperands
    have hints : (a = .int ∧ b = .int) ↔ (a.kind = .int ∧ b.kind = .int) := by
      cases a
      cases b
      simp_all [Ty.int]
    refine ⟨ha, hb, hka, hkb, ?_⟩
    split at h <;> rename_i hif <;> simp only [Except.ok.injEq, Prod.mk.injEq] at h
    · rw [if_pos (hints.1 hif), h.2]
    · rw [if_neg (fun hk => hif (hints.2 hk)), h.2]

theorem Rule.arith_safe {op : ArithOp} (h : Rule.arith r .standard op a b = .ok (is, u))
    (hv : Fits r a v) (hw : Fits r b w) :
    Safe checked (Fits r u) (v.evalArith op checked line a.kind b.kind w) := by
  obtain ⟨ha, hb, hka, hkb, rfl⟩ := Rule.arith_ok h
  obtain ⟨ka, _⟩ := a
  obtain ⟨kb, _⟩ := b
  simp only at ha hb hka hkb
  subst ha hb
  unfold Value.evalArith
  by_cases hints : ka = .int ∧ kb = .int
  · rw [if_pos hints, if_pos hints]
    obtain ⟨rfl, rfl⟩ := hints
    obtain ⟨x, hx⟩ := hv.wide?
    obtain ⟨y, hy⟩ := hw.wide?
    have harith : v.arith op w checked =
        Value.fitOr checked (v.isSigned || w.isSigned) (op.exact x y) := by
      simp [Value.arith, hx, hy]
    rw [harith]
    exact fitOr_safe _ _ _ _
  · rw [if_neg hints, if_neg hints]
    -- one of the two is a float, so both are after conversion
    have hfloat : ∃ x y, v.convert ka kb = .float x ∧ w.convert kb ka = .float y := by
      rcases hka with rfl | rfl <;> rcases hkb with rfl | rfl
      · exact absurd ⟨rfl, rfl⟩ hints
      · obtain ⟨x, hx⟩ := hv.convert_float (.inl rfl)
        obtain ⟨y, rfl⟩ := hw.eq_float
        exact ⟨x, y, hx, rfl⟩
      · obtain ⟨y, hy⟩ := hw.convert_float (.inl rfl)
        obtain ⟨x, rfl⟩ := hv.eq_float
        exact ⟨x, y, rfl, hy⟩
      · obtain ⟨x, rfl⟩ := hv.eq_float
        obtain ⟨y, rfl⟩ := hw.eq_float
        exact ⟨x, y, rfl, rfl⟩
    obtain ⟨x, y, hx, hy⟩ := hfloat
    rw [hx, hy]
    exact Fits.float _ _

theorem Rule.equality_type {positive : Bool} (h : Rule.equality r positive a b = .ok (is, u)) :
    u = .bool := by
  unfold Rule.equality at h
  split at h
  · exact (by simpa using h : _ ∧ Ty.bool = u).2.symm
  · simp at h

theorem Rule.binary_safe {op : BinaryOp} (hop : op ≠ .coalesce)
    (h : Rule.binary r .standard op a b = .ok (is, u)) (hv : Fits r a v) (hw : Fits r b w) :
    Safe checked (Fits r u) (v.evalBinary op checked line a.kind b.kind w) := by
  cases op with
  | coalesce => exact absurd rfl hop
  | sub => exact Rule.arith_safe h hv hw
  | mul => exact Rule.arith_safe h hv hw
  | equal =>
    obtain rfl := Rule.equality_type h
    exact Fits.bool _ _
  | notEqual =>
    obtain rfl := Rule.equality_type h
    exact Fits.bool _ _
  | add =>
    simp only [Rule.binary, Rule.add] at h
    split at h <;> rename_i htext
    · obtain ⟨-, rfl⟩ : _ ∧ Ty.str = u := by simpa using h
      simp only [Value.evalBinary, if_pos htext]
      exact Fits.str _ _
    · simp only [Value.evalBinary, if_neg htext]
      exact Rule.arith_safe h hv hw

/-- The left operand of `??` decides. -/
theorem Rule.coalesce_fits (h : Rule.coalesce r a b = .ok u) (hv : Fits r a v) :
    if v.isNull then ∀ w, Fits r b w → Fits r u w else Fits r u v := by
  unfold Rule.coalesce at h
  split at h <;> rename_i ha
  · obtain ⟨ka, n⟩ := a
    simp only at ha
    subst ha
    obtain rfl := hv.eq_null
    cases h
    exact fun w hw => hw
  · split at h <;> rename_i hb
    · cases h
      split <;> rename_i hnull
      · obtain ⟨kb, n⟩ := b
        simp only at hb
        subst hb
        intro w hw
        obtain rfl := hw.eq_null
        simpa [Ty.orNull] using Fits.null a.kind
      · exact hv.orNull true
    · split at h <;> rename_i hkind
      · cases h
        split <;> rename_i hnull
        · intro w hw
          rw [hkind]
          exact hw
        · exact hv.nonNull (by simpa using hnull) _
      · simp at h

/-- Both branches of a conditional are of the joined type. -/
theorem Rule.join_fits (h : Rule.join r a b = .ok u) :
    (∀ v, Fits r a v → Fits r u v) ∧ ∀ w, Fits r b w → Fits r u w := by
  have hnull {t : Ty} (ht : t.kind = .null) {v : Value} (hv : Fits r t v) (t' : Ty) :
      Fits r (t'.orNull true) v := by
    obtain ⟨kt, n⟩ := t
    simp only at ht
    subst ht
    obtain rfl := hv.eq_null
    simpa [Ty.orNull] using Fits.null t'.kind
  unfold Rule.join at h
  split at h <;> rename_i ha
  · cases h
    exact ⟨fun v hv => hnull ha hv b, fun w hw => hw.orNull true⟩
  · split at h <;> rename_i hb
    · cases h
      exact ⟨fun v hv => hv.orNull true, fun w hw => hnull hb hw a⟩
    · split at h <;> rename_i hkind
      · cases h
        refine ⟨fun v hv => hv.orNull _, fun w hw => ?_⟩
        have hw' := hw.orNull a.nullable
        simpa [Ty.orNull, hkind, Bool.or_comm] using hw'
      · simp at h

/-! ## Fields, methods and formats -/

theorem Rule.member_safe {name : String} {i : Nat} (h : Rule.member r t name = .ok (i, u))
    (hv : Fits r t v) : Safe checked (Fits r u) (v.evalField r t.kind name) := by
  have hindex := fieldIndex?_of_member h
  obtain ⟨id, s, f, ft, hkind, hs, hf, hft, rfl⟩ := Rule.member_ok h
  simp only [Shape.field, Option.bind_eq_some_iff, Option.map_eq_some_iff, Prod.mk.injEq] at hf
  obtain ⟨j, -, f', hfield, rfl, rfl⟩ := hf
  cases hv with
  | null k => simpa [Value.evalField, Safe, Ty.orNull] using Fits.null ft.kind
  | object n id' s' m shape hash present fields =>
    obtain rfl : id' = id := by simpa using hkind
    obtain rfl : s' = s := by simpa [hs] using shape.symm
    obtain ⟨w, hw⟩ := Option.isSome_iff_exists.1 (present j f' ft hfield hft)
    simp only at hindex
    simp only [Value.evalField, hindex, Option.bind_some, hw]
    exact (fields j f' ft w hfield hft hw).orNull n
  | _ => simp at hkind

theorem Rule.method_safe {name : String} (h : Rule.method r name t = .ok (is, u))
    (hv : Fits r t v) : Safe checked (Fits r u) (v.evalMethod name) := by
  obtain ⟨k, n⟩ := t
  -- a method of strings on a value that may be null
  have htext {op : String → Value} {t' : Ty} (hk : k = .str) (hop : ∀ s, Fits r t' (op s)) :
      Safe checked (Fits r (t'.orNull n)) (v.onText op) := by
    subst hk
    rcases hv.eq_str with ⟨rfl, rfl⟩ | ⟨s, rfl⟩
    · simpa [Value.onText, Safe, Ty.orNull] using Fits.null t'.kind
    · exact (hop s).orNull n
  unfold Rule.method at h
  split at h <;> rename_i hk
  · obtain ⟨-, rfl⟩ : _ ∧ Ty.str = u := by simpa using h
    exact Fits.str _ _
  · obtain ⟨-, rfl⟩ : _ ∧ Ty.str.orNull n = u := by simpa using h
    exact htext hk fun _ => Fits.str _ _
  · obtain ⟨-, rfl⟩ : _ ∧ Ty.str.orNull n = u := by simpa using h
    exact htext hk fun _ => Fits.str _ _
  · obtain ⟨-, rfl⟩ : _ ∧ Ty.str.orNull n = u := by simpa using h
    exact htext hk fun _ => Fits.str _ _
  · obtain ⟨-, rfl⟩ : _ ∧ Ty.int.orNull n = u := by simpa using h
    exact htext hk fun _ => Fits.int _ _
  · simp at h

/-- A value of a type that a hole takes has a text there. -/
theorem Rule.takes_ok {format : Option FormatSpec} (h : Rule.takes format t = true)
    (hv : Fits r t v) : ∃ s, v.evalHole format = .ok s := by
  cases format with
  | none => exact ⟨_, rfl⟩
  | some spec =>
    simp only [Rule.takes] at h
    simp only [Value.evalHole]
    cases hv <;> cases hkind : spec.kind <;> rw [hkind] at h <;>
      first | exact ⟨_, rfl⟩ | exact absurd h Bool.false_ne_true

/-- A `return` gives a value of the declared type that is not null. -/
theorem Rule.result_fits (h : Rule.result r t u = .ok is) (hv : Fits r u v) :
    Fits r t (v.convert u.kind t.kind) ∧ (v.convert u.kind t.kind).isNull = false := by
  obtain ⟨ku, nu⟩ := u
  obtain ⟨kt, nt⟩ := t
  unfold Rule.result at h
  split at h
  · simp [Rule.result.mismatch] at h
  · rename_i hnull
    simp only [Bool.not_eq_true] at hnull
    subst hnull
    split at h <;> rename_i hkind
    · simp only at hkind
      subst hkind
      have hsame : v.convert ku ku = v := by
        unfold Value.convert
        rw [if_neg]
        rintro ⟨hint, hfloat⟩
        exact absurd (hint.symm.trans hfloat) (by simp)
      rw [hsame]
      exact ⟨hv.of_kind nt, hv.isNull_eq_false⟩
    · split at h <;> rename_i hconv
      · obtain ⟨rfl, rfl⟩ := hconv
        obtain ⟨x, hx⟩ := hv.convert_float (.inl rfl)
        rw [hx]
        exact ⟨.float _ _, rfl⟩
      · simp [Rule.result.mismatch] at h

end

end TypedTemplate
