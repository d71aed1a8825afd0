-- SUMMARY: The static types of expressions, as a function of the types of names alone.
import TypedTemplate.Compile.Rule
import TypedTemplate.Tree.Unit

/-!
# Static types

The type of an expression by the typing rules, without any code. The rules take
the options only for the instructions they call for, so the type is the same
under all of them.
-/

namespace TypedTemplate

/-- The types of the names in scope. -/
abbrev Typing := String → Option Ty

/-- The typing with one more name. -/
def Typing.bind (Γ : Typing) (name : String) (t : Ty) : Typing :=
  fun x => if name = x then some t else Γ x

def Literal.type : Literal → Ty
  | .int _   => .int
  | .float _ => .float
  | .bool _  => .bool
  | .str _   => .str
  | .null    => .null

namespace Rule

/-- The type that a rule gives. -/
def type? (rule : Ruling) : Option Ty := (rule.map (·.2)).toOption

theorem type?_eq_some {rule : Ruling} {t : Ty} :
    type? rule = some t ↔ ∃ is, rule = .ok (is, t) := by
  cases rule with
  | error e => simp [type?, Except.map, Except.toOption]
  | ok a => cases a; simp [type?, Except.map, Except.toOption, eq_comm]

variable (r : Registry)

/-- A method without arguments is called as it must be. -/
def calls? (method : String) (t : Ty) (count : Nat) : Option Ty :=
  if count = 0 then type? (Rule.method r method t) else none

/-- A hole takes a value of type `t`. -/
def takes (format : Option FormatSpec) (t : Ty) : Bool :=
  match format with
  | some spec => formats spec.kind t.kind
  | none      => true

end Rule

section

variable (r : Registry) (Γ : Typing)

mutual

/-- The type of an expression, if it has one. -/
def Expr.type? : Expr → Option Ty
  | .literal v _            => some v.type
  | .name x                 => Γ x.name
  | .member e field _       =>
    e.type?.bind fun t => ((Rule.member r t field.name).map (·.2)).toOption
  | .call e method args _   => e.type?.bind fun t => Rule.calls? r method.name t args.length
  | .unary op e _           => e.type?.bind fun t => Rule.type? (Rule.unary r .standard op t)
  | .binary op left right _ =>
    left.type?.bind fun a => right.type?.bind fun b => Rule.type? (Rule.binary r .standard op a b)
  | .ternary e t f _        =>
    e.type?.bind fun k => t.type?.bind fun a => f.type?.bind fun b =>
      if k = .bool then (Rule.join r a b).toOption else none
  | .interpolated parts _   => if Segment.allTyped parts then some .str else none
  | .paren e _              => e.type?

/-- Whether a segment may stand in an interpolated string. -/
def Segment.typed : Segment → Bool
  | .text _          => true
  | .hole e format _ => e.type?.any (Rule.takes format)

def Segment.allTyped : List Segment → Bool
  | []        => true
  | s :: rest => s.typed && Segment.allTyped rest

end

/-- Whether statements up to the first `return` are typed and give a value of the declared type. -/
def Stmt.typed (declared : Ty) : Typing → List Stmt → Bool
  | _, []                           => false
  | Γ, .letBinding x value _ :: rest =>
    match value.type? r Γ with
    | some t => Stmt.typed declared (Γ.bind x.name t) rest
    | none   => false
  | Γ, .ret value _ :: _             =>
    match value.type? r Γ with
    | some t => (Rule.result r declared t).isOk
    | none   => false

end

/-! ## The types of compound expressions -/

section

variable {r : Registry} {Γ : Typing} {u : Ty} {span : Span}

theorem type?_member {e : Expr} {field : Ident} :
    (Expr.member e field span).type? r Γ = some u ↔
      ∃ t i, e.type? r Γ = some t ∧ Rule.member r t field.name = .ok (i, u) := by
  change ((e.type? r Γ).bind fun t => ((Rule.member r t field.name).map (·.2)).toOption) = some u ↔ _
  simp only [Option.bind_eq_some_iff]
  apply exists_congr
  intro t
  cases h : Rule.member r t field.name with
  | error e => simp [Except.map, Except.toOption]
  | ok a => cases a; simp [Except.map, Except.toOption, eq_comm]

theorem type?_call {e : Expr} {method : Ident} {args : List Expr} :
    (Expr.call e method args span).type? r Γ = some u ↔
      ∃ t is, e.type? r Γ = some t ∧ args = [] ∧ Rule.method r method.name t = .ok (is, u) := by
  change ((e.type? r Γ).bind fun t => Rule.calls? r method.name t args.length) = some u ↔ _
  simp only [Option.bind_eq_some_iff, Rule.calls?]
  apply exists_congr
  intro t
  cases args <;> simp [Rule.type?_eq_some]

theorem type?_unary {op : UnaryOp} {e : Expr} :
    (Expr.unary op e span).type? r Γ = some u ↔
      ∃ t is, e.type? r Γ = some t ∧ Rule.unary r .standard op t = .ok (is, u) := by
  change ((e.type? r Γ).bind fun t => Rule.type? (Rule.unary r .standard op t)) = some u ↔ _
  simp [Option.bind_eq_some_iff, Rule.type?_eq_some]

theorem type?_binary {op : BinaryOp} {left right : Expr} :
    (Expr.binary op left right span).type? r Γ = some u ↔
      ∃ a b is, left.type? r Γ = some a ∧ right.type? r Γ = some b ∧
        Rule.binary r .standard op a b = .ok (is, u) := by
  change ((left.type? r Γ).bind fun a => (right.type? r Γ).bind fun b =>
    Rule.type? (Rule.binary r .standard op a b)) = some u ↔ _
  simp [Option.bind_eq_some_iff, Rule.type?_eq_some]

theorem type?_coalesce {left right : Expr} :
    (Expr.binary .coalesce left right span).type? r Γ = some u ↔
      ∃ a b, left.type? r Γ = some a ∧ right.type? r Γ = some b ∧
        Rule.coalesce r a b = .ok u := by
  rw [type?_binary]
  refine exists_congr fun a => exists_congr fun b => ?_
  cases h : Rule.coalesce r a b <;> simp [Rule.binary, h, Except.map]

theorem type?_ternary {e t f : Expr} :
    (Expr.ternary e t f span).type? r Γ = some u ↔
      ∃ a b, e.type? r Γ = some .bool ∧ t.type? r Γ = some a ∧ f.type? r Γ = some b ∧
        Rule.join r a b = .ok u := by
  change ((e.type? r Γ).bind fun k => (t.type? r Γ).bind fun a => (f.type? r Γ).bind fun b =>
    if k = .bool then (Rule.join r a b).toOption else none) = some u ↔ _
  simp only [Option.bind_eq_some_iff]
  constructor
  · rintro ⟨k, hk, a, ha, b, hb, h⟩
    split at h
    · subst k
      refine ⟨a, b, hk, ha, hb, ?_⟩
      cases hj : Rule.join r a b <;> simp_all [Except.toOption]
    · simp at h
  · rintro ⟨a, b, hk, ha, hb, h⟩
    refine ⟨.bool, hk, a, ha, b, hb, ?_⟩
    rw [if_pos rfl, h]
    rfl

theorem type?_interpolated {parts : List Segment} :
    (Expr.interpolated parts span).type? r Γ = some u ↔
      Segment.allTyped r Γ parts = true ∧ u = .str := by
  change (if Segment.allTyped r Γ parts then some Ty.str else none) = some u ↔ _
  by_cases h : Segment.allTyped r Γ parts = true
  · simpa [h] using eq_comm
  · simp [h]

theorem typed_hole {e : Expr} {format : Option FormatSpec} :
    (Segment.hole e format span).typed r Γ = true ↔
      ∃ t, e.type? r Γ = some t ∧ Rule.takes format t = true := by
  cases h : e.type? r Γ <;> simp [Segment.typed, h]

end

/-- A field read goes by the shape of a registered model type. -/
theorem Rule.member_ok {r : Registry} {t u : Ty} {name : String} {i : Nat}
    (h : Rule.member r t name = .ok (i, u)) :
    ∃ id s f v, t.kind = .model id ∧ r.shape? id = some s ∧ s.shape.field name = some (i, f) ∧
      Ty.ofField? r f.kind = some v ∧ u = v.orNull t.nullable := by
  unfold Rule.member at h
  dsimp only at h
  split at h
  · rename_i id hkind
    split at h
    · rename_i index f hfield
      obtain ⟨s, hs, hf⟩ := Option.bind_eq_some_iff.1 hfield
      split at h
      · rename_i v hv
        obtain ⟨rfl, rfl⟩ : index = i ∧ v.orNull t.nullable = u := by simpa using h
        exact ⟨id, s, f, v, hkind, hs, hf, hv, rfl⟩
      · simp at h
    · simp at h
  · simp at h

/-! ## Types and options -/

section

variable {r : Registry} {o : Options} {t a b u : Ty} {is : List Instr}

theorem Rule.unary_standard {op : UnaryOp} (h : Rule.unary r o op t = .ok (is, u)) :
    ∃ js, Rule.unary r .standard op t = .ok (js, u) := by
  cases op with
  | not => exact ⟨is, h⟩
  | neg =>
    simp only [Rule.unary] at h ⊢
    split at h
    · obtain ⟨-, rfl⟩ : _ ∧ Ty.int = u := by simpa using h
      exact ⟨_, if_pos ‹_›⟩
    · exact ⟨is, (if_neg ‹_›).trans h⟩

theorem Rule.arith_standard {op : ArithOp} (h : Rule.arith r o op a b = .ok (is, u)) :
    ∃ js, Rule.arith r .standard op a b = .ok (js, u) := by
  unfold Rule.arith at h ⊢
  split at h
  · simp at h
  · rename_i hnumeric
    rw [if_neg hnumeric]
    split at h
    · obtain ⟨-, rfl⟩ : _ ∧ Ty.int = u := by simpa using h
      exact ⟨_, if_pos ‹_›⟩
    · exact ⟨is, (if_neg ‹_›).trans h⟩

theorem Rule.binary_standard {op : BinaryOp} (h : Rule.binary r o op a b = .ok (is, u)) :
    ∃ js, Rule.binary r .standard op a b = .ok (js, u) := by
  cases op with
  | add =>
    simp only [Rule.binary, Rule.add] at h ⊢
    split at h
    · exact ⟨is, (if_pos ‹_›).trans h⟩
    · obtain ⟨js, hjs⟩ := Rule.arith_standard h
      exact ⟨js, (if_neg ‹_›).trans hjs⟩
  | sub => exact Rule.arith_standard h
  | mul => exact Rule.arith_standard h
  | equal => exact ⟨is, h⟩
  | notEqual => exact ⟨is, h⟩
  | coalesce => exact ⟨is, h⟩

end

end TypedTemplate
