-- SUMMARY: The spans in the trees and faults of a unit.
import TypedTemplate.Fault.Diagnostic
import TypedTemplate.Grammar.Expr
import TypedTemplate.Proofs.Source.Region
import TypedTemplate.Tree.Unit

/-!
# Spans of trees

Trees, tokens and faults carry spans into the unit. A region holds one of them when every span
in it starts there.
-/

namespace TypedTemplate

/-- What carries spans into a unit. -/
class Spanned (α : Type) where
  spans : α → List Span

/-- All spans in `a` start in the region. -/
def Region.Holds {α : Type} [Spanned α] (R : Region) (a : α) : Prop :=
  ∀ s ∈ Spanned.spans a, R s.place

/-! ## Expressions -/

mutual

def Expr.spans : Expr → List Span
  | .literal _ s             => [s]
  | .name x                  => [x.span]
  | .member object field s   => s :: field.span :: object.spans
  | .call receiver method args s =>
    s :: method.span :: (receiver.spans ++ Expr.spansAll args)
  | .unary _ e s             => s :: e.spans
  | .binary _ left right s   => s :: (left.spans ++ right.spans)
  | .ternary e t f s         => s :: (e.spans ++ (t.spans ++ f.spans))
  | .interpolated segments s => s :: Segment.spansAll segments
  | .paren e s               => s :: e.spans

def Expr.spansAll : List Expr → List Span
  | []      => []
  | e :: es => e.spans ++ Expr.spansAll es

def Segment.spans : Segment → List Span
  | .text _          => []
  | .hole e format s => s :: (e.spans ++ format.toList.flatMap ([·.span]))

def Segment.spansAll : List Segment → List Span
  | []      => []
  | s :: ss => s.spans ++ Segment.spansAll ss

end

theorem Expr.spansAll_eq_flatMap (es : List Expr) : Expr.spansAll es = es.flatMap Expr.spans := by
  induction es with
  | nil => rfl
  | cons e es ih => exact congrArg (e.spans ++ ·) ih

theorem Segment.spansAll_eq_flatMap (ss : List Segment) :
    Segment.spansAll ss = ss.flatMap Segment.spans := by
  induction ss with
  | nil => rfl
  | cons s ss ih => exact congrArg (s.spans ++ ·) ih

/-! ## Types and declarations -/

def Path.spans (p : Path) : List Span := p.span :: p.segments.flatMap ([·.span])

mutual

def TypeRef.spans : TypeRef → List Span
  | .mk path args s => s :: (path.spans ++ TypeRef.spansAll args)

def TypeRef.spansAll : List TypeRef → List Span
  | []      => []
  | t :: ts => t.spans ++ TypeRef.spansAll ts

end

theorem TypeRef.spansAll_eq_flatMap (ts : List TypeRef) :
    TypeRef.spansAll ts = ts.flatMap TypeRef.spans := by
  induction ts with
  | nil => rfl
  | cons t ts ih => exact congrArg (t.spans ++ ·) ih

def Stmt.spans : Stmt → List Span
  | .letBinding name value s => s :: name.span :: value.spans
  | .ret value s             => s :: value.spans

def Block.spans (b : Block) : List Span := b.span :: b.stmts.flatMap Stmt.spans

def Param.spans (p : Param) : List Span := p.span :: p.name.span :: p.type.spans

def FunctionDecl.spans (f : FunctionDecl) : List Span :=
  f.span :: f.name.span :: (f.params.flatMap Param.spans ++ (f.returnType.spans ++ f.body.spans))

def TypeDecl.spans (t : TypeDecl) : List Span :=
  t.span :: t.name.span :: t.functions.flatMap FunctionDecl.spans

def ModuleDecl.spans (m : ModuleDecl) : List Span :=
  m.span :: m.name.span :: m.types.flatMap TypeDecl.spans

def UseDecl.spans (d : UseDecl) : List Span := d.span :: d.path.spans

def SourceUnit.spans (u : SourceUnit) : List Span :=
  u.span :: (u.edition.toList.flatMap ([·.span]) ++
    (u.uses.flatMap UseDecl.spans ++ u.modules.flatMap ModuleDecl.spans))

/-! ## Instances -/

section

variable {α β : Type} [Spanned α] [Spanned β]

instance : Spanned PUnit := ⟨fun _ => []⟩
instance : Spanned Bool := ⟨fun _ => []⟩
instance : Spanned Span := ⟨fun s => [s]⟩
instance : Spanned Token := ⟨fun t => [t.span]⟩
instance : Spanned Ident := ⟨fun x => [x.span]⟩
instance : Spanned LexError := ⟨fun e => [e.span]⟩
instance : Spanned ParseError := ⟨fun e => [e.span]⟩
instance : Spanned FormatSpec := ⟨fun spec => [spec.span]⟩
instance : Spanned Edition := ⟨fun e => [e.span]⟩
instance : Spanned Expr := ⟨Expr.spans⟩
instance : Spanned Segment := ⟨Segment.spans⟩
instance : Spanned Path := ⟨Path.spans⟩
instance : Spanned TypeRef := ⟨TypeRef.spans⟩
instance : Spanned Stmt := ⟨Stmt.spans⟩
instance : Spanned Block := ⟨Block.spans⟩
instance : Spanned Param := ⟨Param.spans⟩
instance : Spanned FunctionDecl := ⟨FunctionDecl.spans⟩
instance : Spanned TypeDecl := ⟨TypeDecl.spans⟩
instance : Spanned ModuleDecl := ⟨ModuleDecl.spans⟩
instance : Spanned UseDecl := ⟨UseDecl.spans⟩
instance : Spanned SourceUnit := ⟨SourceUnit.spans⟩
instance : Spanned (List α) := ⟨fun as => as.flatMap Spanned.spans⟩
instance : Spanned (Option α) := ⟨fun a => a.toList.flatMap Spanned.spans⟩
instance : Spanned (α × β) := ⟨fun p => Spanned.spans p.1 ++ Spanned.spans p.2⟩
instance : Spanned (Except α β) := ⟨fun
  | .ok b    => Spanned.spans b
  | .error a => Spanned.spans a⟩
instance : Spanned Interpolation := ⟨fun i => Spanned.spans i.segments ++ Spanned.spans i.errors⟩

end

/-! ## What it takes -/

namespace Region

variable {R : Region} {α β : Type} [Spanned α] [Spanned β]

@[simp] theorem holds_unit (u : PUnit) : R.Holds u := nofun

@[simp] theorem holds_bool (b : Bool) : R.Holds b := nofun

@[simp] theorem holds_span (s : Span) : R.Holds s ↔ R s.place := List.forall_mem_singleton

@[simp] theorem holds_token (t : Token) : R.Holds t ↔ R t.span.place := List.forall_mem_singleton

@[simp] theorem holds_ident (x : Ident) : R.Holds x ↔ R x.span.place := List.forall_mem_singleton

@[simp] theorem holds_lexError (e : LexError) : R.Holds e ↔ R e.span.place :=
  List.forall_mem_singleton

@[simp] theorem holds_parseError (e : ParseError) : R.Holds e ↔ R e.span.place :=
  List.forall_mem_singleton

@[simp] theorem holds_formatSpec (spec : FormatSpec) : R.Holds spec ↔ R spec.span.place :=
  List.forall_mem_singleton

@[simp] theorem holds_edition (e : Edition) : R.Holds e ↔ R e.span.place :=
  List.forall_mem_singleton

@[simp] theorem holds_list (as : List α) : R.Holds as ↔ ∀ a ∈ as, R.Holds a :=
  List.forall_mem_flatMap

@[simp] theorem holds_option (a? : Option α) : R.Holds a? ↔ ∀ a ∈ a?, R.Holds a := by
  cases a? <;> simp [Holds, Spanned.spans]

@[simp] theorem holds_pair (a : α) (b : β) : R.Holds (a, b) ↔ R.Holds a ∧ R.Holds b :=
  List.forall_mem_append

@[simp] theorem holds_ok (b : β) : R.Holds (Except.ok b : Except α β) ↔ R.Holds b := Iff.rfl

@[simp] theorem holds_error (a : α) : R.Holds (Except.error a : Except α β) ↔ R.Holds a := Iff.rfl

@[simp] theorem holds_interpolation (i : Interpolation) :
    R.Holds i ↔ R.Holds i.segments ∧ R.Holds i.errors :=
  List.forall_mem_append

namespace Holds

variable {a : α} {as bs : List α}

theorem mem (h : R.Holds as) (ha : a ∈ as) : R.Holds a := (holds_list as).1 h a ha

theorem head (h : R.Holds (a :: as)) : R.Holds a := h.mem List.mem_cons_self

theorem tail (h : R.Holds (a :: as)) : R.Holds as :=
  (holds_list as).2 fun _ hb => h.mem (List.mem_cons_of_mem a hb)

theorem cons (ha : R.Holds a) (has : R.Holds as) : R.Holds (a :: as) :=
  (holds_list _).2 (List.forall_mem_cons.2 ⟨ha, (holds_list as).1 has⟩)

theorem append (has : R.Holds as) (hbs : R.Holds bs) : R.Holds (as ++ bs) :=
  (holds_list _).2 (List.forall_mem_append.2 ⟨(holds_list as).1 has, (holds_list bs).1 hbs⟩)

theorem reverse (has : R.Holds as) : R.Holds as.reverse :=
  (holds_list _).2 fun _ ha => has.mem (List.mem_reverse.1 ha)

end Holds

/-! ### Expressions -/

@[simp] theorem holds_literal (value : Literal) (s : Span) :
    R.Holds (Expr.literal value s) ↔ R s.place :=
  List.forall_mem_singleton

@[simp] theorem holds_name (x : Ident) : R.Holds (Expr.name x) ↔ R x.span.place :=
  List.forall_mem_singleton

@[simp] theorem holds_member (object : Expr) (field : Ident) (s : Span) :
    R.Holds (Expr.member object field s) ↔ R s.place ∧ R field.span.place ∧ R.Holds object :=
  List.forall_mem_cons.trans (and_congr_right' List.forall_mem_cons)

@[simp] theorem holds_call (receiver : Expr) (method : Ident) (args : List Expr) (s : Span) :
    R.Holds (Expr.call receiver method args s) ↔
      R s.place ∧ R method.span.place ∧ R.Holds receiver ∧ R.Holds args := by
  change (∀ s' ∈ s :: method.span :: (receiver.spans ++ Expr.spansAll args), R s'.place) ↔ _
  rw [Expr.spansAll_eq_flatMap, List.forall_mem_cons, List.forall_mem_cons, List.forall_mem_append]
  rfl

@[simp] theorem holds_unary (op : UnaryOp) (e : Expr) (s : Span) :
    R.Holds (Expr.unary op e s) ↔ R s.place ∧ R.Holds e :=
  List.forall_mem_cons

@[simp] theorem holds_binary (op : BinaryOp) (left right : Expr) (s : Span) :
    R.Holds (Expr.binary op left right s) ↔ R s.place ∧ R.Holds left ∧ R.Holds right :=
  List.forall_mem_cons.trans (and_congr_right' List.forall_mem_append)

@[simp] theorem holds_ternary (e t f : Expr) (s : Span) :
    R.Holds (Expr.ternary e t f s) ↔ R s.place ∧ R.Holds e ∧ R.Holds t ∧ R.Holds f := by
  change (∀ s' ∈ s :: (e.spans ++ (t.spans ++ f.spans)), R s'.place) ↔ _
  rw [List.forall_mem_cons, List.forall_mem_append, List.forall_mem_append]
  rfl

@[simp] theorem holds_interpolated (segments : List Segment) (s : Span) :
    R.Holds (Expr.interpolated segments s) ↔ R s.place ∧ R.Holds segments := by
  change (∀ s' ∈ s :: Segment.spansAll segments, R s'.place) ↔ _
  rw [Segment.spansAll_eq_flatMap, List.forall_mem_cons]
  rfl

@[simp] theorem holds_paren (e : Expr) (s : Span) :
    R.Holds (Expr.paren e s) ↔ R s.place ∧ R.Holds e :=
  List.forall_mem_cons

@[simp] theorem holds_text (s : String) : R.Holds (Segment.text s) := nofun

@[simp] theorem holds_hole (e : Expr) (format : Option FormatSpec) (s : Span) :
    R.Holds (Segment.hole e format s) ↔ R s.place ∧ R.Holds e ∧ R.Holds format := by
  simp only [Holds, Spanned.spans, Segment.spans, List.forall_mem_cons, List.forall_mem_append]

/-- The span of an expression is one of the spans in it. -/
theorem Holds.span {e : Expr} (h : R.Holds e) : R e.span.place := by
  cases e <;> simp_all [Expr.span]

/-! ### Declarations -/

@[simp] theorem holds_path (p : Path) : R.Holds p ↔ R p.span.place ∧ R.Holds p.segments :=
  List.forall_mem_cons

@[simp] theorem holds_typeRef (path : Path) (args : List TypeRef) (s : Span) :
    R.Holds (TypeRef.mk path args s) ↔ R s.place ∧ R.Holds path ∧ R.Holds args := by
  simp only [Holds, Spanned.spans, TypeRef.spans, TypeRef.spansAll_eq_flatMap, List.forall_mem_cons,
    List.forall_mem_append]

theorem Holds.span_typeRef {t : TypeRef} (h : R.Holds t) : R t.span.place := by
  obtain ⟨path, args, s⟩ := t
  exact ((holds_typeRef path args s).1 h).1

@[simp] theorem holds_letBinding (name : Ident) (value : Expr) (s : Span) :
    R.Holds (Stmt.letBinding name value s) ↔ R s.place ∧ R name.span.place ∧ R.Holds value := by
  simp [Holds, Spanned.spans, Stmt.spans]

@[simp] theorem holds_ret (value : Expr) (s : Span) :
    R.Holds (Stmt.ret value s) ↔ R s.place ∧ R.Holds value :=
  List.forall_mem_cons

theorem Holds.span_stmt {s : Stmt} (h : R.Holds s) : R s.span.place := by
  cases s <;> simp_all [Stmt.span]

@[simp] theorem holds_block (b : Block) : R.Holds b ↔ R b.span.place ∧ R.Holds b.stmts :=
  List.forall_mem_cons

@[simp] theorem holds_param (p : Param) :
    R.Holds p ↔ R p.span.place ∧ R p.name.span.place ∧ R.Holds p.type := by
  simp [Holds, Spanned.spans, Param.spans]

@[simp] theorem holds_functionDecl (f : FunctionDecl) :
    R.Holds f ↔ R f.span.place ∧ R f.name.span.place ∧ R.Holds f.params ∧ R.Holds f.returnType ∧
      R.Holds f.body := by
  simp only [Holds, Spanned.spans, FunctionDecl.spans, List.forall_mem_cons,
    List.forall_mem_append]

@[simp] theorem holds_typeDecl (t : TypeDecl) :
    R.Holds t ↔ R t.span.place ∧ R t.name.span.place ∧ R.Holds t.functions := by
  simp only [Holds, Spanned.spans, TypeDecl.spans, List.forall_mem_cons]

@[simp] theorem holds_moduleDecl (m : ModuleDecl) :
    R.Holds m ↔ R m.span.place ∧ R m.name.span.place ∧ R.Holds m.types := by
  simp only [Holds, Spanned.spans, ModuleDecl.spans, List.forall_mem_cons]

@[simp] theorem holds_useDecl (d : UseDecl) : R.Holds d ↔ R d.span.place ∧ R.Holds d.path :=
  List.forall_mem_cons

@[simp] theorem holds_sourceUnit (u : SourceUnit) :
    R.Holds u ↔ R u.span.place ∧ R.Holds u.edition ∧ R.Holds u.uses ∧ R.Holds u.modules := by
  simp only [Holds, Spanned.spans, SourceUnit.spans, List.forall_mem_cons, List.forall_mem_append]

end Region

end TypedTemplate
