-- SUMMARY: Compiling expressions: type checking and emission in one walk.
import TypedTemplate.Code.Emit
import TypedTemplate.Compile.Constant
import TypedTemplate.Compile.Rule
import TypedTemplate.Typing.Scope

/-!
# Compiling expressions

`infer` gives the type of an expression and emits code that pushes its value. In
a release build a constant expression is checked like any other, and then its
code is replaced by a push of its value, so both builds accept the same
expressions.

The pieces of an interpolated string are pushed one by one and joined at the
end. A release build joins neighbouring literal pieces at once, constant holes
included.
-/

namespace TypedTemplate

/-- What expressions of a function are compiled against. -/
structure Context where
  registry : Registry
  options : Options
  scope : Scope

namespace Emit

/-- Emit instructions for the construct at `span`. -/
def instrs (span : Span) (is : List Instr) : Emit PUnit := fun pool =>
  ⟨.ok ⟨⟩, is.map fun i => ⟨span.line, i⟩, pool⟩

/-- Take what a rule gives, or stop with its fault at `span`. -/
def lift {α : Type} (span : Span) : Except SemanticFault α → Emit α
  | .ok a    => pure a
  | .error f => fail f span

/-- Emit what a rule calls for. -/
def ruling (span : Span) (rule : Ruling) : Emit Ty := do
  let (is, t) ← lift span rule
  instrs span is
  return t

end Emit

/-- The pieces of an interpolated string up to some segment. -/
structure Pieces where
  /-- The number of pieces pushed. -/
  count : Nat
  /-- All of them are literal text. -/
  onlyText : Bool
  /-- Literal text that is not yet pushed. -/
  pending : Option String
  /-- The construct emitted last, at which limit errors point. -/
  span : Span

namespace Pieces

def start (span : Span) : Pieces := ⟨0, true, none, span⟩

/-- Push literal text. -/
def pushText (p : Pieces) (s : String) : Emit Pieces := do
  Emit.str p.span s
  return { p with count := p.count + 1 }

/-- Push the literal text that is pending. -/
def flush (p : Pieces) : Emit Pieces :=
  match p.pending with
  | some s => { p with pending := none }.pushText s
  | none   => return p

/-- Literal text is pushed at once or, when it may yet grow, kept. -/
def addText (p : Pieces) (keep : Bool) (s : String) : Emit Pieces :=
  if keep then return { p with pending := some (p.pending.getD "" ++ s) } else p.pushText s

/-- Join the pieces of the string at `span`. A lone literal is a string already. -/
def join (p : Pieces) (span : Span) : Emit Ty := do
  let p ← p.flush
  if p.count = 0 then Emit.str span ""
  else if p.count = 1 ∧ p.onlyText then pure ⟨⟩
  else Emit.counted span p.count "interpolation segments" .buildString
  return .str

end Pieces

namespace Context

variable (c : Context)

/-- Compile an expression that is not a literal with `m`, or replace its code when it is
constant. -/
def fold (e : Expr) (m : Emit Ty) : Emit Ty :=
  match if c.options.folds then e.constant? else none with
  | some v => do
    let t ← m.silently
    Emit.value e.span v
    return t
  | none => m

def literal (span : Span) : Literal → Emit Ty
  | .int i   => do Emit.int span i; return .int
  | .float x => do Emit.constant span (.float x); return .float
  | .bool b  => do Emit.instr span (.pushBool b); return .bool
  | .str s   => do Emit.str span s; return .str
  | .null    => do Emit.instr span .pushNull; return .null

def name (x : Ident) : Emit Ty :=
  match c.scope.get? x.name with
  | some (slot, l) => do
    Emit.instr x.span (.getLocal (UInt8.ofNat slot))
    return l.type
  | none => Emit.fail (.unknownVariable x.name) x.span

/-- Read a field of the instance on the stack. -/
def member (t : Ty) (field : Ident) (span : Span) : Emit Ty := do
  let (index, fieldType) ← Emit.lift field.span (Rule.member c.registry t field.name)
  Emit.getField span index field.name
  return fieldType

/-- Call a method of the value on the stack. -/
def call (t : Ty) (method : Ident) (args : List Expr) (span : Span) : Emit Ty := do
  let rule ← Emit.lift method.span (Rule.method c.registry method.name t)
  Emit.lift span (Rule.arguments method.name args.length)
  Emit.ruling span (.ok rule)

/-- Format the value on the stack. -/
def format (t : Ty) : Option FormatSpec → Emit PUnit
  | none      => return ⟨⟩
  | some spec => do
    Emit.lift spec.span (Rule.format c.registry spec.kind t)
    Emit.instr spec.span (.format spec.kind)

/-- The construct that is emitted last for an expression. Parentheses emit nothing of their own
unless they are replaced by a value. -/
def lastSpan : Expr → Span
  | .paren e span =>
    if c.options.folds && (Expr.paren e span).constant?.isSome then span else lastSpan e
  | e => e.span

/-- The construct that is emitted last for a hole. -/
def holeSpan (e : Expr) (format : Option FormatSpec) : Span :=
  match format with
  | some spec => spec.span
  | none      => c.lastSpan e

mutual

/-- Check an expression and emit code that pushes its value. -/
def infer : Expr → Emit Ty
  | .literal v span => literal span v
  | .name x         => c.name x
  | .member e field span => do
    let t ← infer e
    c.member t field span
  | .call e method args span => c.fold (.call e method args span) do
    let t ← infer e
    c.call t method args span
  | .unary op e span => c.fold (.unary op e span) do
    let t ← infer e
    Emit.ruling span (Rule.unary c.registry c.options op t)
  | .binary .coalesce l r span => c.fold (.binary .coalesce l r span) do
    let a ← infer l
    let b ← Emit.jumpOver span .jumpIfNotNull 0 do
      Emit.instr span .pop
      infer r
    Emit.lift span (Rule.coalesce c.registry a b)
  | .binary op l r span => c.fold (.binary op l r span) do
    let a ← infer l
    let b ← infer r
    Emit.ruling span (Rule.binary c.registry c.options op a b)
  | .ternary e t f span => c.fold (.ternary e t f span) do
    Emit.lift e.span (Rule.condition c.registry (← infer e))
    let a ← Emit.jumpOver span .jumpIfFalse (Instr.jump 0).size (infer t)
    let b ← Emit.jumpOver span .jump 0 (infer f)
    Emit.lift span (Rule.join c.registry a b)
  | .interpolated parts span => c.fold (.interpolated parts span) do
    let pieces ← inferSegmentsOnto (.start span) [] parts
    pieces.join span
  | .paren e span => c.fold (.paren e span) (infer e)

/-- Push a segment, or keep it as pending text when it is constant. -/
def inferSegment (p : Pieces) : Segment → Emit Pieces
  | .text s          => p.addText c.options.folds s
  | .hole e format _ =>
    let hole : Emit PUnit := do
      let t ← infer e
      c.format t format
    let after := c.holeSpan e format
    match if c.options.folds then e.constant?.bind (Value.foldHole? format) else none with
    | some s => do
      hole.silently
      { p with span := after }.addText true s
    | none => do
      let p ← p.flush
      hole
      return { p with count := p.count + 1, onlyText := false, span := after }

/-- Push segments after the code `out`, which is in reverse. -/
def inferSegmentsOnto (p : Pieces) (out : Code) : List Segment → Emit Pieces
  | []        => fun pool => ⟨.ok p, out.reverse, pool⟩
  | s :: rest => fun pool =>
    match inferSegment p s pool with
    | ⟨.ok p, code, pool⟩    => inferSegmentsOnto p (code.reverseAux out) rest pool
    | ⟨.error e, code, pool⟩ => ⟨.error e, out.reverse ++ code, pool⟩

end

end Context

end TypedTemplate
