-- SUMMARY: Compiling the body of a function, statement by statement.
import TypedTemplate.Compile.Expr
import TypedTemplate.Compile.Signature

/-!
# Compiling functions

Errors are reported statement by statement, and the code of a faulty statement up
to its error stays. A binding whose value has an error poisons its name, and a
use of a poisoned name is not reported, since that would only repeat the error.
-/

namespace TypedTemplate

structure CompiledFunction where
  name : String
  params : List ValueType
  result : ValueType
  /-- The number of slots for parameters and bindings. -/
  localCount : Nat
  chunk : Chunk

/-- A function body compiled up to some statement. -/
structure Body where
  scope : Scope
  /-- The code so far, in reverse. -/
  code : Code
  pool : Pool
  /-- The diagnostics so far, last first. -/
  diagnostics : Diagnostics
  /-- A `return` has been compiled. -/
  returned : Bool

namespace Body

/-- A body without statements in a scope. -/
def start (scope : Scope) (pool : Pool) (diagnostics : Diagnostics) : Body :=
  ⟨scope, [], pool, diagnostics, false⟩

/-- Report an error, unless it is the use of a poisoned name. -/
def report (b : Body) (e : CompilationError) : Body :=
  match e.fault with
  | .unknownVariable name =>
    if b.scope.isPoisoned name then b
    else { b with diagnostics := .ofCompilationError e :: b.diagnostics }
  | _ => { b with diagnostics := .ofCompilationError e :: b.diagnostics }

/-- Warn about a statement that never runs. -/
def warnUnreachable (b : Body) (s : Stmt) : Body :=
  if b.returned then
    { b with diagnostics := ⟨.warning, "unreachable statement after 'return'", s.span⟩ :: b.diagnostics }
  else b

/-- Put code at the end. -/
def append (b : Body) (code : Code) : Body := { b with code := code.reverseAux b.code }

/-- Bind a name to a value. -/
def letBinding (r : Registry) (o : Options) (b : Body) (name : Ident) (value : Expr) (span : Span) :
    Body :=
  let ⟨scope, code, pool, diagnostics, returned⟩ := b
  let ⟨result, valueCode, pool⟩ := Context.infer ⟨r, o, scope⟩ value pool
  let b := (⟨scope, code, pool, diagnostics, returned⟩ : Body).append valueCode
  match result with
  | .error e => { b with scope := b.scope.poison name.name }.report e
  | .ok type =>
    match b.scope.declare name.name type name.span with
    | .error e          => b.report e
    | .ok (slot, scope) =>
      { b with scope }.append [⟨span.line, .setLocal (UInt8.ofNat slot)⟩]

/-- Return a value where `declared` is the result type. -/
def ret (c : Context) (declared : Ty) (value : Expr) (span : Span) : Emit PUnit := do
  let t ← c.infer value
  let is ← Emit.lift value.span (Rule.result c.registry declared t)
  Emit.instrs span is

/-- Compile one statement. -/
def step (r : Registry) (o : Options) (declared : Ty) (b : Body) (s : Stmt) : Body :=
  let b := b.warnUnreachable s
  match s with
  | .letBinding name value span => b.letBinding r o name value span
  | .ret value span             =>
    let ⟨scope, code, pool, diagnostics, _⟩ := b
    let ⟨result, valueCode, pool⟩ := ret ⟨r, o, scope⟩ declared value span pool
    let b := (⟨scope, code, pool, diagnostics, true⟩ : Body).append valueCode
    match result with
    | .error e => b.report e
    | .ok _    => b

/-- Compile statements in order. -/
def run (r : Registry) (o : Options) (declared : Ty) (b : Body) (stmts : List Stmt) : Body :=
  stmts.foldl (step r o declared) b

end Body

/-- Give the parameters the first slots. Faults are put before `diagnostics`, last first. -/
def Scope.ofParams (scope : Scope) (diagnostics : Diagnostics) :
    List (Param × DeclaredType) → Scope × Diagnostics
  | []             => (scope, diagnostics)
  | (p, d) :: rest =>
    match scope.declare p.name.name d.type p.name.span with
    | .ok (_, scope) => scope.ofParams diagnostics rest
    | .error e       => scope.ofParams (.ofCompilationError e :: diagnostics) rest

/-- Compile a function. Its diagnostics are put before `diagnostics`, last first. -/
def Signature.compile (r : Registry) (o : Options) (s : Signature) (pool : Pool)
    (diagnostics : Diagnostics) : CompiledFunction × Pool × Diagnostics :=
  let (scope, diagnostics) := Scope.empty.ofParams diagnostics (s.decl.params.zip s.params)
  let ⟨scope, code, pool, diagnostics, _⟩ :=
    (Body.start scope pool diagnostics).run r o s.result.type s.decl.body.stmts
  let diagnostics :=
    if s.decl.body.returns then diagnostics
    else .ofCompilationError ⟨.missingReturn s.decl.name.name, s.decl.name.span⟩ :: diagnostics
  let f : CompiledFunction :=
    { name := s.decl.name.name
      params := s.params.map (·.valueType)
      result := s.result.valueType
      localCount := scope.frameSize
      chunk := Code.toChunk code.reverse }
  (f, pool, diagnostics)

end TypedTemplate
