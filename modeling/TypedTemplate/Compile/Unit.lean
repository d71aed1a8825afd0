-- SUMMARY: Compiling whole units into artifacts.
import TypedTemplate.Compile.Function
import TypedTemplate.Grammar.Unit

/-!
# Compiling units

All functions of a unit share one constant pool. A unit with any error has no
artifact, and all its diagnostics are given instead. The artifact keeps the
warnings.
-/

namespace TypedTemplate

structure CompiledType where
  /-- The name with its module, `module::Type`. -/
  qualifiedName : String
  functions : List CompiledFunction

/-- The function called `name`. -/
def CompiledType.function? (t : CompiledType) (name : String) : Option CompiledFunction :=
  t.functions.find? (·.name == name)

/-- A compiled unit. -/
structure Artifact where
  pool : Pool
  types : List CompiledType
  warnings : Diagnostics

namespace Artifact

/-- The type with a qualified name. -/
def type? (a : Artifact) (qualifiedName : String) : Option CompiledType :=
  a.types.find? (·.qualifiedName == qualifiedName)

/-- The function `function` of the type with a qualified name. -/
def function? (a : Artifact) (qualifiedName function : String) : Option CompiledFunction :=
  (a.type? qualifiedName).bind (·.function? function)

end Artifact

/-- The functions of a unit compiled up to some function. -/
structure Compilation where
  pool : Pool
  /-- The types so far, last first. -/
  types : List CompiledType
  /-- The diagnostics so far, last first. -/
  diagnostics : Diagnostics

namespace Compilation

/-- Compile functions and put them behind those of `out`, which is in reverse. -/
def functionsOnto (r : Registry) (o : Options) (out : List CompiledFunction) (pool : Pool)
    (diagnostics : Diagnostics) : List Signature → List CompiledFunction × Pool × Diagnostics
  | []      => (out.reverse, pool, diagnostics)
  | s :: ss =>
    let (f, pool, diagnostics) := s.compile r o pool diagnostics
    functionsOnto r o (f :: out) pool diagnostics ss

/-- Compile the functions of a type. -/
def step (r : Registry) (o : Options) (c : Compilation) (t : TypeSignature) : Compilation :=
  let ⟨pool, types, diagnostics⟩ := c
  let (functions, pool, diagnostics) := functionsOnto r o [] pool diagnostics t.functions
  ⟨pool, ⟨t.qualifiedName, functions⟩ :: types, diagnostics⟩

/-- The artifact, unless there are errors. -/
def artifact (c : Compilation) : Except Diagnostics Artifact :=
  let diagnostics := c.diagnostics.reverse
  if Diagnostics.hasErrors diagnostics then .error diagnostics
  else .ok ⟨c.pool, c.types.reverse, diagnostics⟩

end Compilation

/-- Check and compile a unit. -/
def SourceUnit.compile (u : SourceUnit) (r : Registry) (o : Options) : Except Diagnostics Artifact :=
  let (types, diagnostics) := u.signatures r
  (types.foldl (Compilation.step r o) ⟨.empty, [], diagnostics.reverse⟩).artifact

/-- Parse and compile the text of a unit. -/
def compile (r : Registry) (o : Options) (source : String) : Except Diagnostics Artifact :=
  match SourceUnit.parse source with
  | .ok u         => u.compile r o
  | .error errors => .error (errors.map .ofParseError)

end TypedTemplate
