-- SUMMARY: Checking the declarations of a unit and resolving the types of its functions.
import TypedTemplate.Compile.Options
import TypedTemplate.Fault.Diagnostic
import TypedTemplate.Tree.Unit
import TypedTemplate.Typing.Ty

/-!
# Signatures

Before any body is compiled, the header, the `use` directives and all declarations
are checked. A fault in one declaration does not keep the others from being
checked. A function whose types are all known gets a signature; of two
declarations with one name the first counts.
-/

namespace TypedTemplate

/-- A check that reports diagnostics, which are kept last first. -/
abbrev Check := StateM Diagnostics

namespace Check

def diagnose (d : Diagnostic) : Check PUnit := modify (d :: ·)

/-- Report an error. -/
def report (e : CompilationError) : Check PUnit := diagnose (.ofCompilationError e)

/-- Visit all items but those whose name came before, which are reported. -/
def distinct {α β : Type} (name : α → Ident) (visit : α → Check β) (seen : List String) :
    List α → Check (List β)
  | []      => return []
  | a :: as => do
    let x := name a
    if seen.contains x.name then
      report ⟨.duplicate x.name, x.span⟩
      distinct name visit seen as
    else
      let b ← visit a
      let bs ← distinct name visit (x.name :: seen) as
      return b :: bs

/-- The results of a check and its diagnostics in the order reported. -/
def collect {α : Type} (m : Check α) : α × Diagnostics :=
  let (a, diagnostics) := StateT.run m ([] : Diagnostics)
  (a, diagnostics.reverse)

end Check

/-- A type as the compiler and as a caller sees it. -/
structure DeclaredType where
  type : Ty
  valueType : ValueType

/-- A function whose types are known. -/
structure Signature where
  decl : FunctionDecl
  params : List DeclaredType
  result : DeclaredType

/-- The functions with signatures of a type of the unit. -/
structure TypeSignature where
  /-- The name with its module, `module::Type`. -/
  qualifiedName : String
  functions : List Signature

namespace Check

variable (r : Registry)

/-- The type that a unit using `uses` calls `t`. -/
def resolve (uses : List String) (t : TypeRef) : Except CompilationError Ty :=
  let registered : Except CompilationError Ty :=
    match r.resolve t.text uses with
    | some id => .ok (.model id)
    | none    => .error ⟨.unknownType t.text, t.span⟩
  if t.path.isSimple && t.args.isEmpty then
    match Ty.builtin? t.path.text with
    | some builtin => .ok builtin
    | none         => registered
  else registered

/-- The type that a declaration names, unless it is unknown, which is reported. -/
def declared (uses : List String) (t : TypeRef) : Check (Option DeclaredType) := do
  match resolve r uses t with
  | .error e => report e; return none
  | .ok type =>
    match type.valueType? r with
    | some valueType => return some ⟨type, valueType⟩
    | none           =>
      report ⟨.invalidOperation s!"type '{t.text}' cannot be declared", t.span⟩
      return none

/-- The types that declarations name, each unless it is unknown. -/
def declaredAll (uses : List String) : List TypeRef → Check (List (Option DeclaredType))
  | []      => return []
  | t :: ts => do
    let d ← declared r uses t
    let ds ← declaredAll uses ts
    return d :: ds

/-- The members of a list that has no gap. -/
def whole? {α : Type} : List (Option α) → Option (List α)
  | []           => some []
  | some a :: as => (whole? as).map (a :: ·)
  | none :: _    => none

def signature (uses : List String) (f : FunctionDecl) : Check (Option Signature) := do
  let params ← declaredAll r uses (f.params.map (·.type))
  let result ← declared r uses f.returnType
  match whole? params, result with
  | some params, some result => return some ⟨f, params, result⟩
  | _,           _           => return none

def typeSignature (uses : List String) (m : ModuleDecl) (t : TypeDecl) : Check TypeSignature := do
  let functions ← distinct (·.name) (signature r uses) [] t.functions
  return ⟨m.name.name ++ "::" ++ t.name.name, functions.filterMap id⟩

def moduleSignatures (uses : List String) (m : ModuleDecl) : Check (List TypeSignature) :=
  distinct (·.name) (typeSignature r uses m) [] m.types

/-- A unit may be written for this edition only, or leave it open. -/
def edition (e : Option Edition) : Check PUnit :=
  match e with
  | some e =>
    if e.version = Options.edition then return ⟨⟩
    else report ⟨.editionMismatch Options.edition e.version, e.span⟩
  | none => return ⟨⟩

/-- The namespaces that a unit uses, each once. One that is unknown is reported. -/
def namespacesOnto (uses : List String) : List UseDecl → Check (List String)
  | []      => return uses
  | d :: ds => do
    let ns := d.path.text
    if r.hasNamespace ns then
      namespacesOnto (if uses.contains ns then uses else uses ++ [ns]) ds
    else
      report ⟨.unknownNamespace ns, d.path.span⟩
      namespacesOnto uses ds

/-- Check everything of a unit but the bodies of its functions. -/
def unit (u : SourceUnit) : Check (List TypeSignature) := do
  edition u.edition
  let uses ← namespacesOnto r [] u.uses
  let types ← distinct (·.name) (moduleSignatures r uses) [] u.modules
  return types.flatten

end Check

/-- The types of a unit with their signatures, and what is wrong with its declarations. -/
def SourceUnit.signatures (u : SourceUnit) (r : Registry) : List TypeSignature × Diagnostics :=
  (Check.unit r u).collect

end TypedTemplate
