-- SUMMARY: The unit that renders a template.
import TypedTemplate.Compile.Options
import TypedTemplate.Model.Shape
import TypedTemplate.Template.Embed
import TypedTemplate.Template.ModuleName

/-!
# Generated units

A template becomes a unit of one module with one type and one function. The
function takes the model and returns the template as an interpolated string.
-/

namespace TypedTemplate

/-- The unit written for a template. -/
structure GeneratedUnit where
  templateId : String
  moduleName : String
  typeName : String
  source : String
  /-- The type of the function's parameter. -/
  model : Shape
deriving DecidableEq, Repr

namespace GeneratedUnit

/-- The name of the function that renders the template. -/
def entryPoint : String := "Interpolate"

/-- The name by which the type is found. -/
def qualifiedTypeName (u : GeneratedUnit) : String := u.moduleName ++ "::" ++ u.typeName

/-- The text of a unit whose function has the literal text `body`. -/
def text (uses : List String) (moduleName typeName modelType body : String) : String :=
  "#![edition = " ++ Number.decimal Options.edition ++ "]\n" ++
  String.join (uses.map fun ns => "use " ++ ns ++ ";\n") ++
  "\nmodule " ++ moduleName ++ " \x7b\n" ++
  "    type " ++ typeName ++ " \x7b\n" ++
  "        fn " ++ entryPoint ++ "(model: " ++ modelType ++ ") -> string \x7b\n" ++
  "            return $\"" ++ body ++ "\";\n" ++
  "        \x7d\n    \x7d\n\x7d\n"

/-- Write the unit for a template. Namespaces named twice are used once. -/
def synthesize (namespaces extra : List String) (id template : String) (model : Shape) :
    Except SynthesisError GeneratedUnit :=
  match model.typeName with
  | none => .error (.invalidModelShape model.hostName)
  | some modelType =>
    match ModuleName.ofId id with
    | .error e        => .error e
    | .ok moduleName =>
      let typeName := ModuleName.typeName moduleName
      let uses := (namespaces ++ extra).eraseDups
      .ok {
        templateId := id
        moduleName := moduleName
        typeName   := typeName
        source     := text uses moduleName typeName modelType (Embed.embed template)
        model      := model }

end GeneratedUnit

end TypedTemplate
