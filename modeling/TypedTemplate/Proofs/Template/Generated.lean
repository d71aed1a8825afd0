-- SUMMARY: How the text of a generated unit is cut, up to the template's text.
import TypedTemplate.Proofs.Name.Module
import TypedTemplate.Proofs.Token.TypeName
import TypedTemplate.Template.Synthesis

/-!
# Generated texts

The namespaces pasted at the start of a generated unit can be any text, but it ends at a
line feed. From there the unit's names and its fixed text are cut into known
tokens up to the template.
-/

namespace TypedTemplate

/-! ## Names -/

namespace Spelling

/-- A spelling is a path of name characters. -/
theorem normalize_eq_some {raw name : String} (h : normalize raw = some name) :
    (∀ c ∈ name.toList, isNameChar c = true) ∧ isPath name.toList = true := by
  unfold normalize at h
  simp only at h
  split at h
  · cases h
  · split at h
    · rename_i hname
      cases h
      simp only [Bool.and_eq_true, List.all_eq_true] at hname
      rw [String.toList_ofList]
      exact ⟨hname.1.2, hname.2⟩
    · cases h

end Spelling

/-! ## The opening of a unit -/

namespace GeneratedUnit

/-- The names of a generated unit. -/
structure Named (moduleName typeName modelType : String) : Prop where
  moduleStart : moduleName.toList.head? = some 'S'
  moduleWord : ∀ c ∈ moduleName.toList, isWordChar c = true
  typeName : typeName = ModuleName.typeName moduleName
  modelChars : ∀ c ∈ modelType.toList, Spelling.isNameChar c = true
  modelPath : Spelling.isPath modelType.toList = true

variable {moduleName typeName modelType body : String}

theorem Named.typeStart (h : Named moduleName typeName modelType) :
    typeName.toList.head? = some 'S' := by
  rw [h.typeName, ModuleName.typeName, String.toList_append, List.head?_append, h.moduleStart]
  rfl

theorem Named.typeWord (h : Named moduleName typeName modelType) :
    ∀ c ∈ typeName.toList, isWordChar c = true := by
  rw [h.typeName, ModuleName.typeName, String.toList_append]
  intro c hc
  rcases List.mem_append.1 hc with hc | hc
  · exact h.moduleWord c hc
  · exact (by decide : ∀ c ∈ ModuleName.typeEnding.toList, isWordChar c = true) c hc

/-- The tokens from the module's keyword to the type of the model. -/
def openingForms (moduleName typeName : String) : List Form :=
  [⟨.moduleWord, "module"⟩, ⟨.identifier, moduleName⟩, ⟨.leftBrace, "\x7b"⟩, ⟨.typeWord, "type"⟩,
   ⟨.identifier, typeName⟩, ⟨.leftBrace, "\x7b"⟩, ⟨.fnWord, "fn"⟩, ⟨.identifier, entryPoint⟩,
   ⟨.leftParen, "("⟩, ⟨.identifier, "model"⟩, ⟨.colon, ":"⟩]

/-- The tokens from behind the type of the model to the template. -/
def resultForms : List Form :=
  [⟨.rightParen, ")"⟩, ⟨.arrow, "->"⟩, ⟨.identifier, "string"⟩, ⟨.leftBrace, "\x7b"⟩,
   ⟨.returnWord, "return"⟩]

/-- What stands before the module. -/
def prologue (uses : List String) : List Char :=
  ("#![edition = " ++ Number.decimal Options.edition ++ "]\n" ++
    String.join (uses.map fun ns => "use " ++ ns ++ ";\n")).toList

/-- The template's literal and what closes the unit. -/
def epilogue (body : String) : List Char :=
  "$\"".toList ++ (body.toList ++ "\";\n        \x7d\n    \x7d\n\x7d\n".toList)

/-- The unit from its module on. -/
def opening (moduleName typeName modelType body : String) : List Char :=
  "module ".toList ++ (moduleName.toList ++ (" \x7b\n    type ".toList ++ (typeName.toList ++
    (" \x7b\n        fn Interpolate(model: ".toList ++ (modelType.toList ++
      (") -> string \x7b\n            return ".toList ++ epilogue body))))))

theorem toList_text (uses : List String) (moduleName typeName modelType body : String) :
    (text uses moduleName typeName modelType body).toList =
      prologue uses ++ '\n' :: opening moduleName typeName modelType body := by
  have hmodule : "\nmodule " = "\n" ++ "module " := rfl
  have htype : " \x7b\n    type " = " \x7b\n" ++ "    type " := rfl
  have hfn : " \x7b\n        fn Interpolate(model: " =
    " \x7b\n" ++ ("        fn " ++ (entryPoint ++ "(model: ")) := rfl
  have hresult : ") -> string \x7b\n            return " =
    ") -> string \x7b\n" ++ "            return " := rfl
  have hreturn : "            return $\"" = "            return " ++ "$\"" := rfl
  have hclose : "\";\n        \x7d\n    \x7d\n\x7d\n" =
    "\";\n" ++ "        \x7d\n    \x7d\n\x7d\n" := rfl
  have hline : '\n' :: opening moduleName typeName modelType body =
    "\n".toList ++ opening moduleName typeName modelType body := rfl
  rw [hline]
  unfold text prologue opening epilogue
  simp only [hmodule, htype, hfn, hresult, hreturn, hclose]
  simp only [String.append_assoc, String.toList_append, List.append_assoc]

theorem Named.isIdentifier_module (h : Named moduleName typeName modelType) :
    IsIdentifier moduleName :=
  isIdentifier_of_head h.moduleStart (by decide) (by decide) h.moduleWord

theorem Named.isIdentifier_type (h : Named moduleName typeName modelType) : IsIdentifier typeName :=
  isIdentifier_of_head h.typeStart (by decide) (by decide) h.typeWord

/-- What stands behind the type of the model. -/
def result (body : String) : List Char := ") -> string \x7b\n            return ".toList ++ epilogue body

theorem cuts_result (body : String) : Cuts (result body) resultForms (epilogue body) :=
  Cuts.fixed resultForms (by decide +kernel) _

/-- From its module on, the unit is cut into known tokens up to the type of the model. -/
theorem cuts_opening (h : Named moduleName typeName modelType) (body : String) :
    Cuts ('\n' :: opening moduleName typeName modelType body) (openingForms moduleName typeName)
      (modelType.toList ++ result body) := by
  refine Cuts.skip (by decide) ?_
  refine (Cuts.fixed [⟨.moduleWord, "module"⟩] (by decide +kernel) _).trans ?_
  refine (Cuts.identifier h.isIdentifier_module (by rintro _ ⟨⟩; decide)).trans ?_
  refine (Cuts.fixed [⟨.leftBrace, "\x7b"⟩, ⟨.typeWord, "type"⟩]
    (by decide +kernel) _).trans ?_
  refine (Cuts.identifier h.isIdentifier_type (by rintro _ ⟨⟩; decide)).trans ?_
  exact Cuts.fixed [⟨.leftBrace, "\x7b"⟩, ⟨.fnWord, "fn"⟩, ⟨.identifier, entryPoint⟩,
    ⟨.leftParen, "("⟩, ⟨.identifier, "model"⟩, ⟨.colon, ":"⟩] (by decide +kernel) _

/-- Behind the type of the model the unit goes on with known tokens, whatever the type. -/
theorem exists_cuts_opening (h : Named moduleName typeName modelType) (body : String) :
    ∃ fs, Cuts ('\n' :: opening moduleName typeName modelType body)
        (openingForms moduleName typeName ++ (fs ++ resultForms)) (epilogue body) ∧
      (∀ f ∈ fs, f.kind ≠ .rightParen) ∧ CommasNested 0 (fs.map (·.kind)) := by
  obtain ⟨fs, hfs, hparen, hnested⟩ :=
    typeForms (" -> string \x7b\n            return ".toList ++ epilogue body)
      modelType.toList h.modelChars
  exact ⟨fs, (cuts_opening h body).trans (hfs.trans (cuts_result body)), hparen,
    hnested 0 true h.modelPath⟩

end GeneratedUnit

end TypedTemplate
