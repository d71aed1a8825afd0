-- SUMMARY: The host types that a model field may have, with their kinds and values.
import TypedTemplate.Model.Shape
import TypedTemplate.Model.Value

/-!
# Field types

`ToField α` says how data of a host type `α` appears in a template: which kind the
compiler sees and which value a field read gives. Signed and unsigned integers
of every width are one kind, and both float widths are doubles.
-/

namespace TypedTemplate

class ToField (α : Type) where
  kind : FieldKind
  toValue : α → Value

instance : ToField String := ⟨.str, .str⟩
instance : ToField Char := ⟨.str, fun c => .str (String.singleton c)⟩
instance : ToField Bool := ⟨.bool, .bool⟩

instance : ToField Int8 := ⟨.int, fun i => .int i.toInt64⟩
instance : ToField Int16 := ⟨.int, fun i => .int i.toInt64⟩
instance : ToField Int32 := ⟨.int, fun i => .int i.toInt64⟩
instance : ToField Int64 := ⟨.int, .int⟩

instance : ToField UInt8 := ⟨.int, fun u => Value.ofUnsigned u.toUInt64⟩
instance : ToField UInt16 := ⟨.int, fun u => Value.ofUnsigned u.toUInt64⟩
instance : ToField UInt32 := ⟨.int, fun u => Value.ofUnsigned u.toUInt64⟩
instance : ToField UInt64 := ⟨.int, Value.ofUnsigned⟩

instance : ToField Float32 := ⟨.float, fun x => .float x.toFloat⟩
instance : ToField Float := ⟨.float, .float⟩

instance {α : Type} [ToField α] : ToField (Option α) where
  kind := .optional (ToField.kind α)
  toValue
    | some a => ToField.toValue a
    | none   => .null

end TypedTemplate
