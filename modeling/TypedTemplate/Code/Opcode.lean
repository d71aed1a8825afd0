-- SUMMARY: The operation codes of the stack machine and the bytes that stand for them.

/-!
# Opcodes

An opcode is one byte. Operands follow it, two-byte ones with the high byte
first.
-/

namespace TypedTemplate

inductive Opcode where
  /-- Push a constant; one byte of index. -/
  | constant
  /-- Push a constant; two bytes of index. -/
  | constantWide
  | pushNull
  | pushTrue
  | pushFalse
  | pushZero
  | pushOne
  | pop
  | getLocal
  | setLocal
  /-- Replace an instance by one of its fields; two bytes of index, two of the constant that names
  the field. -/
  | getField
  | addInt
  | subInt
  | mulInt
  | negInt
  | addIntChecked
  | subIntChecked
  | mulIntChecked
  | negIntChecked
  | addFloat
  | subFloat
  | mulFloat
  | negFloat
  /-- Turn the integer on top into a float. -/
  | intToFloat
  /-- Turn the integer below the top into a float. -/
  | intToFloatUnder
  /-- Join the texts of two values. -/
  | concat
  /-- Join the texts of as many values as the two bytes say. -/
  | buildString
  | toText
  | strUpper
  | strLower
  | strTrim
  | strLen
  | formatFixed
  | formatDecimal
  | formatHexUpper
  | formatHexLower
  | formatUpper
  | formatLower
  | equal
  | notEqual
  | not
  /-- Skip as many bytes as the two bytes say. -/
  | jump
  | jumpIfFalse
  /-- Skip if the top, which stays, is not null. -/
  | jumpIfNotNull
  | ret
deriving DecidableEq, Repr

namespace Opcode

/-- All opcodes. The byte of each is its place here. -/
def all : List Opcode :=
  [constant, constantWide, pushNull, pushTrue, pushFalse, pushZero, pushOne, pop, getLocal,
   setLocal, getField, addInt, subInt, mulInt, negInt, addIntChecked, subIntChecked,
   mulIntChecked, negIntChecked, addFloat, subFloat, mulFloat, negFloat, intToFloat,
   intToFloatUnder, concat, buildString, toText, strUpper, strLower, strTrim, strLen, formatFixed,
   formatDecimal, formatHexUpper, formatHexLower, formatUpper, formatLower, equal, notEqual, not,
   jump, jumpIfFalse, jumpIfNotNull, ret]

def byte (op : Opcode) : UInt8 := UInt8.ofNat op.ctorIdx

/-- The opcode that `b` stands for. -/
def ofByte? (b : UInt8) : Option Opcode := all[b.toNat]?

@[simp] theorem ofByte?_byte (op : Opcode) : ofByte? op.byte = some op := by
  cases op <;> rfl

/-- The number of operand bytes. -/
def operandLength : Opcode → Nat
  | .constant | .getLocal | .setLocal                                     => 1
  | .formatFixed | .formatDecimal | .formatHexUpper | .formatHexLower     => 1
  | .constantWide | .buildString | .jump | .jumpIfFalse | .jumpIfNotNull  => 2
  | .getField                                                             => 4
  | _                                                                     => 0

/-- The number of bytes of an instruction with this opcode. -/
def length (op : Opcode) : Nat := 1 + op.operandLength

end Opcode

end TypedTemplate
