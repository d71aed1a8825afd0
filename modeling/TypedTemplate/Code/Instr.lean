-- SUMMARY: The instructions of the stack machine and their bytes.
import TypedTemplate.Code.Chunk
import TypedTemplate.Operation.Text

/-!
# Instructions

An instruction is what the compiler emits and the machine runs. `Instr.bytes`
writes it down, and an opcode decides how many operand bytes follow. Reading goes
by opcode in `Chunk.instr`.
-/

namespace TypedTemplate

inductive Instr where
  /-- Push the constant at `index`. -/
  | constant (index : UInt16)
  | pushNull
  | pushBool (b : Bool)
  | pushZero
  | pushOne
  | pop
  | getLocal (slot : UInt8)
  /-- Pop into the local. -/
  | setLocal (slot : UInt8)
  /-- Replace an instance by its field at `index`, which the constant at `name` names. Null stays. -/
  | getField (index name : UInt16)
  | arith (op : ArithOp) (checked : Bool)
  | neg (checked : Bool)
  | floatArith (op : ArithOp)
  | floatNeg
  /-- Turn the number on top into a float. -/
  | promote
  /-- Turn the number below the top into a float. -/
  | promoteUnder
  | concat
  /-- Join the texts of `count` values. -/
  | buildString (count : UInt16)
  | toText
  | text (op : TextOp)
  /-- The length of a string. -/
  | count
  | format (kind : FormatKind)
  /-- Compare two values: whether their being equal is `positive`. -/
  | compare (positive : Bool)
  | not
  /-- Skip `distance` bytes. -/
  | jump (distance : UInt16)
  | jumpIfFalse (distance : UInt16)
  /-- Skip if the top, which stays, is not null. -/
  | jumpIfNotNull (distance : UInt16)
  | ret
deriving DecidableEq, Repr

namespace Instr

/-- An index below this fits one byte. -/
def wideIndex : UInt16 := 256

def opcode : Instr → Opcode
  | .constant i             => if i < wideIndex then .constant else .constantWide
  | .pushNull               => .pushNull
  | .pushBool true          => .pushTrue
  | .pushBool false         => .pushFalse
  | .pushZero               => .pushZero
  | .pushOne                => .pushOne
  | .pop                    => .pop
  | .getLocal _             => .getLocal
  | .setLocal _             => .setLocal
  | .getField _ _           => .getField
  | .arith .add true        => .addIntChecked
  | .arith .sub true        => .subIntChecked
  | .arith .mul true        => .mulIntChecked
  | .arith .add false       => .addInt
  | .arith .sub false       => .subInt
  | .arith .mul false       => .mulInt
  | .neg true               => .negIntChecked
  | .neg false              => .negInt
  | .floatArith .add        => .addFloat
  | .floatArith .sub        => .subFloat
  | .floatArith .mul        => .mulFloat
  | .floatNeg               => .negFloat
  | .promote                => .intToFloat
  | .promoteUnder           => .intToFloatUnder
  | .concat                 => .concat
  | .buildString _          => .buildString
  | .toText                 => .toText
  | .text .upper            => .strUpper
  | .text .lower            => .strLower
  | .text .trim             => .strTrim
  | .count                  => .strLen
  | .format (.fixed _)      => .formatFixed
  | .format (.decimal _)    => .formatDecimal
  | .format (.hex .upper _) => .formatHexUpper
  | .format (.hex .lower _) => .formatHexLower
  | .format .upper          => .formatUpper
  | .format .lower          => .formatLower
  | .compare true           => .equal
  | .compare false          => .notEqual
  | .not                    => .not
  | .jump _                 => .jump
  | .jumpIfFalse _          => .jumpIfFalse
  | .jumpIfNotNull _        => .jumpIfNotNull
  | .ret                    => .ret

/-- The bytes after the opcode. -/
def operands : Instr → List UInt8
  | .constant i          => if i < wideIndex then [i.toUInt8] else wordBytes i
  | .getLocal slot       => [slot]
  | .setLocal slot       => [slot]
  | .getField i n        => wordBytes i ++ wordBytes n
  | .buildString n       => wordBytes n
  | .format (.fixed n)   => [n]
  | .format (.decimal n) => [n]
  | .format (.hex _ n)   => [n]
  | .jump d              => wordBytes d
  | .jumpIfFalse d       => wordBytes d
  | .jumpIfNotNull d     => wordBytes d
  | _                    => []

def bytes (i : Instr) : List UInt8 := i.opcode.byte :: i.operands

/-- The number of bytes. -/
def size (i : Instr) : Nat := i.bytes.length

/-- An instruction has as many operand bytes as its opcode says. -/
theorem length_operands (i : Instr) : i.operands.length = i.opcode.operandLength := by
  cases i with
  | constant i => by_cases h : i < wideIndex <;> simp [operands, opcode, h] <;> rfl
  | pushBool b => cases b <;> rfl
  | arith op checked => cases op <;> cases checked <;> rfl
  | neg checked => cases checked <;> rfl
  | floatArith op => cases op <;> rfl
  | text op => cases op <;> rfl
  | compare positive => cases positive <;> rfl
  | format kind => rcases kind with _ | _ | ⟨letters, _⟩ | _ | _ <;> first | rfl | cases letters <;> rfl
  | _ => rfl

end Instr

/-- An instruction with the line it comes from. -/
structure PlacedInstr where
  line : Nat
  instr : Instr
deriving DecidableEq, Repr

/-- The instructions of a piece of code, in order. -/
abbrev Code := List PlacedInstr

namespace Code

/-- The number of bytes. -/
def size (code : Code) : Nat := code.foldr (fun i n => i.instr.size + n) 0

/-- Write code behind a chunk. -/
def writeTo (c : Chunk) (code : Code) : Chunk :=
  code.foldl (fun c i => c.write i.line i.instr.bytes) c

/-- The chunk that holds just this code. -/
def toChunk (code : Code) : Chunk := code.writeTo .empty

end Code

namespace Chunk

/-- Write code at the end. -/
def append (c : Chunk) (code : Code) : Chunk := code.writeTo c

/-- The instruction with opcode `op` at `offset`, if its operands are all there. -/
def instr (c : Chunk) (offset : Nat) : Opcode → Option Instr
  | .constant        => (c.byteAt? (offset + 1)).map fun i => .constant i.toUInt16
  | .constantWide    => (c.wordAt? (offset + 1)).map .constant
  | .pushNull        => some .pushNull
  | .pushTrue        => some (.pushBool true)
  | .pushFalse       => some (.pushBool false)
  | .pushZero        => some .pushZero
  | .pushOne         => some .pushOne
  | .pop             => some .pop
  | .getLocal        => (c.byteAt? (offset + 1)).map .getLocal
  | .setLocal        => (c.byteAt? (offset + 1)).map .setLocal
  | .getField        =>
    match c.wordAt? (offset + 1), c.wordAt? (offset + 3) with
    | some i, some n => some (.getField i n)
    | _, _           => none
  | .addInt          => some (.arith .add false)
  | .subInt          => some (.arith .sub false)
  | .mulInt          => some (.arith .mul false)
  | .negInt          => some (.neg false)
  | .addIntChecked   => some (.arith .add true)
  | .subIntChecked   => some (.arith .sub true)
  | .mulIntChecked   => some (.arith .mul true)
  | .negIntChecked   => some (.neg true)
  | .addFloat        => some (.floatArith .add)
  | .subFloat        => some (.floatArith .sub)
  | .mulFloat        => some (.floatArith .mul)
  | .negFloat        => some .floatNeg
  | .intToFloat      => some .promote
  | .intToFloatUnder => some .promoteUnder
  | .concat          => some .concat
  | .buildString     => (c.wordAt? (offset + 1)).map .buildString
  | .toText          => some .toText
  | .strUpper        => some (.text .upper)
  | .strLower        => some (.text .lower)
  | .strTrim         => some (.text .trim)
  | .strLen          => some .count
  | .formatFixed     => (c.byteAt? (offset + 1)).map fun n => .format (.fixed n)
  | .formatDecimal   => (c.byteAt? (offset + 1)).map fun n => .format (.decimal n)
  | .formatHexUpper  => (c.byteAt? (offset + 1)).map fun n => .format (.hex .upper n)
  | .formatHexLower  => (c.byteAt? (offset + 1)).map fun n => .format (.hex .lower n)
  | .formatUpper     => some (.format .upper)
  | .formatLower     => some (.format .lower)
  | .equal           => some (.compare true)
  | .notEqual        => some (.compare false)
  | .not             => some .not
  | .jump            => (c.wordAt? (offset + 1)).map .jump
  | .jumpIfFalse     => (c.wordAt? (offset + 1)).map .jumpIfFalse
  | .jumpIfNotNull   => (c.wordAt? (offset + 1)).map .jumpIfNotNull
  | .ret             => some .ret

end Chunk

end TypedTemplate
