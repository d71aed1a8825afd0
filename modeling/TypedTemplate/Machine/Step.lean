-- SUMMARY: What each instruction does to the stack and the locals.
import TypedTemplate.Code.Instr
import TypedTemplate.Code.Pool

/-!
# Steps

An instruction takes its operands off the stack and pushes its result. Where it
does not find what it needs the call fails.
-/

namespace TypedTemplate

/-- The state of a running function. -/
structure Frame where
  /-- The stack, its top first. -/
  stack : List Value
  locals : Array Value

/-- Where an instruction stands. -/
structure Site where
  pool : Pool
  /-- The offset of the instruction. -/
  offset : Nat
  /-- The offset after it. -/
  next : Nat
  /-- The line it comes from. -/
  line : Nat

/-- How a call goes on after an instruction. -/
inductive Move where
  | next (f : Frame)
  /-- Skip `distance` bytes. -/
  | skip (f : Frame) (distance : Nat)
  | ret (v : Value)

namespace Frame

/-- The frame of a call: the arguments come first among `count` locals. -/
def start (args : List Value) (count : Nat) : Frame :=
  ⟨[], (args ++ List.replicate (count - args.length) Value.null).toArray⟩

def push (f : Frame) (v : Value) : Frame := { f with stack := v :: f.stack }

def pop (f : Frame) : Except RuntimeError (Value × Frame) :=
  match f.stack with
  | v :: stack => .ok (v, { f with stack })
  | []         => .error .stackUnderflow

/-- Replace the top. -/
def mapTop (f : Frame) (op : Value → Except RuntimeError Value) : Except RuntimeError Move := do
  let (v, f) ← f.pop
  return .next (f.push (← op v))

/-- Replace the two values on top, the upper one being the right operand. -/
def mapTop2 (f : Frame) (op : Value → Value → Except RuntimeError Value) :
    Except RuntimeError Move := do
  let (right, f) ← f.pop
  let (left, f) ← f.pop
  return .next (f.push (← op left right))

end Frame

namespace Site

variable (s : Site)

/-- The fault of an integer operation on values of which the first that is no integer is to blame. -/
def intFault (symbol : String) (operands : List Value) : IntFault → RuntimeError
  | .overflow   => .integerOverflow symbol s.line
  | .notInteger => ((operands.find? (·.wide?.isNone)).getD .null).mismatch "int"

def liftInt (symbol : String) (operands : List Value) (r : Except IntFault Value) :
    Except RuntimeError Value :=
  r.mapError (s.intFault symbol operands)

def noSlot (slot : UInt8) : RuntimeError :=
  .malformedBytecode s.offset ("no local slot " ++ Number.decimal slot.toNat)

/-- The value of a field of an instance. Null has null in every field. -/
def field (index name : UInt16) : Value → Except RuntimeError Value
  | .null     => .ok .null
  | .object m =>
    match m.field index.toNat with
    | some v => .ok v
    | none   => .error (.missingField m.typeName ((s.pool.str? name.toNat).getD "?"))
  | v => .error (v.mismatch "model")

end Site

namespace Value

def bool? (v : Value) : Except RuntimeError Bool :=
  match v with
  | .bool b => .ok b
  | v       => .error (v.mismatch "bool")

def asFloat (v : Value) : Except RuntimeError Float :=
  match v with
  | .float x => .ok x
  | v        => .error (v.mismatch "float")

/-- Apply an operation of strings. Null stays null. -/
def onText (op : String → Value) (v : Value) : Except RuntimeError Value :=
  match v with
  | .null  => .ok .null
  | .str s => .ok (op s)
  | v      => .error (v.mismatch "string")

end Value

namespace Instr

/-- Run one instruction. -/
def step (s : Site) (f : Frame) : Instr → Except RuntimeError Move
  | .constant i =>
    match s.pool.get? i.toNat with
    | some c => .ok (.next (f.push c.value))
    | none   => .error (.malformedBytecode s.next ("no constant " ++ Number.decimal i.toNat))
  | .pushNull        => .ok (.next (f.push .null))
  | .pushBool b      => .ok (.next (f.push (.bool b)))
  | .pushZero        => .ok (.next (f.push (.int 0)))
  | .pushOne         => .ok (.next (f.push (.int 1)))
  | .pop             => do return .next (← f.pop).2
  | .getLocal slot   =>
    match f.locals[slot.toNat]? with
    | some v => .ok (.next (f.push v))
    | none   => .error (s.noSlot slot)
  | .setLocal slot   => do
    let (v, f) ← f.pop
    if slot.toNat < f.locals.size then
      return .next { f with locals := f.locals.setIfInBounds slot.toNat v }
    else .error (s.noSlot slot)
  | .getField i n    => f.mapTop (s.field i n)
  | .arith op checked =>
    f.mapTop2 fun a b => s.liftInt op.symbol [a, b] (a.arith op b checked)
  | .neg checked     => f.mapTop fun a => s.liftInt ArithOp.sub.symbol [a] (a.neg checked)
  | .floatArith op   => do
    let (right, f) ← f.pop
    let y ← right.asFloat
    let (left, f) ← f.pop
    let x ← left.asFloat
    return .next (f.push (.float (op.float x y)))
  | .floatNeg        => f.mapTop fun v => do return .float (-(← v.asFloat))
  | .promote         => f.mapTop fun v => .ok v.promote
  | .promoteUnder    =>
    match f.stack with
    | top :: under :: stack => .ok (.next { f with stack := top :: under.promote :: stack })
    | _                     => .error .stackUnderflow
  | .concat          => f.mapTop2 fun a b => .ok (.str (a.render ++ b.render))
  | .buildString n   =>
    if f.stack.length < n.toNat then .error .stackUnderflow
    else
      let pieces := (f.stack.take n.toNat).reverse
      .ok (.next { f with
        stack := .str (String.join (pieces.map (·.render))) :: f.stack.drop n.toNat })
  | .toText          => f.mapTop fun v => .ok (.str v.render)
  | .text op         => f.mapTop (Value.onText fun t => .str (op.apply t))
  | .count           => f.mapTop (Value.onText Text.count)
  | .format kind     => f.mapTop fun v => do return .str (← v.format kind)
  | .compare positive => f.mapTop2 fun a b => .ok (.bool (a.same b == positive))
  | .not             => f.mapTop fun v => do return .bool !(← v.bool?)
  | .jump d          => .ok (.skip f d.toNat)
  | .jumpIfFalse d   => do
    let (v, f) ← f.pop
    return if ← v.bool? then .next f else .skip f d.toNat
  | .jumpIfNotNull d =>
    match f.stack with
    | v :: _ => .ok (if v.isNull then .next f else .skip f d.toNat)
    | []     => .error .stackUnderflow
  | .ret             => do return .ret (← f.pop).1

end Instr

end TypedTemplate
