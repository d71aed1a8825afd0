-- SUMMARY: The constants of a unit, each held once.
import Std.Data.HashMap
import TypedTemplate.Model.Value

/-!
# Constant pools

A unit's functions share one pool. Adding a constant that is there already gives
the index it has. Floats count as the same when they are equal as numbers or
both no number.
-/

namespace TypedTemplate

inductive Constant where
  | int (i : Int64)
  | uint (u : UInt64)
  | float (x : Float)
  | str (s : String)

/-- What decides whether two constants are the same. -/
inductive ConstantKey where
  | int (i : Int64)
  | uint (u : UInt64)
  | float (bits : UInt64)
  | str (s : String)
deriving DecidableEq, Hashable

namespace Constant

/-- One bit pattern for all floats that count as the same. -/
def floatKey (x : Float) : UInt64 :=
  if x.isNaN then 0x7FF8000000000000 else if x == 0 then 0 else x.toBits

def key : Constant → ConstantKey
  | .int i   => .int i
  | .uint u  => .uint u
  | .float x => .float (floatKey x)
  | .str s   => .str s

def value : Constant → Value
  | .int i   => .int i
  | .uint u  => .uint u
  | .float x => .float x
  | .str s   => .str s

def str? : Constant → Option String
  | .str s => some s
  | _      => none

end Constant

structure Pool where
  items : Array Constant
  /-- The index of the constant with each key. -/
  index : Std.HashMap ConstantKey Nat

namespace Pool

def empty : Pool := ⟨#[], ∅⟩

def size (p : Pool) : Nat := p.items.size

def isEmpty (p : Pool) : Bool := p.items.isEmpty

/-- Add a constant unless it is there. Gives its index. -/
def add (p : Pool) (c : Constant) : Nat × Pool :=
  match p.index[c.key]? with
  | some i => (i, p)
  | none   => (p.size, ⟨p.items.push c, p.index.insert c.key p.size⟩)

def get? (p : Pool) (i : Nat) : Option Constant := p.items[i]?

/-- The string at `i`, if a string is there. -/
def str? (p : Pool) (i : Nat) : Option String := (p.get? i).bind Constant.str?

end Pool

end TypedTemplate
