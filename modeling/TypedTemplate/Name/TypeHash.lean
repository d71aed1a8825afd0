-- SUMMARY: The 64-bit identity of a model type: XXH64 of its name.
import TypedTemplate.Number.Digits

/-!
# Type hashes

The identity of a model type is the XXH64 digest of its name under a seed of
its own. The compiler records the identity of a parameter's type, and a call
compares it with that of the model it is given.

XXH64 reads the input in stripes of 32 bytes into four lanes, merges the lanes,
then absorbs what is left in words of eight, four and one bytes.
-/

namespace TypedTemplate

namespace XXH64

def prime1 : UInt64 := 0x9E3779B185EBCA87
def prime2 : UInt64 := 0xC2B2AE3D27D4EB4F
def prime3 : UInt64 := 0x165667B19E3779F9
def prime4 : UInt64 := 0x85EBCA77C2B2AE63
def prime5 : UInt64 := 0x27D4EB2F165667C5

def rotl (x : UInt64) (n : UInt64) : UInt64 := (x <<< n) ||| (x >>> (64 - n))

/-- The number whose bytes, least significant first, are `bytes`. -/
def littleEndian (bytes : List UInt8) : UInt64 :=
  bytes.foldr (fun b n => (n <<< 8) ||| b.toUInt64) 0

def round (acc input : UInt64) : UInt64 := rotl (acc + input * prime2) 31 * prime1

def mergeLane (hash lane : UInt64) : UInt64 := (hash ^^^ round 0 lane) * prime1 + prime4

structure Lanes where
  v1 : UInt64
  v2 : UInt64
  v3 : UInt64
  v4 : UInt64

def Lanes.initial (seed : UInt64) : Lanes :=
  ⟨seed + prime1 + prime2, seed + prime2, seed, seed - prime1⟩

/-- Absorb a stripe of 32 bytes. -/
def Lanes.absorb (l : Lanes) (stripe : List UInt8) : Lanes :=
  let word (i : Nat) := littleEndian ((stripe.drop (8 * i)).take 8)
  ⟨round l.v1 (word 0), round l.v2 (word 1), round l.v3 (word 2), round l.v4 (word 3)⟩

def Lanes.converge (l : Lanes) : UInt64 :=
  let sum := rotl l.v1 1 + rotl l.v2 7 + rotl l.v3 12 + rotl l.v4 18
  mergeLane (mergeLane (mergeLane (mergeLane sum l.v1) l.v2) l.v3) l.v4

/-- Absorb `count` stripes and give the bytes left over. -/
def stripes : (count : Nat) → Lanes → List UInt8 → Lanes × List UInt8
  | 0,         l, bytes => (l, bytes)
  | count + 1, l, bytes => stripes count (l.absorb (bytes.take 32)) (bytes.drop 32)

/-- Absorb fewer than 32 bytes: words of eight, then of four, then single bytes. -/
def tail (hash : UInt64) : List UInt8 → UInt64
  | a :: b :: c :: d :: e :: f :: g :: h :: rest =>
    tail (rotl (hash ^^^ round 0 (littleEndian [a, b, c, d, e, f, g, h])) 27 * prime1 + prime4) rest
  | a :: b :: c :: d :: rest =>
    tail (rotl (hash ^^^ (littleEndian [a, b, c, d] * prime1)) 23 * prime2 + prime3) rest
  | a :: rest => tail (rotl (hash ^^^ (a.toUInt64 * prime5)) 11 * prime1) rest
  | [] => hash

/-- Spread every input bit over the whole word. -/
def avalanche (hash : UInt64) : UInt64 :=
  let hash := (hash ^^^ (hash >>> 33)) * prime2
  let hash := (hash ^^^ (hash >>> 29)) * prime3
  hash ^^^ (hash >>> 32)

def digest (seed : UInt64) (bytes : List UInt8) : UInt64 :=
  let (start, rest) :=
    if bytes.length < 32 then (seed + prime5, bytes)
    else
      let (lanes, rest) := stripes (bytes.length / 32) (Lanes.initial seed) bytes
      (lanes.converge, rest)
  avalanche (tail (start + UInt64.ofNat bytes.length) rest)

end XXH64

/-- The identity of a type. -/
structure TypeHash where
  bits : UInt64
deriving DecidableEq, Repr, Inhabited

namespace TypeHash

/-- The seed that keeps type identities apart from other digests. -/
def seed : UInt64 := 0x2fac10b63a6cc57c

def ofName (name : String) : TypeHash := ⟨XXH64.digest seed name.toUTF8.toList⟩

/-- Sixteen hexadecimal digits. -/
def text (h : TypeHash) : String := Number.paddedHex .lower 16 h.bits.toNat

/-- The form shown to developers. -/
def debugText (h : TypeHash) : String := "TypeHash(0x" ++ h.text ++ ")"

end TypeHash

end TypedTemplate
