-- SUMMARY: A cache that builds each entry once and keeps the outcome, success or failure.

/-!
# Build caches

The first request for an id makes an empty entry and builds. The first outcome put
into an entry stays there, and every later request for the entry gets it. Removing
an id forgets which entry it had, so the next request makes a new one; who holds
the old entry through a handle still gets its outcome.
-/

namespace TypedTemplate

/-- What can be seen of an entry. -/
inductive EntryState where
  /-- There is no outcome yet. -/
  | compiling
  | ready
  | failed
deriving DecidableEq, Repr

/-- A cache of values of type `α` whose builds fail with `ε`. -/
structure Cache (α ε : Type) where
  /-- The outcomes of all entries ever made. -/
  outcomes : Array (Option (Except ε α))
  /-- The ids present with the places of their entries. -/
  index : List (String × Nat)

/-- An id with the entry it had when it was looked up. -/
structure Handle where
  id : String
  entry : Nat
deriving DecidableEq, Repr

namespace Cache

variable {α ε σ β : Type}

def empty : Cache α ε := ⟨#[], []⟩

/-- The number of ids present. -/
def size (c : Cache α ε) : Nat := c.index.length

def isEmpty (c : Cache α ε) : Bool := c.index.isEmpty

/-- The entry of an id. -/
def entry? (c : Cache α ε) (id : String) : Option Nat := c.index.lookup id

def contains (c : Cache α ε) (id : String) : Bool := (c.entry? id).isSome

/-- What an entry holds. -/
def outcome? (c : Cache α ε) (entry : Nat) : Option (Except ε α) := c.outcomes[entry]?.join

def stateOf (c : Cache α ε) (entry : Nat) : EntryState :=
  match c.outcome? entry with
  | none            => .compiling
  | some (.ok _)    => .ready
  | some (.error _) => .failed

def state? (c : Cache α ε) (id : String) : Option EntryState := (c.entry? id).map c.stateOf

/-- The value of an id whose build succeeded. -/
def get? (c : Cache α ε) (id : String) : Option α :=
  match (c.entry? id).bind c.outcome? with
  | some (.ok v) => some v
  | _            => none

/-- The entry of an id, a new one if it has none. -/
def handle (c : Cache α ε) (id : String) : Handle × Cache α ε :=
  match c.entry? id with
  | some entry => (⟨id, entry⟩, c)
  | none       =>
    let entry := c.outcomes.size
    (⟨id, entry⟩, ⟨c.outcomes.push none, (id, entry) :: c.index⟩)

/-- Forget the entry of an id. Says whether it had one. -/
def invalidate (c : Cache α ε) (id : String) : Bool × Cache α ε :=
  (c.contains id, { c with index := c.index.filter (·.1 != id) })

/-- Forget the entries of all ids. -/
def clear (c : Cache α ε) : Cache α ε := { c with index := [] }

/-- Put an outcome into an entry that has none. -/
def fulfil (c : Cache α ε) (entry : Nat) (outcome : Except ε α) : Cache α ε :=
  match c.outcome? entry with
  | some _ => c
  | none   => { c with outcomes := c.outcomes.setIfInBounds entry (some outcome) }

/-- The outcome of an entry. If it has none, `build` runs and its outcome is kept. A build may
use the cache and change other state `σ`; besides its outcome it gives a result `β`, which shows
that it ran. -/
def getOrBuild (entry : Nat) (build : Cache α ε × σ → (Except ε α × β) × Cache α ε × σ) :
    Cache α ε × σ → (Except ε α × Option β) × Cache α ε × σ
  | (c, s) =>
    match c.outcome? entry with
    | some outcome => ((outcome, none), c, s)
    | none         =>
      let ((outcome, b), c, s) := build (c, s)
      let c := c.fulfil entry outcome
      (((c.outcome? entry).getD outcome, some b), c, s)

end Cache

end TypedTemplate
