-- SUMMARY: Sequences of cache requests, where a build may make requests of its own.
import TypedTemplate.Cache.Basic

/-!
# Cache sessions

A session is a cache with the handles taken so far. A handle is known by its
number. The requests that a build makes run before its outcome is kept.
-/

namespace TypedTemplate

/-- A request to a cache. -/
inductive CacheRequest (α ε : Type) where
  /-- The outcome of an id, from a build that makes the requests `during` and ends with `outcome`
  if there is none yet. -/
  | build (id : String) (during : List (CacheRequest α ε)) (outcome : Except ε α)
  /-- The same through a handle. -/
  | buildAt (handle : Nat) (during : List (CacheRequest α ε)) (outcome : Except ε α)
  | handle (id : String)
  | stateAt (handle : Nat)
  | state (id : String)
  | get (id : String)
  | contains (id : String)
  | invalidate (id : String)
  | clear
  | size

/-- What a request gives. -/
inductive CacheAnswer (α ε : Type) where
  /-- The outcome of an entry, with the answers to the build's own requests if the build ran. -/
  | outcome (entry : Nat) (result : Except ε α) (during : Option (List (CacheAnswer α ε)))
  | handle (number : Nat)
  | stateAt (id : String) (state : EntryState)
  | state (state : Option EntryState)
  | value (value : Option α)
  | flag (flag : Bool)
  | done
  | size (size : Nat)
  /-- There is no handle of that number. -/
  | noHandle

/-- A cache with the handles taken. -/
abbrev CacheSession (α ε : Type) : Type := Cache α ε × Array Handle

namespace CacheRequest

variable {α ε : Type}

/-- A request for the outcome of an entry. -/
def fetch (entry : Nat) (outcome : Except ε α)
    (during : CacheSession α ε → List (CacheAnswer α ε) × CacheSession α ε) (s : CacheSession α ε) :
    CacheAnswer α ε × CacheSession α ε :=
  let build := fun s =>
    let (answers, s) := during s
    ((outcome, answers), s)
  let ((result, answers), s) := Cache.getOrBuild entry build s
  (.outcome entry result answers, s)

mutual

/-- The answer to a request. -/
def run : CacheRequest α ε → CacheSession α ε → CacheAnswer α ε × CacheSession α ε
  | .build id during outcome, (c, handles) =>
    let (h, c) := c.handle id
    fetch h.entry outcome (runAll during) (c, handles)
  | .buildAt n during outcome, (c, handles) =>
    match handles[n]? with
    | some h => fetch h.entry outcome (runAll during) (c, handles)
    | none   => (.noHandle, c, handles)
  | .handle id, (c, handles) =>
    let (h, c) := c.handle id
    (.handle handles.size, c, handles.push h)
  | .stateAt n, (c, handles) =>
    match handles[n]? with
    | some h => (.stateAt h.id (c.stateOf h.entry), c, handles)
    | none   => (.noHandle, c, handles)
  | .state id, (c, handles)      => (.state (c.state? id), c, handles)
  | .get id, (c, handles)        => (.value (c.get? id), c, handles)
  | .contains id, (c, handles)   => (.flag (c.contains id), c, handles)
  | .invalidate id, (c, handles) =>
    let (removed, c) := c.invalidate id
    (.flag removed, c, handles)
  | .clear, (c, handles)         => (.done, c.clear, handles)
  | .size, (c, handles)          => (.size c.size, c, handles)

/-- The answers to requests made one after the other. -/
def runAll : List (CacheRequest α ε) → CacheSession α ε →
    List (CacheAnswer α ε) × CacheSession α ε
  | [], s      => ([], s)
  | r :: rs, s =>
    let (answer, s) := r.run s
    let (answers, s) := runAll rs s
    (answer :: answers, s)

end

end CacheRequest

end TypedTemplate
