import Lifecycle.Creation.Tracker
import Lifecycle.Instance

/-!
# The instance cache

A key is in one of three states beside being absent: it is finalized, it has an early reference
that others may hold while it is still being created, or it has a pending factory that could make
such a reference.  The cache also lists the registered names in order of registration, records the
failures swallowed during the outermost creation, and knows whether the registry is being torn
down.

Callbacks are values of a type `κ` of which the cache knows nothing; running them is up to the
user of the cache.
-/

namespace Lifecycle

open Log

/-- The instances of a registry, on their way from request to finished object. -/
structure Cache (κ : Type) where
  finalized : NameMap Instance := ∅
  early : NameMap Instance := ∅
  pending : NameMap κ := ∅
  registered : List Name := []
  /-- The failures swallowed during the outermost creation, while there is one. -/
  suppressed : Option (List Fault) := none
  inDestruction : Bool := false
  tracker : Tracker := {}
  deriving DecidableEq, Inhabited

/-- What becomes of an instance that is registered as finished. -/
inductive Registration where
  | added
  | duplicate (key : Name)
  | emptyKey
  | noInstance (key : Name)
  | occupied (key : Name) (offered existing : Instance)
  deriving DecidableEq, Repr

/-- A registration as a status. -/
def Registration.status : Registration → Status
  | added => .ok
  | duplicate key => .saying .duplicateIgnored ("Instance '" ++ key ++ "' is already registered")
  | emptyKey => .saying .invalidArgument "Instance key must not be empty"
  | noInstance key => .saying .invalidArgument ("Instance for '" ++ key ++ "' must not be null")
  | occupied key offered existing =>
      .saying .alreadyExists <|
        "Could not register instance [" ++ offered.typeName ++ "] under key '" ++ key
          ++ "': there is already instance [" ++ existing.typeName ++ "] bound"

namespace Cache

variable {κ : Type}

/-- The tag of the cache's records. -/
def tag : Name := "InstanceCache"

/-- At most this many swallowed failures are recorded. -/
def suppressedLimit : Nat := 100

/-- The finalized instance of a key. -/
def get (c : Cache κ) (key : Name) : Handle := c.finalized.find? key

/-- List a name, unless it is listed already. -/
def list (c : Cache κ) (key : Name) : Cache κ :=
  if key ∈ c.registered then c else { c with registered := c.registered ++ [key] }

/-- Take a name off the list. -/
def unlist (c : Cache κ) (key : Name) : Cache κ :=
  { c with registered := c.registered.filter (· != key) }

/-- Drop the pending factory and the early reference of a key. -/
def dropPartial (c : Cache κ) (key : Name) : Cache κ :=
  { c with pending := c.pending.erase key, early := c.early.erase key }

/-- Make an instance the finalized one of its key, unless the key has one, which is kept.  The
answer is the instance that the key has then. -/
def finalize (c : Cache κ) (key : Name) (object : Instance) : Logged (Instance × Cache κ) :=
  match c.get key with
  | some existing => do
      note tag .warn <|
        "Instance '" ++ key
          ++ "' was registered while being created; keeping the registered instance"
      pure (existing, c.dropPartial key)
  | none =>
      let c := { c with finalized := c.finalized.insert key object }
      pure (object, (c.dropPartial key).list key)

/-- Register a finished instance. -/
def registerFinalized (c : Cache κ) (key : Name) (handle : Handle) :
    Logged (Registration × Cache κ) :=
  if key = "" then
    pure (.emptyKey, c)
  else
    match handle, c.get key with
    | none, _ => pure (.noInstance key, c)
    | some object, some existing =>
        if existing = object then
          pure (.duplicate key, c)
        else
          pure (.occupied key object existing, c)
    | some object, none => do
        let (_, c) ← c.finalize key object
        pure (.added, c)

/-- Register the factory of an early reference, in the place of an older one and of the reference
it made.  A finalized key needs none. -/
def registerPending (c : Cache κ) (key : Name) (factory : κ) : Cache κ :=
  if (c.get key).isSome then
    c
  else
    { c with
      pending := c.pending.insert key factory
      early := c.early.erase key }.list key

/-- Forget a key. -/
def evict (c : Cache κ) (key : Name) : Cache κ :=
  { c with finalized := c.finalized.erase key }.dropPartial key |>.unlist key

/-- Record a swallowed failure, if a creation is going on and there is room. -/
def suppress (c : Cache κ) (fault : Fault) : Cache κ :=
  match c.suppressed with
  | none => c
  | some recorded =>
      if recorded.length < suppressedLimit then
        { c with suppressed := some (recorded ++ [fault]) }
      else
        c

/-- The number of swallowed failures recorded. -/
def suppressedCount (c : Cache κ) : Nat := (c.suppressed.map List.length).getD 0

/-- Forget all keys. -/
def clear (c : Cache κ) : Cache κ :=
  { c with finalized := ∅, early := ∅, pending := ∅, registered := [] }

/-- Remove what a failed creation has left behind.  A key that was finalized meanwhile is not
touched. -/
def discardPartial (c : Cache κ) (key : Name) : Logged (Cache κ) :=
  if (c.get key).isSome then
    pure c
  else do
    if c.early.contains key then
      note tag .debug <| "Discarded early reference of failed instance '" ++ key ++ "'"
    pure ((c.dropPartial key).unlist key)

end Cache

end Lifecycle
