import Lifecycle.Registry.Teardown

/-!
# Sessions

A session is a registry in use: the registry, and the calls on it that have not come back because
a callback of theirs is running.  Two kinds of moves take a session on.  User code makes a call
(`Session.call`), at any time and as often as it likes, also while callbacks are running; and the
callback that is running comes back (`Session.finish?`).  The session replies either with the
answer to a call or with the callback that is to be run next.

Nothing is assumed about callbacks, so a statement about all rows of moves is a statement about
all factories and disposals, whatever they do and however they nest.
-/

namespace Lifecycle

open Log

/-- What a callback is run for. -/
inductive Role where
  | factory
  | disposal
  deriving DecidableEq, Repr

/-- What a session says to a move. -/
inductive Reply (κ : Type) where
  /-- The call, or the innermost one that was waiting, has come back. -/
  | answered (result : Except Fault Answer)
  /-- A callback is to be run. -/
  | entered (role : Role) (callback : κ)

/-- What the callback of a waiting call is run for. -/
def Frame.role {κ : Type} : Frame κ → Role
  | creating _ _ => .factory
  | exposing _ => .factory
  | disposing _ _ => .disposal

namespace Registry

variable {κ : Type}

/-- Answer a call. -/
def answer (r : Registry κ) (a : Answer) : Registry κ × Progress κ := (r, .answered (.ok a))

/-- Let a call fail with a new fault. -/
def raise (r : Registry κ) (cause : Cause) : Registry κ × Progress κ :=
  let (fault, ledger) := r.ledger.raise cause
  ({ r with ledger }, .answered (.error fault))

/-- Run a call on the instance cache. -/
def callCache (r : Registry κ) : CacheCall κ → Logged (Registry κ × Progress κ)
  | .get key => pure (r.answer (.handle (r.cache.get key)))
  | .getEarly key =>
      match r.cache.openEarly key with
      | .known handle => pure (r.answer (.handle handle))
      | .taken factory cache => pure ({ r with cache }, .entered factory (.exposing key))
  | .getOrCreate key none =>
      pure (r.raise (.refused .invalidArgument key "Instance factory must not be empty"))
  | .getOrCreate key (some factory) => do
      match ← r.cache.openCreation key with
      | .found object => pure (r.answer (.handle (some object)))
      | .refused cause => pure (r.raise cause)
      | .started outermost cache =>
          pure ({ r with cache }, .entered factory (.creating key outermost))
  | .registerFinalized key handle => do
      let (registration, cache) ← r.cache.registerFinalized key handle
      pure (answer { r with cache } (.status registration.status))
  | .registerPending key factory =>
      pure <| answer { r with cache := factory.elim r.cache (r.cache.registerPending key) } .done
  | .evict key => pure (answer { r with cache := r.cache.evict key } .done)
  | .suppress fault =>
      pure (answer { r with cache := fault.elim r.cache r.cache.suppress } .done)
  | .suppressedCount => pure (r.answer (.count r.cache.suppressedCount))
  | .contains key => pure (r.answer (.flag (r.cache.finalized.contains key)))
  | .names => pure (r.answer (.names r.cache.registered))
  | .count => pure (r.answer (.count r.cache.registered.length))
  | .setInDestruction value =>
      pure (answer { r with cache := { r.cache with inDestruction := value } } .done)
  | .inDestruction => pure (r.answer (.flag r.cache.inDestruction))
  | .clear => pure (answer { r with cache := r.cache.clear } .done)

/-- Run a call on the disposals, or begin a teardown. -/
def callTeardown (r : Registry κ) : TeardownCall κ → Logged (Registry κ × Progress κ)
  | .registerDisposal key callback =>
      pure <| answer
        { r with disposals := callback.elim r.disposals (r.disposals.register key ·) } .done
  | .hasDisposal key => pure (r.answer (.flag (r.disposals.has key)))
  | .disposalCount => pure (r.answer (.count r.disposals.length))
  | .destroy key => r.teardown [.destroy key]
  | .destroyAll => do
      let (tasks, r) ← r.beginDestroyAll
      r.teardown tasks
  | .retire => do
      let (tasks, r) ← r.beginRetire
      r.teardown tasks
  | .close =>
      if r.destroyed then
        pure (r.answer .done)
      else do
        let (tasks, r) ← r.beginRetire
        r.teardown tasks

/-- Run a call until it is answered or a callback is to be run. -/
def call (r : Registry κ) : Call κ → Logged (Registry κ × Progress κ)
  | .name => pure (r.answer (.name r.name))
  | .aliases c => do
      let (aliases, a) ← c.run r.aliases
      pure (answer { r with aliases } a)
  | .tracker c => do
      match ← c.run r.cache.tracker with
      | .ok (tracker, a) => pure (answer { r with cache := { r.cache with tracker } } a)
      | .error cause => pure (r.raise cause)
  | .cache c => r.callCache c
  | .graph c => do
      let (graph, a) ← c.run r.aliases r.graph
      pure (answer { r with graph } a)
  | .teardown c => r.callTeardown c

/-- Go on with a waiting call when its callback has come back. -/
def resume (r : Registry κ) (outcome : Outcome) : Frame κ → Logged (Registry κ × Progress κ)
  | .creating key outermost => do
      let (result, cache, ledger) ← r.cache.closeCreation r.ledger key outermost outcome
      pure ({ r with cache, ledger },
        .answered (result.map fun object => .handle (some object)))
  | .exposing key =>
      match outcome with
      | .threw fault => pure (r, .answered (.error fault))
      | .returned handle => do
          let cache ← r.cache.exposeEarly key handle
          pure (answer { r with cache } (.handle handle))
  | .disposing key rest => do
      noteDisposal key outcome
      r.teardown rest

end Registry

/-- A registry and the calls on it that wait for a callback, the innermost first. -/
structure Session (κ : Type) where
  registry : Registry κ := {}
  stack : List (Frame κ) := []
  deriving DecidableEq, Inhabited

namespace Session

variable {κ : Type}

/-- Take note of how far the call above a given stack has come. -/
def after (stack : List (Frame κ)) : Registry κ × Progress κ → Session κ × Reply κ
  | (registry, .answered result) => (⟨registry, stack⟩, .answered result)
  | (registry, .entered callback frame) =>
      (⟨registry, frame :: stack⟩, .entered frame.role callback)

/-- User code makes a call. -/
def call (s : Session κ) (c : Call κ) : Logged (Session κ × Reply κ) :=
  after s.stack <$> s.registry.call c

/-- The innermost callback comes back.  There is no such move if none is running. -/
def finish? (s : Session κ) (outcome : Outcome) : Option (Logged (Session κ × Reply κ)) :=
  match s.stack with
  | [] => none
  | frame :: stack => some (after stack <$> s.registry.resume outcome frame)

/-- User code raises a fault of its own. -/
def raise (s : Session κ) (cause : Cause) : Fault × Session κ :=
  let (fault, ledger) := s.registry.ledger.raise cause
  (fault, { s with registry := { s.registry with ledger } })

/-- User code attaches faults to a fault. -/
def attach (s : Session κ) (fault : Fault) (others : List Fault) : Session κ :=
  { s with registry := { s.registry with ledger := s.registry.ledger.attach fault others } }

end Session

end Lifecycle
