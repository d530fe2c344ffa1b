import Lifecycle.Creation.Cache

/-!
# Requests for instances

A request that has to create its instance runs a factory in the middle, and the factory may use
the registry in any way.  The request therefore comes in two halves.  `Cache.openCreation` looks
the key up and, if there is nothing to be found, begins the creation; `Cache.closeCreation` takes
what the factory came to, whatever the cache looks like by then, and ends the creation.

A request for an early reference has the same shape, with `Cache.openEarly` and
`Cache.exposeEarly`.
-/

namespace Lifecycle

open Log

/-- What a callback comes to.  A disposal returns the empty handle. -/
inductive Outcome where
  | returned (handle : Handle)
  | threw (fault : Fault)
  deriving DecidableEq, Repr

/-- The first half of a request. -/
inductive Opening (κ : Type) where
  /-- The instance is there. -/
  | found (object : Instance)
  /-- The creation is refused. -/
  | refused (cause : Cause)
  /-- The creation has begun; it is the outermost one if no other is going on. -/
  | started (outermost : Bool) (cache : Cache κ)

/-- What the outcome of a factory means for its key. -/
inductive Verdict where
  /-- The factory made the instance. -/
  | fresh (object : Instance)
  /-- The factory found the key in a state it did not expect, because the key was registered
  meanwhile. -/
  | adopted (object : Instance)
  | failed (fault : Fault)
  deriving DecidableEq, Repr

/-- The failure in a verdict. -/
def Verdict.failure? : Verdict → Option Fault
  | fresh _ => none
  | adopted _ => none
  | failed fault => some fault

/-- The first half of a request for an early reference. -/
inductive EarlyOpening (κ : Type) where
  /-- There is nothing to run. -/
  | known (handle : Handle)
  /-- The pending factory has been taken and is to be run. -/
  | taken (factory : κ) (cache : Cache κ)

namespace Cache

variable {κ : Type}

/-! ## Creation -/

/-- Why nothing is created during and after the teardown of the registry. -/
def teardownMessage : String :=
  "Instance creation not allowed while instances of this registry are in destruction "
    ++ "(Do not request an instance from the registry in a disposal callback!)"

/-- Look a key up and, if it has no finalized instance, begin its creation. -/
def openCreation (c : Cache κ) (key : Name) : Logged (Opening κ) :=
  match c.get key with
  | some object => pure (.found object)
  | none =>
      if c.inDestruction then
        pure (.refused (.notAllowed key teardownMessage))
      else do
        note tag .debug <| "Creating shared instance of '" ++ key ++ "'"
        match c.tracker.start key with
        | .error cause => pure (.refused cause)
        | .ok tracker =>
            pure <| .started c.suppressed.isNone
              { c with tracker, suppressed := some (c.suppressed.getD []) }

/-- Judge what a factory came to. -/
def judge (c : Cache κ) (ledger : Ledger) (key : Name) : Outcome → Verdict × Ledger
  | .returned (some object) => (.fresh object, ledger)
  | .returned none =>
      let (fault, ledger) :=
        ledger.raise (.creation key "factory returned a null instance" none)
      (.failed fault, ledger)
  | .threw fault =>
      match fault.cause.isIllegalState, c.get key with
      | true, some object => (.adopted object, ledger)
      | _, _ => (.failed fault, ledger)

/-- Take the recorded failures, if the creation is the outermost one; otherwise record its own
failure. -/
def closeRecording (c : Cache κ) (outermost : Bool) (failure : Option Fault) :
    List Fault × Cache κ :=
  if outermost then
    (c.suppressed.getD [], { c with suppressed := none })
  else
    ([], failure.elim c c.suppress)

/-- End a creation with what its factory came to. -/
def closeCreation (c : Cache κ) (ledger : Ledger) (key : Name) (outermost : Bool)
    (outcome : Outcome) : Logged (Except Fault Instance × Cache κ × Ledger) := do
  let (verdict, ledger) := c.judge ledger key outcome
  let (recorded, c) := c.closeRecording outermost verdict.failure?
  let c ← if verdict.failure?.isSome then c.discardPartial key else pure c
  match ← c.tracker.finish key, verdict with
  | .error cause, .failed fault =>
      let description := fault.cause.mention
      note tag .error <| "Creation of instance '" ++ key ++ "' failed: " ++ description
      let (raised, ledger) := ledger.raise <| .illegalState key <|
        cause.mention ++ " (pending creation failure: " ++ description ++ ")"
      pure (.error raised, c, ledger)
  | .error cause, _ =>
      let (raised, ledger) := ledger.raise cause
      pure (.error raised, c, ledger)
  | .ok tracker, .failed fault =>
      note tag .debug <| "Creation of instance '" ++ key ++ "' failed: " ++ fault.cause.mention
      let others := recorded.filter fun other => other.serial != fault.serial
      let ledger := if fault.cause.isCreation then ledger.attach fault others else ledger
      pure (.error fault, { c with tracker }, ledger)
  | .ok tracker, .adopted object => pure (.ok object, { c with tracker }, ledger)
  | .ok tracker, .fresh object =>
      let (kept, c) ← { c with tracker }.finalize key object
      pure (.ok kept, c, ledger)

/-! ## Early references -/

/-- Look for an early reference of a key.  Only a key in creation has one. -/
def openEarly (c : Cache κ) (key : Name) : EarlyOpening κ :=
  match c.get key with
  | some object => .known (some object)
  | none =>
      if c.tracker.isActual key then
        match c.early.find? key, c.pending.find? key with
        | some object, _ => .known (some object)
        | none, none => .known none
        | none, some factory => .taken factory { c with pending := c.pending.erase key }
      else
        .known none

/-- Keep what a pending factory made. -/
def exposeEarly (c : Cache κ) (key : Name) : Handle → Logged (Cache κ)
  | none => pure c
  | some object => do
      note tag .debug <| "Exposed early reference for instance '" ++ key ++ "'"
      pure { c with early := c.early.insert key object }

end Cache

end Lifecycle
