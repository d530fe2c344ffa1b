import Lifecycle.Creation.Request

/-!
# Concurrent requests for one key

A pool is a number of callers that request the same key of a cache at the same time.  Each caller
first looks the key up without holding the lock.  On a miss it waits for the lock, looks again and
creates the instance if that is still to be done: it runs the factory and ends the creation, which
publishes the instance.  Then it releases the lock.  A step of a pool is the next move of one
caller; a caller that waits for the lock while another one holds it does not move.

A run is given by a schedule, the list of the callers that are to move.  Nothing is assumed about
schedules.
-/

namespace Lifecycle

open Log

/-- Where a caller stands. -/
inductive Caller where
  /-- Before the first look. -/
  | arrived
  /-- The first look found nothing; the caller waits for the lock. -/
  | missed
  /-- The caller holds the lock and is about to look again. -/
  | holding
  /-- The caller is about to run the factory. -/
  | creating (outermost : Bool)
  /-- The factory has come back. -/
  | produced (outermost : Bool) (outcome : Outcome)
  /-- The caller has its result and is about to release the lock. -/
  | closing (result : Except Fault Instance)
  | finished (result : Except Fault Instance)

/-- A cache with callers that request one key of it. -/
structure Pool (κ : Type) where
  cache : Cache κ
  ledger : Ledger
  /-- The caller that holds the lock. -/
  holder : Option Nat := none
  callers : List Caller
  /-- How often the factory has been run. -/
  runs : Nat := 0

namespace Pool

variable {κ : Type}

/-- A factory as the callers see it: what it comes to when it is run, given how often it has been
run before. -/
abbrev Factory := Nat → Ledger → Outcome × Ledger

/-- A number of callers who have just arrived. -/
def arrive (cache : Cache κ) (ledger : Ledger) (count : Nat) : Pool κ :=
  { cache, ledger, callers := List.replicate count .arrived }

/-- Put a caller somewhere. -/
def place (p : Pool κ) (i : Nat) (caller : Caller) : Pool κ :=
  { p with callers := p.callers.set i caller }

/-- The next move of a caller. -/
def step (key : Name) (factory : Factory) (p : Pool κ) (i : Nat) : Logged (Pool κ) :=
  match p.callers[i]? with
  | none => pure p
  | some .arrived =>
      match p.cache.get key with
      | some object => pure (p.place i (.finished (.ok object)))
      | none => pure (p.place i .missed)
  | some .missed =>
      match p.holder with
      | some _ => pure p
      | none => pure { p.place i .holding with holder := some i }
  | some .holding => do
      match ← p.cache.openCreation key with
      | .found object => pure (p.place i (.closing (.ok object)))
      | .refused cause =>
          let (fault, ledger) := p.ledger.raise cause
          pure { p.place i (.closing (.error fault)) with ledger }
      | .started outermost cache => pure { p.place i (.creating outermost) with cache }
  | some (.creating outermost) =>
      let (outcome, ledger) := factory p.runs p.ledger
      pure { p.place i (.produced outermost outcome) with ledger, runs := p.runs + 1 }
  | some (.produced outermost outcome) => do
      let (result, cache, ledger) ← p.cache.closeCreation p.ledger key outermost outcome
      pure { p.place i (.closing result) with cache, ledger }
  | some (.closing result) => pure { p.place i (.finished result) with holder := none }
  | some (.finished _) => pure p

/-- The moves of the callers in a schedule. -/
def run (key : Name) (factory : Factory) (p : Pool κ) : List Nat → Logged (Pool κ)
  | [] => pure p
  | i :: rest => do
      let p ← p.step key factory i
      p.run key factory rest

/-- The schedule in which the callers take turns, each going all its way. -/
def inTurn (count : Nat) : List Nat := (List.range count).flatMap (List.replicate 6)

/-- The results of the callers who have finished. -/
def results (p : Pool κ) : List (Except Fault Instance) :=
  p.callers.filterMap fun
    | .finished result => some result
    | _ => none

/-- How many callers have failed. -/
def failures (p : Pool κ) : Nat :=
  (p.results.filter fun result => !result.isOk).length

/-- The different instances that callers have got. -/
def obtained (p : Pool κ) : List Instance :=
  (p.results.filterMap Except.toOption).eraseDups

end Pool

end Lifecycle
