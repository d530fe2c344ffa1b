import Lifecycle.Script.Play

/-!
# Scenarios

A scenario is a script with everything it needs from the start: what it works on, how the log is
configured, which files there are, and which names are watched.  Playing a scenario shows the
events of its steps and, if it works on a registry as a whole, of the end of the registry's life.
-/

namespace Lifecycle.Script

open Log

/-- What a scenario works on. -/
inductive Target where
  /-- The parts of a registry, put together by hand. -/
  | parts (allowOverriding : Bool)
  /-- A registry, from its creation to its end. -/
  | registry (settings : Settings)
  | nothing
  deriving DecidableEq, Repr

/-- A script with everything it needs. -/
structure Scenario where
  target : Target := .nothing
  /-- The first step, which comes before the registry is made and is not followed by a snapshot. -/
  opening : Option Step := none
  files : Files := []
  bodies : Array Body := #[]
  /-- The names to be watched; a snapshot follows each step of the script. -/
  watched : Option (List Name) := none
  steps : List Step := []

/-- What a scenario shows: the events of its steps, and those of the end of the registry. -/
structure Showing where
  events : List Event
  closing : List Event

namespace Scenario

/-- Make what the scenario works on. -/
def enter : Target → Play Unit
  | .nothing => pure ()
  | .parts allowOverriding =>
      modify fun w =>
        let r := w.session.registry
        { w with session := { w.session with registry := { r with aliases := { allowOverriding } } } }
  | .registry settings => do
      let w ← get
      let created := Registry.create settings.name settings.allowAliasOverriding
        w.session.registry.ledger
      set { w with session := { w.session with registry := created.value } }
      Play.hear created.records

/-- Do the steps at the top level. -/
def perform (settle : Reply Callback → Play (Except Fault Answer)) (watched : Bool) :
    List Step → Play Unit
  | [] => pure ()
  | s :: rest => do
      let _ ← Play.step settle s
      if watched then
        modify fun w => w.tell (.observed (Snapshot.of w.session.registry w.watched))
      perform settle watched rest

/-- End the registry's life. -/
def leave (settle : Reply Callback → Play (Except Fault Answer)) : Target → Play Unit
  | .registry _ => do
      let _ ← settle (← Play.move ((← get).session.call (.teardown .close)))
  | _ => pure ()

/-- All that happens up to the end of the registry. -/
def run (s : Scenario) (settle : Reply Callback → Play (Except Fault Answer)) : Play Unit := do
  match s.opening with
  | some opening => let _ ← Play.step settle opening
  | none => pure ()
  enter s.target
  perform settle s.watched.isSome s.steps

/-- The bound on callbacks in a scenario. -/
def bound : Nat := 100000

/-- Play a scenario. -/
def play (s : Scenario) : Option Showing := do
  let settle := Play.settle s.bodies bound
  let world : World := { files := s.files, watched := s.watched.getD [] }
  let (_, world) ← (s.run settle).run world
  let (_, closed) ← (leave settle s.target).run { world with events := [] }
  pure { events := world.events.reverse, closing := closed.events.reverse }

end Scenario

end Lifecycle.Script
