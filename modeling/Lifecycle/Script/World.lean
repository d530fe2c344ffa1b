import Lifecycle.Script.Basic

/-!
# The world of a script

Everything that a running script can see or change: the session on the registry, the log, a
router of its own, the slots, and the events shown so far.
-/

namespace Lifecycle.Script

open Log

/-- The state of a run. -/
structure World where
  session : Session Callback := {}
  hub : Hub := {}
  router : Router := {}
  files : Files := []
  /-- The names that snapshots look at. -/
  watched : List Name := []
  /-- The identity of the next object; the first object of a run has identity 1. -/
  nextId : Nat := 1
  handles : NameMap Handle := ∅
  faults : NameMap Fault := ∅
  /-- How often each body has been entered. -/
  runs : List (Nat × Nat) := []
  depth : Nat := 0
  /-- Warnings that are not shown yet, the latest first. -/
  warnings : List String := []
  /-- What has been shown, the latest first. -/
  events : List Event := []

namespace World

/-- Show an event. -/
def tell (w : World) (event : Event) : World := { w with events := event :: w.events }

/-- Show deliveries. -/
def tellAll (w : World) (deliveries : List Delivery) : World :=
  { w with events := (deliveries.map (.heard w.depth)).reverse ++ w.events }

/-- Send records to the log of the program. -/
def hear (w : World) (records : List Record) : World :=
  let (deliveries, hub) := w.hub.logAll records
  { w with hub }.tellAll deliveries

/-- Write warnings; each line of a warning is shown by itself. -/
def warn (w : World) (warnings : List String) : World :=
  { w with warnings := (warnings.flatMap (·.splitOn "\n")).reverse ++ w.warnings }

/-- Show the warnings that have been written. -/
def flush (w : World) : World :=
  { w with
    warnings := []
    events := w.warnings.map (.warned w.depth) ++ w.events }

/-- The fault as it looks now. -/
def view (w : World) (fault : Fault) : FaultView := FaultView.of w.session.registry.ledger fault

/-- Take an instance from somewhere. -/
def take (w : World) : Source → Handle × World
  | .nothing => (none, w)
  | .make typeName => (some ⟨typeName, w.nextId⟩, { w with nextId := w.nextId + 1 })
  | .kept slot => ((w.handles.find? slot).getD none, w)

/-- Count a run of a body. -/
def countRun (w : World) (body : Nat) : Nat × World :=
  let run := (w.runs.lookup body).getD 0 + 1
  (run, { w with runs := (body, run) :: w.runs.filter (·.1 != body) })

end World

/-! ## Faults -/

mutual

/-- Take a fault from somewhere; there may be none in a slot. -/
def FaultSource.take (kept : NameMap Fault) : FaultSource → Ledger → Option Fault × Ledger
  | .raise cause, ledger =>
      let (fault, ledger) := ledger.raise cause
      (some fault, ledger)
  | .kept slot, ledger => (kept.find? slot, ledger)
  | .creation key message nested related, ledger =>
      let (nested, ledger) := takeOptional kept nested ledger
      let (fault, ledger) :=
        ledger.raise (.creation key message (nested.map fun f => f.cause.mention))
      let (others, ledger) := takeAll kept related ledger
      (some fault, ledger.attach fault others)

/-- Take a fault that may be missing. -/
def FaultSource.takeOptional (kept : NameMap Fault) :
    Option FaultSource → Ledger → Option Fault × Ledger
  | none, ledger => (none, ledger)
  | some source, ledger => source.take kept ledger

/-- Take several faults, leaving out those that are missing. -/
def FaultSource.takeAll (kept : NameMap Fault) :
    List (Option FaultSource) → Ledger → List Fault × Ledger
  | [], ledger => ([], ledger)
  | source :: rest, ledger =>
      let (fault, ledger) := takeOptional kept source ledger
      let (others, ledger) := takeAll kept rest ledger
      (fault.toList ++ others, ledger)

end

/-- Take a fault, if there is one. -/
def World.takeFault (w : World) (source : Option FaultSource) : Option Fault × World :=
  let registry := w.session.registry
  let (fault, ledger) := FaultSource.takeOptional w.faults source registry.ledger
  (fault, { w with session := { w.session with registry := { registry with ledger } } })

end Lifecycle.Script
