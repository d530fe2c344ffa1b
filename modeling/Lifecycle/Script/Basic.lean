import Lifecycle.Log.Hub
import Lifecycle.Registry.Facade
import Lifecycle.Settings

/-!
# Scripts

A script is user code as data: a row of steps, each of which does one thing with a registry or
with the log, and a table of callback bodies, which are rows of steps as well.  Steps may keep
instances and faults under the name of a slot for later steps.

What a run of a script shows is a list of events, each with the depth of the callbacks in which it
happens.
-/

namespace Lifecycle.Script

open Log

/-- A slot in which a script keeps something. -/
abbrev Slot := String

/-- A callback of a script: a body in its table, and the type that its instance is handed over as,
if it is handed over as one. -/
structure Callback where
  body : Nat
  typeName : Option String := none
  deriving DecidableEq, Repr, Inhabited

/-- Where a script takes an instance from. -/
inductive Source where
  | nothing
  /-- A new object. -/
  | make (typeName : String)
  /-- What was kept in a slot. -/
  | kept (slot : Slot)
  deriving DecidableEq, Repr, Inhabited

/-- Where a script takes a fault from. -/
inductive FaultSource where
  /-- A new fault. -/
  | raise (cause : Cause)
  /-- A new failed creation, with the fault that made it fail and related ones, which may be
  missing. -/
  | creation (key message : String) (nested : Option FaultSource)
      (related : List (Option FaultSource))
  /-- What was kept in a slot. -/
  | kept (slot : Slot)

/-- A request to the log of the program. -/
inductive LogCall where
  /-- Put logging to work, and configure it unless only the first is wanted. -/
  | install (kind : Int) (config : Except String Document) (only : Bool)
  | apply
  | shutdown
  | log (record : Record)
  | setLevel (tag : Name) (level : Level)
  | setMuted (tag : Name) (muted : Bool)

/-- A request to a router that the script has to itself. -/
inductive RouterCall where
  | renew
  | start
  | shutdown
  | openChannel (tag : Name)
  | setMuted (tag : Name) (muted : Bool)
  | setLevel (tag : Name) (level : Level)
  | addSink (tag : Name) (sink : Sink)
  | log (record : Record)

/-- What the callers of a pool are given as a factory. -/
inductive PoolFactory where
  | make (typeName : String)
  | throws (fault : Option FaultSource)

/-- Where settings are read from. -/
inductive SettingsSource where
  | document (d : Document)
  | file (path : String)
  | nothing

/-- What a step does. -/
inductive Action where
  | call (c : Call Callback)
  | facade (c : FacadeCall Callback)
  /-- A call on the whole registry whose instance is seen as one of a type. -/
  | facadeAs (typeName : String) (c : FacadeCall Callback)
  | registerFinalized (key : Name) (source : Source) (typeName : Option String)
  | suppress (fault : Option FaultSource)
  | cast (source : Source) (typeName : String)
  | same (first second : Source)
  | keep (source : Source)
  /-- Callers who all request one key at the same time, or the key that a name stands for. -/
  | crowd (byName : Bool) (key : Name) (count : Nat) (factory : PoolFactory)
  | observe
  /-- Report a status, and log it if it is a failure. -/
  | report (status : Status) (remark : String)
  | describe (fault : Option FaultSource)
  | throws (fault : Option FaultSource)
  | readSettings (source : SettingsSource)
  /-- Run the demonstration. -/
  | demonstrate (path : Option String)
  | log (c : LogCall)
  | levelOf (word : String)
  | router (c : RouterCall)

/-- A step of a script. -/
structure Step where
  /-- The title under which the end of the step is shown. -/
  title : String
  action : Action
  /-- Whether the script goes on when the step throws. -/
  tolerated : Bool := false
  /-- The slot for the instance that the step answers. -/
  keepIn : Option Slot := none
  /-- The slot for the fault that the step throws. -/
  keepFaultIn : Option Slot := none
  /-- The first and the last run of the body in which the step is done. -/
  fromRun : Option Nat := none
  uptoRun : Option Nat := none

/-- Whether a step is done in a run of its body. -/
def Step.isDue (step : Step) (run : Nat) : Bool :=
  step.fromRun.all (· ≤ run) && step.uptoRun.all (run ≤ ·)

/-- The body of a callback: what it does, and then what it throws or returns. -/
structure Body where
  label : String := ""
  steps : List Step := []
  throws : Option FaultSource := none
  /-- The last run in which the body throws. -/
  throwsUpto : Option Nat := none
  result : Source := .nothing

/-- A fault as it looks at some moment. -/
structure FaultView where
  fault : Fault
  relatedCount : Nat
  account : Option String
  deriving DecidableEq, Repr

/-- A fault as it looks now. -/
def FaultView.of (ledger : Ledger) (fault : Fault) : FaultView :=
  { fault, relatedCount := (ledger.related fault).length, account := ledger.account? fault }

/-- What a registry knows of a name. -/
structure KeyView where
  key : Name
  canonical : Name
  aliases : List Name
  object : Handle
  current : Bool
  actual : Bool
  excluded : Bool
  dependents : List Name
  dependencies : List Name
  contained : List Name
  disposal : Bool
  deriving DecidableEq, Repr

/-- A registry as it looks at some moment. -/
structure Snapshot where
  names : List Name
  count : Nat
  suppressed : Nat
  inDestruction : Bool
  disposals : Nat
  keys : List KeyView
  deriving DecidableEq, Repr

/-- What a registry knows of a name now. -/
def KeyView.of {κ : Type} (r : Registry κ) (key : Name) : KeyView where
  key := key
  canonical := r.aliases.canonical key
  aliases := r.aliases.targets.aliasesOf key
  object := r.cache.get key
  current := r.cache.tracker.isCurrent key
  actual := r.cache.tracker.isActual key
  excluded := r.cache.tracker.excluded.contains key
  dependents := (r.graph.dependents.of key).toList
  dependencies := (r.graph.dependencies.of key).toList
  contained := (r.graph.contained.of key).toList
  disposal := r.disposals.has key

/-- A registry as it looks now, with what it knows of some names. -/
def Snapshot.of {κ : Type} (r : Registry κ) (watched : List Name) : Snapshot where
  names := r.cache.registered
  count := r.cache.registered.length
  suppressed := r.cache.suppressedCount
  inDestruction := r.cache.inDestruction
  disposals := r.disposals.length
  keys := watched.map (KeyView.of r)

/-- What a step comes to when it does not throw. -/
inductive Value where
  | answer (a : Answer)
  | level (level : Level)
  | snapshot (s : Snapshot)
  | report (status : Status) (remark : String)
  | description (text : String) (view : Option FaultView)
  | settings (reading : SettingsReading)
  /-- How often the factory was run, how many callers failed, and how many different instances the
  others got. -/
  | tally (runs failed distinct : Nat)
  | exit (code : Nat)

/-- What a run shows, with the depth at which it happens. -/
inductive Event where
  /-- A step has ended. -/
  | ended (depth : Nat) (title : String) (outcome : Except FaultView Value)
  /-- A callback is entered, for the given time. -/
  | entered (depth : Nat) (role : Role) (label : String) (run : Nat)
  /-- A record has reached a sink. -/
  | heard (depth : Nat) (delivery : Delivery)
  /-- A warning has been written. -/
  | warned (depth : Nat) (line : String)
  | observed (s : Snapshot)

end Lifecycle.Script
