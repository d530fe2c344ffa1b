import Lifecycle.Demo
import Lifecycle.Pool
import Lifecycle.Script.World

/-!
# Playing a script

The steps of a script are done in order.  A step may lead to callbacks, and their steps are done
before it ends.  A fault that a step throws is kept, if the script asks for it, and then ends the
body in which the step stands, unless the step is tolerated; at the top level the script goes on.

Callbacks can call one another without end, so a run is bounded in the depth of its callbacks and
in the number of callbacks for one call.  A script that exceeds the bound has no run.
-/

namespace Lifecycle.Script

open Log

/-- A part of a run. -/
abbrev Play := Program World

namespace Play

/-- The log hears records. -/
def hear (records : List Record) : Play Unit := modify fun w => w.hear records

/-- Take the session on. -/
def move (moved : Logged (Session Callback × Reply Callback)) : Play (Reply Callback) := do
  modify fun w => { w with session := moved.value.1 }
  hear moved.records
  pure moved.value.2

/-- Tell the session what a callback came to. -/
def finish (outcome : Outcome) : Play (Reply Callback) := do
  match (← get).session.finish? outcome with
  | none => Program.exhausted
  | some moved => move moved

/-- Take an instance from somewhere. -/
def take (source : Source) : Play Handle := modifyGet fun w => w.take source

/-- Take a fault from somewhere. -/
def takeFault (source : Option FaultSource) : Play (Option Fault) :=
  modifyGet fun w => w.takeFault source

/-- A new fault. -/
def raise (cause : Cause) : Play Fault :=
  modifyGet fun w =>
    let (fault, session) := w.session.raise cause
    (fault, { w with session })

/-! ## Steps that run no callbacks -/

/-- Deal with what the hub said. -/
def hubReply (reply : HubReply) : Play (Except Fault Value) := do
  modify fun w => { w with hub := reply.hub }.warn reply.warnings
  match reply.result with
  | .ok status => pure (.ok (.answer (.status status)))
  | .error e => .error <$> raise (.document e)

/-- The answer of a step that has none. -/
def done : Except Fault Value := .ok (.answer .done)

/-- Make a request to the log of the program. -/
def log : LogCall → Play (Except Fault Value)
  | .install kind config only => do
      let w ← get
      let installed := match config with
        | .ok d => w.hub.install kind d
        | .error file => w.hub.installFrom w.files kind file
      hubReply (if only then installed else installed.thenApply)
  | .apply => do hubReply (← get).hub.apply
  | .shutdown => do
      modify fun w => { w with hub := w.hub.shutdown }
      pure done
  | .log record => do
      hear [{ record with tag := Text.untilNul record.tag }]
      pure done
  | .setLevel tag level => do
      modify fun w => { w with hub := w.hub.setLevel tag level }
      pure done
  | .setMuted tag muted => do
      modify fun w => { w with hub := w.hub.setMuted tag muted }
      pure done

/-- Make a request to the router of the script. -/
def router (c : RouterCall) : Play (Except Fault Value) := do
  modify fun w =>
    let table := w.hub.table
    let (deliveries, router, table) : List Delivery × Router × ChannelTable := match c with
      | .renew => ([], {}, table)
      | .start => ([], w.router.start, table)
      | .shutdown => ([], w.router.shutdown table)
      | .openChannel tag => ([], (w.router.openChannel table tag).2)
      | .setMuted tag muted => ([], w.router.setMuted tag muted, table)
      | .setLevel tag level => ([], w.router.setLevel table tag level)
      | .addSink tag sink => ([], w.router.addSink tag sink, table)
      | .log record => w.router.log table record
    { w with router, hub := { w.hub with table } }.tellAll deliveries
  pure done

/-- The factory that the callers of a pool are given. -/
def crowdFactory (w : World) : PoolFactory → Pool.Factory
  | .make typeName => fun run ledger => (.returned (some ⟨typeName, w.nextId + run⟩), ledger)
  | .throws source => fun _ ledger =>
      match FaultSource.takeOptional w.faults source ledger with
      | (some fault, ledger) => (.threw fault, ledger)
      | (none, ledger) => (.returned none, ledger)

/-- Let callers request one key at the same time. -/
def crowd (byName : Bool) (key : Name) (count : Nat) (factory : PoolFactory) :
    Play (Except Fault Value) := do
  let w ← get
  let r := w.session.registry
  let key := if byName then r.aliases.canonical key else key
  let ran := (Pool.arrive r.cache r.ledger count).run key (crowdFactory w factory)
    (Pool.inTurn count)
  let pool := ran.value
  let made := match factory with
    | .make _ => pool.runs
    | .throws _ => 0
  set { w with
    nextId := w.nextId + made
    session := { w.session with registry := { r with cache := pool.cache, ledger := pool.ledger } } }
  hear ran.records
  pure (.ok (.tally pool.runs pool.failures pool.obtained.length))

/-- Run the demonstration. -/
def demonstrate (path : Option String) : Play (Except Fault Value) := do
  let w ← get
  match Demo.runWith w.files w.hub (Demo.configPath path) with
  | none => Program.exhausted
  | some ending =>
      set ({ w with hub := ending.hub }.tellAll ending.deliveries |>.warn ending.warnings)
      match ending.result with
      | .ok code => pure (.ok (.exit code))
      | .error e => .error <$> raise (.document e)

/-- Read settings. -/
def readSettings (source : SettingsSource) : Play (Except Fault Value) := do
  let w ← get
  let reading := match source with
    | .document d => Settings.ofDocument (some d)
    | .nothing => Settings.ofDocument none
    | .file path => Settings.ofFile w.files path
  match reading with
  | .ok reading => pure (.ok (.settings reading))
  | .error e => .error <$> raise (.document e)

/-! ## Steps -/

/-- See the instance in an answer as one of a type. -/
def castAnswer (typeName : String) : Answer → Answer
  | .handle handle => .handle (handle.cast typeName)
  | a => a

/-- Do what a step does.  `settle` runs the callbacks that a call leads to. -/
def act (settle : Reply Callback → Play (Except Fault Answer)) :
    Action → Play (Except Fault Value)
  | .call c => do
      let result ← settle (← move ((← get).session.call c))
      pure (result.map .answer)
  | .facade c => do
      let result ← settle (← move ((← get).session.facade c))
      pure (result.map .answer)
  | .facadeAs typeName c => do
      let result ← settle (← move ((← get).session.facade c))
      pure (result.map fun a => .answer (castAnswer typeName a))
  | .registerFinalized key source typeName => do
      let handle ← take source
      let handle := typeName.elim handle fun typeName => Handle.cast typeName handle
      let result ← settle (← move ((← get).session.call (.cache (.registerFinalized key handle))))
      pure (result.map .answer)
  | .suppress source => do
      let fault ← takeFault source
      let result ← settle (← move ((← get).session.call (.cache (.suppress fault))))
      pure (result.map .answer)
  | .cast source typeName => do
      pure (.ok (.answer (.handle (Handle.cast typeName (← take source)))))
  | .same first second => do
      let first ← take first
      let second ← take second
      pure (.ok (.answer (.flag (first = second))))
  | .keep source => do pure (.ok (.answer (.handle (← take source))))
  | .crowd byName key count factory => crowd byName key count factory
  | .observe => do
      let w ← get
      pure (.ok (.snapshot (Snapshot.of w.session.registry w.watched)))
  | .report status remark => do
      if !status.isSuccess then
        hear [⟨"Result", .error, status.text⟩]
      pure (.ok (.report status remark))
  | .describe source => do
      let fault ← takeFault source
      pure (.ok (.description (Fault.mention? fault) (fault.map (← get).view)))
  | .throws source => do
      match ← takeFault source with
      | some fault => pure (.error fault)
      | none => pure done
  | .readSettings source => readSettings source
  | .demonstrate path => demonstrate path
  | .log c => log c
  | .levelOf word => pure (.ok (.level (Level.ofName word)))
  | .router c => router c

/-- Do a step, show its end, and keep what it is to keep.  The result is the fault that ends the
body, if there is one. -/
def step (settle : Reply Callback → Play (Except Fault Answer)) (s : Step) :
    Play (Option Fault) := do
  let result ← act settle s.action
  modify fun w =>
    let w := w.flush
    w.tell (.ended w.depth s.title (result.mapError w.view))
  match result with
  | .ok value =>
      match value, s.keepIn with
      | .answer (.handle handle), some slot =>
          modify fun w => { w with handles := w.handles.insert slot handle }
      | _, _ => pure ()
      pure none
  | .error fault =>
      match s.keepFaultIn with
      | some slot => modify fun w => { w with faults := w.faults.insert slot fault }
      | none => pure ()
      pure (if s.tolerated then none else some fault)

/-- Do the steps of a body that are due in one of its runs, up to a fault. -/
def steps (settle : Reply Callback → Play (Except Fault Answer)) (run : Nat) :
    List Step → Play (Option Fault)
  | [] => pure none
  | s :: rest => do
      if s.isDue run then
        match ← step settle s with
        | some fault => pure (some fault)
        | none => steps settle run rest
      else
        steps settle run rest

/-- What a body comes to after its steps. -/
def ending (body : Body) (role : Role) (typeName : Option String) (run : Nat) : Play Outcome := do
  let thrown ← if body.throwsUpto.all (run ≤ ·) then takeFault body.throws else pure none
  match thrown, role with
  | some fault, _ => pure (.threw fault)
  | none, .disposal => pure (.returned none)
  | none, .factory => do
      let handle ← take body.result
      pure (.returned (typeName.elim handle fun typeName => Handle.cast typeName handle))

/-- Run a callback.  The bound is on the depth of callbacks and on their number for one call. -/
def callback (bodies : Array Body) : Nat → Role → Callback → Play Outcome
  | 0, _, _ => Program.exhausted
  | bound + 1, role, c => do
      let body := bodies.getD c.body {}
      let run ← modifyGet fun w => w.countRun c.body
      modify fun w =>
        { w.tell (.entered w.depth role body.label run) with depth := w.depth + 1 }
      let settle := Reply.settle (callback bodies bound) finish bound
      let outcome ← match ← steps settle run body.steps with
        | some fault => pure (.threw fault)
        | none => ending body role c.typeName run
      modify fun w => { w with depth := w.depth - 1 }
      pure outcome

/-- Run the callbacks that a call at the top level leads to. -/
def settle (bodies : Array Body) (bound : Nat) : Reply Callback → Play (Except Fault Answer) :=
  Reply.settle (callback bodies bound) finish bound

end Play

end Lifecycle.Script
