import Lifecycle.Log.Hub
import Lifecycle.Registry.Drive
import Lifecycle.Registry.Facade
import Lifecycle.Settings

/-!
# A demonstration

A small program that lives on a registry: a service that needs a repository, a repository that
needs a connection and knows its service, so that service and repository stand in a circle.  The
circle is closed by an early reference to the service.  One document configures the log and the
registry.
-/

namespace Lifecycle.Demo

open Log

/-- The tag of the program's records. -/
def tag : Name := "Host"

/-- The callbacks of the program. -/
inductive Part where
  | makeConnection
  | makeService
  | exposeService
  | makeRepository
  | closeConnection
  | releaseRepository
  | releaseService
  deriving DecidableEq, Repr

/-- The program at work: its registry, its log, what has been logged, and the fields of its
objects that matter. -/
structure Stage where
  session : Session Part := {}
  hub : Hub
  deliveries : List Delivery := []
  made : Nat := 0
  /-- The service that is being made. -/
  service : Handle := none
  /-- The service that the repository knows. -/
  owner : Handle := none

/-- A part of the program.  A fault ends it early. -/
abbrev Act := ExceptT Fault (Program Stage)

/-- Send records. -/
def hear (records : List Record) : Program Stage Unit :=
  modify fun stage =>
    let (deliveries, hub) := stage.hub.logAll records
    { stage with hub, deliveries := stage.deliveries ++ deliveries }

/-- Write one record of the program's own. -/
def say (level : Level) (message : String) : Program Stage Unit := hear [⟨tag, level, message⟩]

/-- Take the session on. -/
def move (next : Session Part → Logged (Session Part × Reply Part)) :
    Program Stage (Reply Part) := do
  let stage ← get
  let moved := next stage.session
  set { stage with session := moved.value.1 }
  hear moved.records
  pure moved.value.2

/-- Tell the session what a callback came to. -/
def finish (outcome : Outcome) : Program Stage (Reply Part) := do
  match (← get).session.finish? outcome with
  | none => Program.exhausted
  | some moved => move fun _ => moved

/-- Make an object. -/
def make (typeName : String) : Program Stage Instance := do
  let stage ← get
  set { stage with made := stage.made + 1 }
  pure ⟨typeName, stage.made⟩

/-- The number of callbacks that one call may lead to. -/
def bound : Nat := 8

/-- Make a call, and run the callbacks that it leads to. -/
def ask (run : Role → Part → Program Stage Outcome) (c : FacadeCall Part) : Act Answer := do
  let reply ← move fun session => session.facade c
  ExceptT.mk (reply.settle run finish bound)

/-- Ask for an instance. -/
def askFor (run : Role → Part → Program Stage Outcome) (c : FacadeCall Part) : Act Handle := do
  match ← ask run c with
  | .handle handle => pure handle
  | _ => pure none

/-- What a callback does, when further callbacks can be run. -/
def Part.act (run : Role → Part → Program Stage Outcome) : Part → Act Handle
  | makeConnection => some <$> make "Connection"
  | makeService => do
      let self ← make "Service"
      modify fun stage => { stage with service := some self }
      let _ ← ask run (.registerPending "service" (some exposeService))
      let _ ← ask run (.getOrCreate "repository" (some makeRepository))
      pure (some self)
  | exposeService => do pure (← getThe Stage).service
  | makeRepository => do
      let self ← make "Repository"
      let _ ← ask run (.get "connection")
      let owner ← askFor run (.getEarly "service")
      modify fun stage => { stage with owner }
      pure (some self)
  | closeConnection => do
      say .info "connection closed"
      pure none
  | releaseRepository => do
      modify fun stage => { stage with owner := none }
      say .info "repository disposed"
      pure none
  | releaseService => do
      say .info "service disposed"
      pure none

/-- Run a callback; the bound is on the depth to which callbacks nest. -/
def run : Nat → Role → Part → Program Stage Outcome
  | 0, _, _ => Program.exhausted
  | depth + 1, _, part => do
      match ← (part.act (run depth)).run with
      | .ok handle => pure (.returned handle)
      | .error fault => pure (.threw fault)

/-- Fill the registry and look at what has come of it. -/
def populate : Act Status := do
  let ask := ask (run bound)
  let askFor := askFor (run bound)
  let connection ← askFor (.getOrCreate "connection" (some .makeConnection))
  let _ ← ask (.registerDisposal "connection" (some .closeConnection))
  let service ← askFor (.getOrCreate "service" (some .makeService))
  let _ ← ask (.addDependency "connection" "repository")
  let _ ← ask (.addDependency "repository" "service")
  let _ ← ask (.registerDisposal "repository" (some .releaseRepository))
  let _ ← ask (.registerDisposal "service" (some .releaseService))
  match ← ask (.registerAlias "service" "svc") with
  | .status status =>
      if !status.isSuccess then
        return status.forwardWith "alias registration failed"
  | _ => pure ()
  match ← ask (.registerFinalized "connection" connection) with
  | .status status =>
      if !status.isSuccess then
        return status.forward
  | _ => pure ()
  let count ← ask .count
  let resolved ← askFor (.get "svc")
  match count with
  | .count n =>
      say .info <| toString n ++ " instance(s) registered, service resolved through alias: "
        ++ toString (decide (resolved = service))
  | _ => pure ()
  say .info <| "repository sees service early reference: "
    ++ toString (decide ((← getThe Stage).owner = service))
  pure .ok

/-- The life of the registry. -/
def serve (settings : Settings) : Act Unit := do
  say .info <| "서비스 시작 (registry: " ++ settings.name ++ ")"
  let created := Registry.create settings.name settings.allowAliasOverriding {}
  modify fun stage => { stage with session := { registry := created.value } }
  hear created.records
  match ← ExceptT.lift populate.run with
  | .ok status => if !status.isSuccess then say .error status.text
  | .error fault =>
      match fault.cause.origin? with
      | some (code, _) =>
          say .error <| "registry error [" ++ code.name ++ "]: " ++ fault.cause.mention
      | none => throw fault
  let _ ← ask (run bound) .destroyAll
  say .info "서비스 종료"

/-- How the program ended: its exit code, or an error that nobody handled, the log afterwards, and
what it wrote. -/
structure Ending where
  result : Except DocumentError Nat
  hub : Hub
  deliveries : List Delivery := []
  warnings : List String := []

/-- The file that configures the program if no other is named. -/
def defaultPath : String := "registry.yaml"

/-- The file that an argument names.  An argument is a text that ends at its first NUL. -/
def configPath (argument : Option String) : String := argument.elim defaultPath Text.untilNul

/-- Run the program with the configuration in a file. -/
def runWith (files : Files) (hub : Hub) (path : String) : Option Ending := do
  let installed := (hub.installFrom files Hub.routerKind path).thenApply
  let hub := installed.hub
  let warnings := installed.warnings
  match installed.result with
  | .error e => some { result := .error e, hub, warnings }
  | .ok status =>
      if !status.isSuccess then
        some { result := .ok 1, hub
               warnings := warnings ++ ["logging init failed: " ++ status.text] }
      else
        match Settings.ofFile files path with
        | .error e => some { result := .error e, hub, warnings }
        | .ok { settings, status } =>
            if !status.isSuccess then
              let (deliveries, hub) :=
                hub.log ⟨tag, .error, "registry config error: " ++ status.text⟩
              some { result := .ok 1, hub := hub.shutdown, deliveries, warnings }
            else
              let (_, stage) ← (serve settings).run { hub }
              some { result := .ok 0, hub := stage.hub.shutdown
                     deliveries := stage.deliveries, warnings }

end Lifecycle.Demo
