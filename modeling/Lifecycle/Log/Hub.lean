import Lifecycle.Log.Plan
import Lifecycle.Status

/-!
# The hub

All parts of a program log through one hub.  It holds the router that is in use, if logging has
been initialized, the document that configures it, and the table of channels.  Without a router
every request to the hub does nothing.
-/

namespace Lifecycle.Log

/-- The log of a program. -/
structure Hub where
  router : Option Router := none
  config : Document := .null
  table : ChannelTable := ∅
  deriving Inhabited

/-- A request to the hub that came to an answer or to an error that nobody handled, and the
warnings written on the way. -/
structure HubReply where
  result : Except DocumentError Status
  hub : Hub
  warnings : List String := []

namespace Hub

/-- Send a record. -/
def log (h : Hub) (record : Record) : List Delivery × Hub :=
  match h.router with
  | none => ([], h)
  | some router =>
      let (deliveries, router, table) := router.log h.table record
      (deliveries, { h with router := some router, table })

/-- Send records, one after the other. -/
def logAll (h : Hub) : List Record → List Delivery × Hub
  | [] => ([], h)
  | record :: rest =>
      let (first, h) := h.log record
      let (later, h) := logAll h rest
      (first ++ later, h)

/-- Set the level of a tag. -/
def setLevel (h : Hub) (tag : Name) (level : Level) : Hub :=
  match h.router with
  | none => h
  | some router =>
      let (router, table) := router.setLevel h.table tag level
      { h with router := some router, table }

/-- Let a tag speak or silence it. -/
def setMuted (h : Hub) (tag : Name) (muted : Bool) : Hub :=
  { h with router := h.router.map fun router => router.setMuted tag muted }

/-- Stop logging. -/
def shutdown (h : Hub) : Hub :=
  match h.router with
  | none => h
  | some router => { h with router := none, table := (router.shutdown h.table).2 }

/-- Put a new router to use, in the place of the one in use, and keep the document that is to
configure it. -/
def start (h : Hub) (config : Document) : Hub :=
  { h.shutdown with router := some (Router.start {}), config }

/-- The number by which the only kind of router is asked for. -/
def routerKind : Int := 0

/-- Put logging to work with a document, which is kept for the configuration. -/
def install (h : Hub) (kind : Int) (config : Document) : HubReply :=
  if kind = routerKind then
    { result := .ok .ok, hub := h.start config }
  else
    { result := .ok (.saying .invalidArgument "unknown logger type"), hub := h }

/-- Put logging to work with the document in a file. -/
def installFrom (h : Hub) (files : Files) (kind : Int) (file : String) : HubReply :=
  match files.load file with
  | .ok config => h.install kind config
  | .error e =>
      { result := .ok <| .saying .invalidArgument <|
          "cannot load log config '" ++ file ++ "': " ++ e.message
        hub := h
        warnings := ["YAML load error: " ++ e.message] }

/-- Configure the router from the log section of the document. -/
def apply (h : Hub) : HubReply :=
  match h.router with
  | none => { result := .ok (.saying .invalidState "logger is not initialized"), hub := h }
  | some router =>
      match h.config.field? "log" with
      | .error e => { result := .error e, hub := h }
      | .ok none => { result := .ok .ok, hub := h }
      | .ok (some d) =>
          let plan := planLog d
          let (router, table) := plan.orders.foldl Order.carryOut (router, h.table)
          { result := .ok <|
              match plan.result with
              | .ok () => .ok
              | .error e => .saying .invalidArgument ("invalid log config: " ++ e.message)
            hub := { h with router := some router, table }
            warnings := plan.orders.filterMap Order.complaint? }

end Hub

/-- Configure the router, if initializing went well. -/
def HubReply.thenApply (reply : HubReply) : HubReply :=
  match reply.result with
  | .ok status =>
      if status.isSuccess then
        let applied := reply.hub.apply
        { applied with warnings := reply.warnings ++ applied.warnings }
      else
        reply
  | .error _ => reply

end Lifecycle.Log
