import Lifecycle.Log.Record

/-!
# Routing records to sinks

A router decides which sinks a record reaches.  Sinks and levels are set per tag; those set for
the tag `*` are for all tags.  A tag gets its channel when it is first needed: the channel takes
the sinks and the level that are set at that moment, and from then on only the level can be
changed.

Channels live in a table that all routers share.
-/

namespace Lifecycle.Log

/-- A place where records end up. -/
inductive Sink where
  | console
  | file (name : String)
  | rotating (name : String) (maxSize maxFiles : Nat)
  | syslog (ident : String)
  deriving DecidableEq, Repr, Inhabited

/-- The description of a sink. -/
def Sink.describe : Sink → String
  | console => "console"
  | file name => "file:" ++ name
  | rotating name maxSize maxFiles =>
      "rotating:" ++ name ++ ":" ++ toString maxSize ++ ":" ++ toString maxFiles
  | syslog ident => "syslog:" ++ ident

/-- Where the records of a tag go, and the least level that is let through. -/
structure Channel where
  sinks : List Sink
  level : Level
  deriving DecidableEq, Repr, Inhabited

/-- The open channels by tag. -/
abbrev ChannelTable := NameMap Channel

/-- A record that has reached a sink. -/
structure Delivery where
  sink : Sink
  record : Record
  deriving DecidableEq, Repr, Inhabited

/-- The deliveries of a record that is sent through a channel. -/
def Channel.deliver (channel : Channel) (record : Record) : List Delivery :=
  if record.level.passes channel.level then
    channel.sinks.map fun sink => ⟨sink, record⟩
  else
    []

/-- The tag that stands for all tags. -/
def globalTag : Name := "*"

/-- The routing of records. -/
structure Router where
  initialized : Bool := false
  closed : Bool := false
  muted : NameSet := ∅
  sinks : NameMap (List Sink) := ∅
  levels : NameMap Level := ∅
  globalLevel : Level := .info
  deriving DecidableEq, Inhabited

namespace Router

/-- The sinks set for a tag. -/
def sinksOf (r : Router) (tag : Name) : List Sink := (r.sinks.find? tag).getD []

/-- The channel that a tag would get now: its own sinks and those for all tags, or the console if
there are none. -/
def newChannel (r : Router) (tag : Name) : Channel :=
  let sinks := r.sinksOf tag ++ r.sinksOf globalTag
  { sinks := if sinks.isEmpty then [.console] else sinks
    level := (r.levels.find? tag).getD r.globalLevel }

/-- The channel of a tag, opened if it is not open yet. -/
def openChannel (r : Router) (table : ChannelTable) (tag : Name) :
    Channel × Router × ChannelTable :=
  match table.find? tag with
  | some channel => (channel, r, table)
  | none =>
      let channel := r.newChannel tag
      (channel, { r with sinks := r.sinks.insert tag (r.sinksOf tag) },
        table.insert tag channel)

/-- Send a record. -/
def log (r : Router) (table : ChannelTable) (record : Record) :
    List Delivery × Router × ChannelTable :=
  if r.closed || r.muted.contains record.tag then
    ([], r, table)
  else
    let (channel, r, table) := r.openChannel table record.tag
    (channel.deliver record, r, table)

/-- Get ready for work. -/
def start (r : Router) : Router := { r with initialized := true, closed := false }

/-- Stop working, and close the channels of the tags that have sinks or had a channel opened by
this router. -/
def shutdown (r : Router) (table : ChannelTable) : Router × ChannelTable :=
  if r.initialized && !r.closed then
    ({ r with closed := true }, table.filter fun tag _ => !r.sinks.contains tag)
  else
    (r, table)

/-- Set the level of a tag, also on its open channel; the level for all tags only counts for
channels that are opened later. -/
def setLevel (r : Router) (table : ChannelTable) (tag : Name) (level : Level) :
    Router × ChannelTable :=
  if tag = globalTag then
    ({ r with globalLevel := level }, table)
  else
    ({ r with levels := r.levels.insert tag level },
      match table.find? tag with
      | some channel => table.insert tag { channel with level }
      | none => table)

/-- Add a sink for the channels of a tag that are opened later. -/
def addSink (r : Router) (tag : Name) (sink : Sink) : Router :=
  { r with sinks := r.sinks.insert tag (r.sinksOf tag ++ [sink]) }

/-- Let a tag speak or silence it. -/
def setMuted (r : Router) (tag : Name) (muted : Bool) : Router :=
  { r with muted := if muted then r.muted.add tag else r.muted.erase tag }

end Router

end Lifecycle.Log
