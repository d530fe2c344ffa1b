import Lifecycle.Document
import Lifecycle.Log.Router

/-!
# Log configurations

The log section of a document holds one section for each tag, with a `level` and a list of
`sinks`; the section `*` is for all tags and is read first.  Reading a section yields a plan: the
orders for the router in the order in which they are to be carried out.  When the document turns
out to be unreadable, the plan ends there with the error, and the orders up to that point stand.
-/

namespace Lifecycle.Log

/-- Something that a configuration asks for. -/
inductive Order where
  | setLevel (tag : Name) (level : Level)
  | addSink (tag : Name) (sink : Sink)
  | openChannel (tag : Name)
  /-- Complain about a kind of sink that does not exist. -/
  | complain (kind : String)
  deriving DecidableEq, Repr

/-- Orders, and the result of the reading that gave them or the error that ended it. -/
structure Plan (α : Type) where
  orders : List Order
  result : Except DocumentError α

namespace Plan

variable {α β : Type}

/-- Go on with a plan, unless it has ended. -/
protected def bind (plan : Plan α) (next : α → Plan β) : Plan β :=
  match plan.result with
  | .error e => ⟨plan.orders, .error e⟩
  | .ok a => ⟨plan.orders ++ (next a).orders, (next a).result⟩

instance : Monad Plan where
  pure a := ⟨[], .ok a⟩
  bind := Plan.bind

/-- Give an order. -/
def order (o : Order) : Plan Unit := ⟨[o], .ok ()⟩

/-- Read something. -/
def read (result : Except DocumentError α) : Plan α := ⟨[], result⟩

/-- Go through a list. -/
def forEach (items : List α) (act : α → Plan Unit) : Plan Unit :=
  match items with
  | [] => pure ()
  | item :: rest => do
      act item
      forEach rest act

end Plan

/-- The sink that a document describes for a tag, or the kind of sink that it wrongly asks for.
Of several fields of a rotating file that cannot be read, the one read first counts: first the
number of files, then the size, then the name. -/
def readSink (tag : Name) (item : Option Document) : Except DocumentError (Except String Sink) :=
  match item with
  | none => .error .fieldAsItem
  | some d => do
      let kind ← (← d.field "type").text
      if kind = "console" then
        pure (.ok .console)
      else if kind = "file" then
        pure (.ok (.file (← (← d.field "filename").text)))
      else if kind = "rotating_file" then
        let maxFiles ← (← d.field "max_files").size
        let maxSize ← (← d.field "max_size").size
        let name ← (← d.field "filename").text
        pure (.ok (.rotating name maxSize maxFiles))
      else if kind = "syslog" then
        match ← d.field? "ident" with
        | some ident => pure (.ok (.syslog (← ident.text)))
        | none => pure (.ok (.syslog tag))
      else
        pure (.error kind)

/-- Add the sinks that a section lists. -/
def planSinks (tag : Name) (d : Document) : Plan Unit := do
  match ← Plan.read (d.field? "sinks") with
  | none => pure ()
  | some sinks =>
      Plan.forEach sinks.items fun item => do
        match ← Plan.read (readSink tag item) with
        | .ok sink => Plan.order (.addSink tag sink)
        | .error kind => Plan.order (.complain kind)

/-- Set the level that a section gives. -/
def planLevel (tag : Name) (d : Document) : Plan Unit := do
  match ← Plan.read (d.field? "level") with
  | none => pure ()
  | some level => Plan.order (.setLevel tag (Level.ofName (← Plan.read level.text)))

/-- The section for all tags: its level, then its sinks. -/
def planGlobal (d : Document) : Plan Unit := do
  match ← Plan.read (d.field? globalTag) with
  | none => pure ()
  | some section_ => do
      planLevel globalTag section_
      planSinks globalTag section_

/-- The section of a tag: its sinks, its channel, then its level. -/
def planTag (entry : String × Document) : Plan Unit := do
  if entry.1 = globalTag then
    pure ()
  else
    planSinks entry.1 entry.2
    Plan.order (.openChannel entry.1)
    planLevel entry.1 entry.2

/-- The plan of a log section. -/
def planLog (d : Document) : Plan Unit := do
  planGlobal d
  Plan.forEach d.sections planTag

/-- Carry out an order. -/
def Order.carryOut (state : Router × ChannelTable) : Order → Router × ChannelTable
  | setLevel tag level => state.1.setLevel state.2 tag level
  | addSink tag sink => (state.1.addSink tag sink, state.2)
  | openChannel tag => (state.1.openChannel state.2 tag).2
  | complain _ => state

/-- The complaint of an order, if it is one. -/
def Order.complaint? : Order → Option String
  | complain kind => some ("Unknown sink type: " ++ kind)
  | _ => none

end Lifecycle.Log
