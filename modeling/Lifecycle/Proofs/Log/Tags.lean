import Lifecycle.Log.Router

/-!
# The log as one tag sees it

A router serves many tags, and the records of a tag are concerned with little of it: the channel of
the tag, the sinks and the levels that are set for the tag and for all tags, and whether anything is
let through at all.  That is the `TagState` of the tag.  What an operation of the router does to the
state of a tag depends on that state alone (`stateOf_openChannel`, `stateOf_setLevel` and so on), and
what becomes of a record can be read off it (`deliveries_log`).
-/

namespace Lifecycle.Log

/-- What a router and the table of channels hold for one tag. -/
structure TagState where
  channel : Option Channel
  sinks : List Sink
  sharedSinks : List Sink
  level : Option Level
  sharedLevel : Level
  muted : Bool
  closed : Bool
  deriving DecidableEq

/-- The state of a tag. -/
def stateOf (routing : Router × ChannelTable) (tag : Name) : TagState where
  channel := routing.2.find? tag
  sinks := routing.1.sinksOf tag
  sharedSinks := routing.1.sinksOf globalTag
  level := routing.1.levels.find? tag
  sharedLevel := routing.1.globalLevel
  muted := routing.1.muted.contains tag
  closed := routing.1.closed

/-- A channel with another level, if one is given. -/
def Channel.withLevel (channel : Channel) (level : Option Level) : Channel :=
  { channel with level := level.getD channel.level }

@[simp]
theorem Channel.withLevel_none (channel : Channel) : channel.withLevel none = channel :=
  rfl

theorem Channel.withLevel_withLevel (channel : Channel) (first second : Option Level) :
    (channel.withLevel first).withLevel second = channel.withLevel (second.or first) := by
  cases second <;> rfl

namespace TagState

/-- The channel that the tag would get now. -/
def fresh (s : TagState) : Channel :=
  let sinks := s.sinks ++ s.sharedSinks
  { sinks := if sinks.isEmpty then [.console] else sinks
    level := s.level.getD s.sharedLevel }

/-- The channel that the next record of the tag goes through. -/
def next (s : TagState) : Channel := s.channel.getD s.fresh

/-- Whether the records of the tag are dropped. -/
def silent (s : TagState) : Bool := s.closed || s.muted

/-- The tag has got its channel. -/
def opened (s : TagState) : TagState := { s with channel := some s.next }

/-- The tag has got a level of its own. -/
def leveled (s : TagState) (level : Level) : TagState :=
  { s with level := some level, channel := s.channel.map (·.withLevel (some level)) }

@[simp]
theorem next_opened (s : TagState) : s.opened.next = s.next :=
  rfl

theorem opened_eq_self {s : TagState} (open_ : s.channel.isSome = true) : s.opened = s := by
  obtain ⟨channel, held⟩ := Option.isSome_iff_exists.mp open_
  cases s
  simp_all [opened, next]

theorem next_leveled (s : TagState) (level : Level) :
    (s.leveled level).next = s.next.withLevel (some level) := by
  obtain ⟨_ | channel, _⟩ := s <;> rfl

/-- A channel that is opened has a sink. -/
theorem sinks_fresh_ne_nil (s : TagState) : s.fresh.sinks ≠ [] := by
  simp only [fresh]
  split
  · simp
  · rename_i some_
    simpa using some_

end TagState

/-! ## The operations of a router -/

variable {routing : Router × ChannelTable} {tag tag' : Name}

theorem sinksOf_addSink (r : Router) (tag tag' : Name) (sink : Sink) :
    (r.addSink tag' sink).sinksOf tag = r.sinksOf tag ++ if tag = tag' then [sink] else [] := by
  simp only [Router.addSink, Router.sinksOf, NameMap.find?_insert]
  split
  · rename_i same
    simp [same]
  · simp

theorem next_stateOf (routing : Router × ChannelTable) (tag : Name) :
    (stateOf routing tag).next = (routing.1.openChannel routing.2 tag).1 := by
  simp only [TagState.next, stateOf, Router.openChannel]
  cases routing.2.find? tag <;> rfl

/-- A channel that is opened for a tag changes nothing for the others. -/
theorem stateOf_openChannel (routing : Router × ChannelTable) (tag tag' : Name) :
    stateOf (routing.1.openChannel routing.2 tag').2 tag =
      if tag = tag' then (stateOf routing tag).opened else stateOf routing tag := by
  cases held : routing.2.find? tag' with
  | some channel =>
      simp only [Router.openChannel, held]
      split
      · rename_i same
        subst same
        exact (TagState.opened_eq_self (by simp [stateOf, held])).symm
      · rfl
  | none =>
      -- The tag is entered in the map of sinks, with the sinks that it has.
      have sinks (k : Name) :
          Router.sinksOf { routing.1 with
            sinks := routing.1.sinks.insert tag' (routing.1.sinksOf tag') } k =
            routing.1.sinksOf k := by
        simp only [Router.sinksOf, NameMap.find?_insert]
        split
        · rename_i same
          simp [same]
        · rfl
      simp only [Router.openChannel, held, stateOf, sinks, NameMap.find?_insert]
      split
      · rename_i same
        subst same
        simp [TagState.opened, TagState.next, TagState.fresh, Router.newChannel, held]
      · rfl

theorem stateOf_addSink (routing : Router × ChannelTable) (tag' : Name) (sink : Sink) :
    stateOf (routing.1.addSink tag' sink, routing.2) tag =
      { stateOf routing tag with
        sinks := routing.1.sinksOf tag ++ if tag = tag' then [sink] else []
        sharedSinks := routing.1.sinksOf globalTag ++ if globalTag = tag' then [sink] else [] } := by
  simp only [stateOf, sinksOf_addSink]
  rfl

theorem stateOf_setMuted (routing : Router × ChannelTable) (tag' : Name) (muted : Bool) :
    stateOf (routing.1.setMuted tag' muted, routing.2) tag =
      if tag = tag' then { stateOf routing tag with muted } else stateOf routing tag := by
  have contains : (routing.1.setMuted tag' muted).muted.contains tag =
      if tag = tag' then muted else routing.1.muted.contains tag := by
    cases muted with
    | true =>
        simp only [Router.setMuted, if_true, NameMap.contains, NameSet.add, NameMap.find?_insert]
        split <;> rfl
    | false =>
        simp only [Router.setMuted, Bool.false_eq_true, if_false, NameMap.contains,
          NameMap.find?_erase]
        split <;> rfl
  simp only [stateOf, contains]
  split <;> rfl

/-- A level counts for the tag that it is set for, and the one for all tags as long as the tag has
neither a level nor a channel of its own. -/
theorem stateOf_setLevel (routing : Router × ChannelTable) (tag' : Name) (level : Level) :
    stateOf (routing.1.setLevel routing.2 tag' level) tag =
      if tag' = globalTag then { stateOf routing tag with sharedLevel := level }
      else if tag = tag' then (stateOf routing tag).leveled level
      else stateOf routing tag := by
  simp only [Router.setLevel]
  by_cases shared : tag' = globalTag
  · rw [if_pos shared, if_pos shared]
    rfl
  · rw [if_neg shared, if_neg shared]
    by_cases same : tag = tag'
    · subst same
      cases held : routing.2.find? tag <;>
        simp [stateOf, held, TagState.leveled, Channel.withLevel, Router.sinksOf]
    · cases held : routing.2.find? tag' <;>
        simp [stateOf, same, Router.sinksOf, NameMap.find?_insert]

/-- What becomes of a record: it is dropped, or it goes through the channel of its tag. -/
theorem deliveries_log (routing : Router × ChannelTable) (record : Record) :
    (routing.1.log routing.2 record).1 =
      if (stateOf routing record.tag).silent then []
      else (stateOf routing record.tag).next.deliver record := by
  simp only [Router.log, next_stateOf]
  change (if (stateOf routing record.tag).silent = true then _ else _ :
    List Delivery × Router × ChannelTable).1 = _
  split <;> rfl

/-- A record that is not dropped makes its tag get a channel. -/
theorem stateOf_log (routing : Router × ChannelTable) (record : Record) (tag : Name) :
    stateOf (routing.1.log routing.2 record).2 tag =
      if tag = record.tag ∧ (stateOf routing tag).silent = false then (stateOf routing tag).opened
      else stateOf routing tag := by
  simp only [Router.log]
  change stateOf (if (stateOf routing record.tag).silent = true then _ else _ :
    List Delivery × Router × ChannelTable).2 tag = _
  split
  · rename_i silent
    rw [if_neg]
    rintro ⟨rfl, speaks⟩
    simp [silent] at speaks
  · rename_i speaks
    rw [stateOf_openChannel]
    by_cases same : tag = record.tag
    · subst same
      simp [speaks]
    · simp [same]

end Lifecycle.Log
