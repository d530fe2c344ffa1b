import Lifecycle.Proofs.Log.Tags

/-!
# When a tag gets its channel

A tag gets its channel with its first record that is not dropped.  What is set for the tag and for
all tags before that shapes the channel; afterwards the channel keeps its sinks, and its level only
follows what is set for the tag itself (`channelOf_afterCommands`).  So what a record reaches does
depend on which records were sent before it: the settings that are made after the first one are
looked at only in part (`same_deliveries_iff`, `late_settings_missed`).
-/

namespace Lifecycle.Log

/-- Something that is asked of a router at work. -/
inductive Command where
  | setLevel (tag : Name) (level : Level)
  | addSink (tag : Name) (sink : Sink)
  | setMuted (tag : Name) (muted : Bool)
  | log (record : Record)
  deriving DecidableEq, Repr

namespace Command

/-- Carry out a command. -/
def carryOut (routing : Router × ChannelTable) : Command → Router × ChannelTable
  | setLevel tag level => routing.1.setLevel routing.2 tag level
  | addSink tag sink => (routing.1.addSink tag sink, routing.2)
  | setMuted tag muted => (routing.1.setMuted tag muted, routing.2)
  | log record => (routing.1.log routing.2 record).2

/-- Whether a command sets something. -/
def isSetting : Command → Bool
  | log _ => false
  | _ => true

/-- The level that a command sets for a tag. -/
def levelFor? (tag : Name) : Command → Option Level
  | setLevel tag' level => if tag = tag' then some level else none
  | _ => none

/-- Whether a command silences a tag or lets it speak, if it does either. -/
def mutedFor? (tag : Name) : Command → Option Bool
  | setMuted tag' muted => if tag = tag' then some muted else none
  | _ => none

/-- Whether a command leaves alone what is set for all tags, and all sinks. -/
def Spares : Command → Prop
  | setLevel tag _ => tag ≠ globalTag
  | addSink _ _ => False
  | setMuted _ _ | log _ => True

end Command

/-- The router and the channels after commands. -/
def afterCommands (routing : Router × ChannelTable) (commands : List Command) :
    Router × ChannelTable :=
  commands.foldl Command.carryOut routing

/-- The commands before the one that makes a tag get its channel; all of them if none does. -/
def untilOpened (tag : Name) (routing : Router × ChannelTable) : List Command → List Command
  | [] => []
  | command :: rest =>
      if tag ∈ (command.carryOut routing).2 then
        []
      else
        command :: untilOpened tag (command.carryOut routing) rest

/-- The last of the values that commands set. -/
def latest {α : Type} (set? : Command → Option α) (commands : List Command) : Option α :=
  (commands.filterMap set?).getLast?

/-- The last level that commands set for a tag. -/
def latestLevel (tag : Name) (commands : List Command) : Option Level :=
  latest (Command.levelFor? tag) commands

/-- The channel that the next record of a tag goes through: the one that the tag has, or else the
one that it gets now. -/
def channelOf (routing : Router × ChannelTable) (tag : Name) : Channel :=
  (routing.1.openChannel routing.2 tag).1

/-- What a record reaches that is sent now. -/
def delivered (routing : Router × ChannelTable) (record : Record) : List Delivery :=
  (routing.1.log routing.2 record).1

section

variable {routing : Router × ChannelTable} {tag : Name} {command : Command}
  {commands commands' rest : List Command}

theorem latest_cons {α : Type} (set? : Command → Option α) (command : Command)
    (rest : List Command) :
    latest set? (command :: rest) = (latest set? rest).or (set? command) := by
  rw [latest, List.filterMap_cons]
  cases set? command with
  | none => exact (Option.or_none).symm
  | some value =>
      rw [List.getLast?_cons, ← latest]
      cases latest set? rest <;> rfl

theorem latestLevel_cons (tag : Name) (command : Command) (rest : List Command) :
    latestLevel tag (command :: rest) = (latestLevel tag rest).or (command.levelFor? tag) :=
  latest_cons _ command rest

theorem latestLevel_eq_none_iff :
    latestLevel tag commands = none ↔ ∀ level, .setLevel tag level ∉ commands := by
  rw [latestLevel, latest, List.getLast?_eq_none_iff, List.filterMap_eq_nil_iff]
  constructor
  · intro unset level member
    simpa [Command.levelFor?] using unset _ member
  · intro unset command member
    cases command with
    | setLevel tag' level =>
        rw [Command.levelFor?, if_neg]
        rintro rfl
        exact unset level member
    | addSink | setMuted | log => rfl

/-- Records set no level. -/
theorem latestLevel_filter (tag : Name) (commands : List Command) :
    latestLevel tag (commands.filter Command.isSetting) = latestLevel tag commands := by
  rw [latestLevel, latest, List.filterMap_filter, latestLevel, latest]
  congr 2
  funext command
  cases command <;> rfl

theorem untilOpened_subset (tag : Name) (routing : Router × ChannelTable)
    (commands : List Command) : untilOpened tag routing commands ⊆ commands := by
  induction commands generalizing routing with
  | nil => exact List.Subset.refl _
  | cons command rest ih =>
      rw [untilOpened]
      split
      · exact List.nil_subset _
      · exact List.cons_subset_cons command (ih _)

theorem channelOf_eq_next (routing : Router × ChannelTable) (tag : Name) :
    channelOf routing tag = (stateOf routing tag).next :=
  (next_stateOf routing tag).symm

theorem isSome_channel_iff : (stateOf routing tag).channel.isSome = true ↔ tag ∈ routing.2 :=
  Iff.rfl

end

/-! ## What a command makes of the state of a tag -/

namespace TagState

/-- The state of a tag after a command. -/
def follow (tag : Name) (s : TagState) : Command → TagState
  | .setLevel tag' level =>
      if tag' = globalTag then { s with sharedLevel := level }
      else if tag = tag' then s.leveled level
      else s
  | .addSink tag' sink =>
      { s with
        sinks := s.sinks ++ if tag = tag' then [sink] else []
        sharedSinks := s.sharedSinks ++ if globalTag = tag' then [sink] else [] }
  | .setMuted tag' muted => if tag = tag' then { s with muted } else s
  | .log record => if tag = record.tag ∧ s.silent = false then s.opened else s

/-- All that is set for a tag. -/
def settings (s : TagState) : TagState := { s with channel := none }

variable {s : TagState} {tag : Name} {command : Command} {commands : List Command}

/-- What is set for a tag after a command depends on what was set before it. -/
theorem settings_follow (tag : Name) (s : TagState) (command : Command) :
    (s.follow tag command).settings =
      if command.isSetting then (s.settings.follow tag command).settings else s.settings := by
  cases command with
  | setLevel tag' level =>
      simp only [follow, Command.isSetting, if_true]
      split
      · rfl
      · split <;> rfl
  | addSink tag' sink => rfl
  | setMuted tag' muted =>
      simp only [follow, Command.isSetting, if_true]
      split <;> rfl
  | log record =>
      simp only [follow, Command.isSetting]
      split <;> rfl

/-- What is set for a tag in the end does not depend on the records in between. -/
theorem settings_foldl_filter (tag : Name) (commands : List Command) {s s' : TagState}
    (same : s.settings = s'.settings) :
    (commands.foldl (follow tag) s).settings =
      ((commands.filter Command.isSetting).foldl (follow tag) s').settings := by
  induction commands generalizing s s' with
  | nil => exact same
  | cons command rest ih =>
      cases sets : command.isSetting with
      | true =>
          rw [List.filter_cons_of_pos sets, List.foldl_cons, List.foldl_cons]
          apply ih
          rw [settings_follow tag s, settings_follow tag s', if_pos sets, if_pos sets, same]
      | false =>
          rw [List.filter_cons_of_neg (by simp [sets]), List.foldl_cons]
          apply ih
          rw [settings_follow, sets, if_neg Bool.false_ne_true, same]

theorem isSome_channel_follow (open_ : s.channel.isSome = true) (command : Command) :
    (s.follow tag command).channel.isSome = true := by
  cases command with
  | setLevel tag' level =>
      simp only [follow]
      split
      · exact open_
      · split
        · simpa [leveled] using open_
        · exact open_
  | addSink tag' sink => exact open_
  | setMuted tag' muted =>
      simp only [follow]
      split <;> exact open_
  | log record =>
      simp only [follow]
      split
      · rfl
      · exact open_

/-- Once a tag has its channel, or as long as commands leave alone what is set for all tags and all
sinks, its records go through the same channel, with the level that is set for the tag. -/
theorem next_follow (ordinary : tag ≠ globalTag)
    (kept : (s.follow tag command).channel.isSome = true ∨ command.Spares) :
    (s.follow tag command).next = s.next.withLevel (command.levelFor? tag) := by
  cases command with
  | setLevel tag' level =>
      by_cases shared : tag' = globalTag
      · have open_ : s.channel.isSome = true := by
          rcases kept with open_ | spares
          · simpa [follow, shared] using open_
          · exact absurd shared spares
        obtain ⟨channel, held⟩ := Option.isSome_iff_exists.mp open_
        simp [follow, shared, Command.levelFor?, ordinary, next, held]
      · by_cases same : tag = tag'
        · subst same
          simpa [follow, ordinary, Command.levelFor?] using s.next_leveled level
        · simp [follow, shared, same, Command.levelFor?]
  | addSink tag' sink =>
      have open_ : s.channel.isSome = true := by
        rcases kept with open_ | spares
        · exact open_
        · exact absurd spares id
      obtain ⟨channel, held⟩ := Option.isSome_iff_exists.mp open_
      simp [follow, Command.levelFor?, next, held]
  | setMuted tag' muted =>
      simp only [follow, Command.levelFor?, Channel.withLevel_none]
      split <;> rfl
  | log record =>
      simp only [follow, Command.levelFor?, Channel.withLevel_none]
      split
      · exact s.next_opened
      · rfl

theorem next_foldl (ordinary : tag ≠ globalTag)
    (kept : s.channel.isSome = true ∨ ∀ command ∈ commands, command.Spares) :
    (commands.foldl (follow tag) s).next = s.next.withLevel (latestLevel tag commands) := by
  induction commands generalizing s with
  | nil => rfl
  | cons command rest ih =>
      have now : (s.follow tag command).channel.isSome = true ∨ command.Spares :=
        kept.imp (fun open_ => isSome_channel_follow open_ command)
          fun spares => spares command List.mem_cons_self
      have later : (s.follow tag command).channel.isSome = true ∨
          ∀ command ∈ rest, command.Spares :=
        kept.imp (fun open_ => isSome_channel_follow open_ command)
          fun spares c member => spares c (List.mem_cons_of_mem _ member)
      rw [List.foldl_cons, ih later, next_follow ordinary now, Channel.withLevel_withLevel,
        latestLevel_cons]

/-- The level that is set for a tag stays until another one is set for it. -/
theorem level_foldl (ordinary : tag ≠ globalTag) (s : TagState) (commands : List Command) :
    (commands.foldl (follow tag) s).level = (latestLevel tag commands).or s.level := by
  induction commands generalizing s with
  | nil => rfl
  | cons command rest ih =>
      have now : (s.follow tag command).level = (command.levelFor? tag).or s.level := by
        cases command with
        | setLevel tag' level =>
            by_cases shared : tag' = globalTag
            · simp [follow, shared, Command.levelFor?, ordinary]
            · by_cases same : tag = tag' <;>
                simp [follow, shared, same, Command.levelFor?, leveled]
        | addSink tag' sink => rfl
        | setMuted tag' muted =>
            simp only [follow]
            split <;> rfl
        | log record =>
            simp only [follow]
            split <;> rfl
      rw [List.foldl_cons, ih, now, latestLevel_cons, Option.or_assoc]

/-- A tag is silenced or let speak by the last command about it. -/
theorem muted_foldl (s : TagState) (commands : List Command) :
    (commands.foldl (follow tag) s).muted =
      (latest (Command.mutedFor? tag) commands).getD s.muted := by
  induction commands generalizing s with
  | nil => rfl
  | cons command rest ih =>
      have now : (s.follow tag command).muted = (command.mutedFor? tag).getD s.muted := by
        cases command with
        | setLevel tag' level =>
            simp only [follow]
            split
            · rfl
            · split <;> rfl
        | addSink tag' sink => rfl
        | setMuted tag' muted =>
            simp only [follow, Command.mutedFor?]
            split <;> rfl
        | log record =>
            simp only [follow]
            split <;> rfl
      rw [List.foldl_cons, ih, now, latest_cons]
      cases latest (Command.mutedFor? tag) rest <;> rfl

theorem closed_foldl (s : TagState) (commands : List Command) :
    (commands.foldl (follow tag) s).closed = s.closed := by
  induction commands generalizing s with
  | nil => rfl
  | cons command rest ih =>
      rw [List.foldl_cons, ih]
      cases command with
      | setLevel tag' level =>
          simp only [follow]
          split
          · rfl
          · split <;> rfl
      | addSink tag' sink => rfl
      | setMuted tag' muted | log record =>
          simp only [follow]
          split <;> rfl

end TagState

variable {routing : Router × ChannelTable} {tag : Name} {commands commands' : List Command}

theorem stateOf_carryOut (routing : Router × ChannelTable) (tag : Name) (command : Command) :
    stateOf (command.carryOut routing) tag = (stateOf routing tag).follow tag command := by
  cases command with
  | setLevel tag' level => exact stateOf_setLevel routing tag' level
  | addSink tag' sink => exact stateOf_addSink routing tag' sink
  | setMuted tag' muted => exact stateOf_setMuted routing tag' muted
  | log record => exact stateOf_log routing record tag

theorem stateOf_afterCommands (routing : Router × ChannelTable) (tag : Name)
    (commands : List Command) :
    stateOf (afterCommands routing commands) tag =
      commands.foldl (TagState.follow tag) (stateOf routing tag) := by
  induction commands generalizing routing with
  | nil => rfl
  | cons command rest ih =>
      rw [afterCommands, List.foldl_cons, ← afterCommands, ih, stateOf_carryOut, List.foldl_cons]

/-! ## Channels -/

theorem untilOpened_of_mem (present : tag ∈ routing.2) (commands : List Command) :
    untilOpened tag routing commands = [] := by
  cases commands with
  | nil => rfl
  | cons command rest =>
      rw [untilOpened, if_pos]
      rw [← isSome_channel_iff, stateOf_carryOut]
      exact TagState.isSome_channel_follow present command

/-- A tag that has no channel has none either when the commands before the one that opens it have
been carried out. -/
theorem not_mem_afterCommands_untilOpened (absent : tag ∉ routing.2) (commands : List Command) :
    tag ∉ (afterCommands routing (untilOpened tag routing commands)).2 := by
  induction commands generalizing routing with
  | nil => exact absent
  | cons command rest ih =>
      rw [untilOpened]
      split
      · exact absent
      · rename_i closed
        exact ih closed

/-- The records of a tag go through the channel that it got, with the last level that was set for
the tag. -/
theorem channelOf_afterCommands (ordinary : tag ≠ globalTag) (routing : Router × ChannelTable)
    (commands : List Command) :
    channelOf (afterCommands routing commands) tag =
      (channelOf (afterCommands routing (untilOpened tag routing commands)) tag).withLevel
        (latestLevel tag commands) := by
  induction commands generalizing routing with
  | nil => rfl
  | cons command rest ih =>
      rw [untilOpened]
      split
      · rename_i opens
        have open_ : ((stateOf routing tag).follow tag command).channel.isSome = true := by
          rw [← stateOf_carryOut]
          exact opens
        rw [channelOf_eq_next, stateOf_afterCommands, List.foldl_cons,
          TagState.next_foldl ordinary (.inl open_), TagState.next_follow ordinary (.inl open_),
          Channel.withLevel_withLevel, latestLevel_cons, channelOf_eq_next]
        rfl
      · rename_i closed
        have onward := ih (command.carryOut routing)
        rw [latestLevel_cons]
        cases latest : latestLevel tag rest with
        | some level =>
            rw [latest] at onward
            exact onward
        | none =>
            rw [latest] at onward
            rw [Option.none_or]
            cases own : command.levelFor? tag with
            | none => exact onward
            | some level =>
                -- The tag has this level of its own when it gets its channel.
                let opened := untilOpened tag (command.carryOut routing) rest
                have unset : latestLevel tag opened = none := by
                  rw [latestLevel_eq_none_iff] at latest ⊢
                  exact fun level member => latest level
                    (untilOpened_subset tag (command.carryOut routing) rest member)
                have leveled :
                    (stateOf (afterCommands routing (command :: opened)) tag).level =
                      some level := by
                  rw [stateOf_afterCommands, TagState.level_foldl ordinary, latestLevel_cons, unset,
                    own]
                  rfl
                have unopened :
                    (stateOf (afterCommands routing (command :: opened)) tag).channel = none := by
                  exact Option.not_isSome_iff_eq_none.mp
                    (not_mem_afterCommands_untilOpened closed rest)
                have level_eq :
                    (channelOf (afterCommands routing (command :: opened)) tag).level = level := by
                  rw [channelOf_eq_next, TagState.next, unopened, Option.getD_none, TagState.fresh,
                    leveled, Option.getD_some]
                rw [Channel.withLevel, Option.getD_some, ← level_eq]
                exact onward

/-- Two channels with sinks let the same records through to the same sinks exactly if they are the
same. -/
theorem Channel.deliver_eq_iff {channel channel' : Channel} (some_ : channel.sinks ≠ [])
    (some_' : channel'.sinks ≠ []) (tag : Name) :
    (∀ level message, channel.deliver ⟨tag, level, message⟩ =
      channel'.deliver ⟨tag, level, message⟩) ↔ channel = channel' := by
  have spoken (channel : Channel) (some_ : channel.sinks ≠ []) (level : Level) :
      channel.deliver ⟨tag, level, ""⟩ = [] ↔ level.rank < channel.level.rank := by
    simp [deliver, Level.passes, some_]
  constructor
  · intro alike
    have all (channel : Channel) : channel.deliver ⟨tag, .off, ""⟩ =
        channel.sinks.map fun sink => ⟨sink, ⟨tag, .off, ""⟩⟩ := by
      have passes : Level.off.passes channel.level = true := by cases channel.level <;> rfl
      rw [deliver, if_pos passes]
    have sinks : channel.sinks = channel'.sinks := by
      have mapped := alike .off ""
      rw [all, all] at mapped
      exact (List.map_inj_right fun sink sink' same => congrArg Delivery.sink same).mp mapped
    have rank : channel.level.rank = channel'.level.rank := by
      apply Nat.le_antisymm
      · rw [← Nat.not_lt, ← spoken channel some_, alike, spoken channel' some_']
        exact Nat.lt_irrefl _
      · rw [← Nat.not_lt, ← spoken channel' some_', ← alike, spoken channel some_]
        exact Nat.lt_irrefl _
    have level : channel.level = channel'.level := by
      revert rank
      cases channel.level <;> cases channel'.level <;> simp [Level.rank]
    cases channel
    cases channel'
    simp_all
  · rintro rfl _ _
    rfl

theorem sinks_channelOf_ne_nil (absent : tag ∉ routing.2) : (channelOf routing tag).sinks ≠ [] := by
  have closed : (stateOf routing tag).channel = none := Option.not_isSome_iff_eq_none.mp absent
  rw [channelOf_eq_next, TagState.next, closed]
  exact TagState.sinks_fresh_ne_nil _

/-! ## What a record reaches -/

/-- A record reaches the sinks of the channel that its tag got, if it passes the last level that was
set for the tag, or else the level that the channel was opened with. -/
theorem delivered_afterCommands (ordinary : tag ≠ globalTag) (routing : Router × ChannelTable)
    (commands : List Command) (level : Level) (message : String) :
    delivered (afterCommands routing commands) ⟨tag, level, message⟩ =
      if (afterCommands routing commands).1.closed ||
          (afterCommands routing commands).1.muted.contains tag then
        []
      else
        ((channelOf (afterCommands routing (untilOpened tag routing commands)) tag).withLevel
          (latestLevel tag commands)).deliver ⟨tag, level, message⟩ := by
  rw [delivered, deliveries_log, ← channelOf_eq_next, channelOf_afterCommands ordinary]
  rfl

/-- Whether the records of a tag are dropped does not depend on which records were sent before. -/
theorem silent_afterCommands
    (same : commands.filter Command.isSetting = commands'.filter Command.isSetting) :
    ((afterCommands routing commands).1.closed ||
        (afterCommands routing commands).1.muted.contains tag) =
      ((afterCommands routing commands').1.closed ||
        (afterCommands routing commands').1.muted.contains tag) := by
  have settings : (stateOf (afterCommands routing commands) tag).settings =
      (stateOf (afterCommands routing commands') tag).settings := by
    rw [stateOf_afterCommands, stateOf_afterCommands,
      TagState.settings_foldl_filter tag commands rfl, same,
      ← TagState.settings_foldl_filter tag commands' rfl]
  exact congrArg TagState.silent settings

/-- Two runs with the same settings in the same order, between which only the records differ, let
the next records of a tag through to the same sinks exactly if the tag is silent, or got its channel
at moments that gave it the same sinks and, if no level is set for the tag itself, the same level. -/
theorem same_deliveries_iff (ordinary : tag ≠ globalTag) (routing : Router × ChannelTable)
    (same : commands.filter Command.isSetting = commands'.filter Command.isSetting) :
    (∀ run level message, delivered (afterCommands routing run) ⟨tag, level, message⟩ =
      if (afterCommands routing run).1.closed || (afterCommands routing run).1.muted.contains tag then
        []
      else
        ((channelOf (afterCommands routing (untilOpened tag routing run)) tag).withLevel
          (latestLevel tag run)).deliver ⟨tag, level, message⟩) ∧
    let opening := channelOf (afterCommands routing (untilOpened tag routing commands)) tag
    let opening' := channelOf (afterCommands routing (untilOpened tag routing commands')) tag
    ((∀ level message, delivered (afterCommands routing commands) ⟨tag, level, message⟩ =
        delivered (afterCommands routing commands') ⟨tag, level, message⟩) ↔
      (afterCommands routing commands).1.closed = true ∨
      (afterCommands routing commands).1.muted.contains tag = true ∨
      opening.sinks = opening'.sinks ∧
        ((∃ level, .setLevel tag level ∈ commands) ∨ opening.level = opening'.level)) := by
  refine ⟨delivered_afterCommands ordinary routing, ?_⟩
  intro opening opening'
  have latest : latestLevel tag commands' = latestLevel tag commands := by
    rw [← latestLevel_filter, ← same, latestLevel_filter]
  have leveled : (∃ level, .setLevel tag level ∈ commands) ↔ latestLevel tag commands ≠ none := by
    simp [latestLevel_eq_none_iff]
  simp only [delivered_afterCommands ordinary, ← silent_afterCommands same, latest]
  cases silent : (afterCommands routing commands).1.closed ||
      (afterCommands routing commands).1.muted.contains tag with
  | true =>
      simp only [if_true, implies_true, true_iff]
      rcases Bool.or_eq_true_iff.mp silent with closed | muted
      · exact .inl closed
      · exact .inr (.inl muted)
  | false =>
      obtain ⟨working, speaks⟩ := Bool.or_eq_false_iff.mp silent
      simp only [Bool.false_eq_true, if_false, working, speaks, false_or, leveled]
      by_cases present : tag ∈ routing.2
      · simp [opening, opening', untilOpened_of_mem present]
      · have some_ : (opening.withLevel (latestLevel tag commands)).sinks ≠ [] :=
          sinks_channelOf_ne_nil (not_mem_afterCommands_untilOpened present commands)
        have some_' : (opening'.withLevel (latestLevel tag commands)).sinks ≠ [] :=
          sinks_channelOf_ne_nil (not_mem_afterCommands_untilOpened present commands')
        refine (Channel.deliver_eq_iff some_ some_' tag).trans ?_
        rw [Channel.withLevel, Channel.withLevel, Channel.mk.injEq]
        cases latestLevel tag commands <;> simp

/-- The sink and the level of the tag are set before its first record in both runs. -/
theorem settings_in_time :
    let fresh : Router × ChannelTable := (Router.start {}, ∅)
    let commands : List Command := [.addSink globalTag (.file "all"), .log ⟨"Pool", .info, "one"⟩,
      .log ⟨"Cache", .info, "two"⟩, .setLevel "Pool" .debug]
    let commands' : List Command := [.log ⟨"Cache", .info, "two"⟩,
      .addSink globalTag (.file "all"), .setLevel "Pool" .debug]
    "Pool" ≠ globalTag ∧
      commands.filter Command.isSetting = commands'.filter Command.isSetting ∧
      ∀ level message, delivered (afterCommands fresh commands) ⟨"Pool", level, message⟩ =
        delivered (afterCommands fresh commands') ⟨"Pool", level, message⟩ := by
  refine ⟨by decide, rfl, ?_⟩
  exact (same_deliveries_iff (by decide) _ rfl).2.mpr
    (.inr (.inr ⟨rfl, .inl ⟨.debug, by decide⟩⟩))

/-- A record that was sent before a sink or a level was set for all tags, or a sink for its own tag,
keeps the next records of the tag from it. -/
theorem late_settings_missed :
    let fresh : Router × ChannelTable := (Router.start {}, ∅)
    let first : Record := ⟨"Pool", .info, "one"⟩
    let second : Record := ⟨"Pool", .info, "two"⟩
    (∀ setting ∈ [.addSink globalTag (.file "all"), .addSink "Pool" (.file "all")],
      delivered (afterCommands fresh [setting]) second = [⟨.file "all", second⟩] ∧
      delivered (afterCommands fresh [.log first, setting]) second = [⟨.console, second⟩]) ∧
    delivered (afterCommands fresh [.setLevel globalTag .error]) second = [] ∧
    delivered (afterCommands fresh [.log first, .setLevel globalTag .error]) second =
      [⟨.console, second⟩] := by
  decide

end Lifecycle.Log
