import Lifecycle.Log.Hub
import Lifecycle.Proofs.Log.Readings

/-!
# Logging after it has been initialized

The table of channels is shared by all routers, so what a document asks for could be spoilt by what
was left in the table.  It is not: a router takes its channels with it when it is shut down, since
every open channel is that of a tag for which the router keeps sinks (`Router.Owns`), and the next
router finds the table empty.  From then on a record reaches what the document says for its tag, at
the level that was set last (`deliveries_after_init`).
-/

namespace Lifecycle.Log

/-- A call of the hub. -/
inductive HubCall where
  | install (kind : Int) (config : Document)
  | installFrom (files : Files) (kind : Int) (file : String)
  | apply
  | shutdown
  | log (record : Record)
  | setLevel (tag : Name) (level : Level)
  | setMuted (tag : Name) (muted : Bool)

namespace HubCall

/-- The hub after a call. -/
def carryOut (h : Hub) : HubCall → Hub
  | install kind config => (h.install kind config).hub
  | installFrom files kind file => (h.installFrom files kind file).hub
  | apply => h.apply.hub
  | shutdown => h.shutdown
  | log record => (h.log record).2
  | setLevel tag level => h.setLevel tag level
  | setMuted tag muted => h.setMuted tag muted

/-- What a call asks of the router. -/
def command? : HubCall → Option Command
  | log record => some (.log record)
  | setLevel tag level => some (.setLevel tag level)
  | setMuted tag muted => some (.setMuted tag muted)
  | _ => none

/-- Whether a call sends a record, or sets something for a single tag. -/
def Ordinary (call : HubCall) : Prop := ∃ command, call.command? = some command ∧ command.Spares

end HubCall

/-- The hub after calls. -/
def afterCalls (h : Hub) (calls : List HubCall) : Hub := calls.foldl HubCall.carryOut h

/-- Whether the last command about a tag has silenced it. -/
def mutedBy (commands : List Command) (tag : Name) : Bool :=
  (latest (Command.mutedFor? tag) commands).getD false

/-! ## A router owns the open channels -/

/-- A router is at work, and every open channel is that of a tag for which it keeps sinks. -/
structure Router.Owns (routing : Router × ChannelTable) : Prop where
  initialized : routing.1.initialized = true
  working : routing.1.closed = false
  kept : ∀ tag ∈ routing.2, tag ∈ routing.1.sinks

/-- The open channels belong to the router in use. -/
def Hub.Owned (h : Hub) : Prop :=
  match h.router with
  | none => h.table = ∅
  | some router => Router.Owns (router, h.table)

namespace Router.Owns

variable {routing : Router × ChannelTable}

theorem openChannel (owns : Owns routing) (tag : Name) :
    Owns (routing.1.openChannel routing.2 tag).2 := by
  rw [Router.openChannel]
  split
  · exact owns
  · refine ⟨owns.initialized, owns.working, fun tag' present => ?_⟩
    rcases NameMap.mem_insert.mp present with same | before
    · exact NameMap.mem_insert.mpr (.inl same)
    · exact NameMap.mem_insert.mpr (.inr (owns.kept tag' before))

theorem carryOut (owns : Owns routing) (command : Command) : Owns (command.carryOut routing) := by
  cases command with
  | setLevel tag level =>
      rw [Command.carryOut, Router.setLevel]
      split
      · exact ⟨owns.initialized, owns.working, owns.kept⟩
      · refine ⟨owns.initialized, owns.working, fun tag' present => owns.kept tag' ?_⟩
        cases held : routing.2.find? tag with
        | none => simpa [held] using present
        | some channel =>
            rw [held] at present
            rcases NameMap.mem_insert.mp present with rfl | before
            · exact NameMap.mem_iff_isSome.mpr (by simp [held])
            · exact before
  | addSink tag sink =>
      refine ⟨owns.initialized, owns.working, fun tag' present => ?_⟩
      exact NameMap.mem_insert.mpr (.inr (owns.kept tag' present))
  | setMuted tag muted => exact ⟨owns.initialized, owns.working, owns.kept⟩
  | log record =>
      rw [Command.carryOut, Router.log]
      split
      · exact owns
      · exact owns.openChannel record.tag

theorem obey (owns : Owns routing) (orders : List Order) :
    Owns (orders.foldl Order.carryOut routing) := by
  induction orders generalizing routing with
  | nil => exact owns
  | cons order rest ih =>
      apply ih
      cases order with
      | setLevel tag level => exact owns.carryOut (.setLevel tag level)
      | addSink tag sink => exact owns.carryOut (.addSink tag sink)
      | openChannel tag => exact owns.openChannel tag
      | complain kind => exact owns

/-- A router that is shut down takes all channels with it. -/
theorem table_shutdown (owns : Owns routing) : (routing.1.shutdown routing.2).2 = ∅ := by
  apply NameMap.eq_empty_of_forall_not_mem
  intro tag present
  rw [NameMap.mem_iff_isSome, Router.shutdown, owns.initialized, owns.working] at present
  obtain ⟨channel, left⟩ := Option.isSome_iff_exists.mp present
  have left : (routing.2.filter fun tag _ => !routing.1.sinks.contains tag).find? tag =
      some channel := left
  rw [NameMap.find?_filter, Option.filter_eq_some_iff] at left
  have kept : routing.1.sinks.contains tag = true :=
    owns.kept tag (NameMap.mem_iff_isSome.mpr (by rw [left.1]; rfl))
  simp [kept] at left

end Router.Owns

namespace Hub

variable {h : Hub} {kind : Int} {config : Document} {router : Router}

theorem owned_iff (held : h.router = some router) : h.Owned ↔ Router.Owns (router, h.table) := by
  rw [Owned, held]

/-- No channel is left when logging is stopped. -/
theorem table_shutdown (owned : h.Owned) : h.shutdown.table = ∅ := by
  rw [shutdown]
  cases held : h.router with
  | none => simpa [Owned, held] using owned
  | some router => exact ((owned_iff held).mp owned).table_shutdown

theorem owned_shutdown (owned : h.Owned) : h.shutdown.Owned := by
  have stopped : h.shutdown.router = none := by
    rw [shutdown]
    cases held : h.router with
    | none => exact held
    | some router => rfl
  rw [Owned, stopped]
  exact table_shutdown owned

/-- A router that is put to work finds no channels. -/
theorem table_start (owned : h.Owned) (config : Document) : (h.start config).table = ∅ :=
  table_shutdown owned

theorem owned_install (owned : h.Owned) (kind : Int) (config : Document) :
    (h.install kind config).hub.Owned := by
  rw [install]
  split
  · apply (owned_iff rfl).mpr
    rw [table_start owned]
    exact ⟨rfl, rfl, fun tag present => absurd present (NameMap.not_mem_empty tag)⟩
  · exact owned

/-- A document in a file is as good as one that is handed over. -/
theorem installFrom_eq_install {files : Files} {file : String}
    (loaded : files.load file = .ok config) :
    h.installFrom files kind file = h.install kind config := by
  rw [installFrom, loaded]

theorem owned_installFrom (owned : h.Owned) (files : Files) (kind : Int) (file : String) :
    (h.installFrom files kind file).hub.Owned := by
  cases loaded : files.load file with
  | ok config =>
      rw [installFrom_eq_install loaded]
      exact owned_install owned kind config
  | error e =>
      rw [installFrom, loaded]
      exact owned

theorem owned_apply (owned : h.Owned) : h.apply.hub.Owned := by
  rw [apply]
  cases held : h.router with
  | none => exact owned
  | some router =>
      simp only
      split
      · exact owned
      · exact owned
      · exact (owned_iff rfl).mpr (((owned_iff held).mp owned).obey _)

end Hub

namespace HubCall

variable {h : Hub} {router : Router} {call : HubCall} {command : Command}

/-- A call that asks something of the router changes the hub through the router alone. -/
theorem carryOut_eq (held : h.router = some router) (asks : call.command? = some command) :
    call.carryOut h =
      { h with
        router := some (command.carryOut (router, h.table)).1
        table := (command.carryOut (router, h.table)).2 } := by
  cases call with
  | log record =>
      cases asks
      simp only [carryOut, Hub.log, held, Command.carryOut]
  | setLevel tag level =>
      cases asks
      simp only [carryOut, Hub.setLevel, held, Command.carryOut]
  | setMuted tag muted =>
      cases asks
      simp only [carryOut, Hub.setMuted, held, Command.carryOut, Option.map_some]
  | install | installFrom | apply | shutdown => cases asks

/-- Nothing can be asked of a router that is not there. -/
theorem carryOut_eq_self (absent : h.router = none) (asks : call.command? = some command) :
    call.carryOut h = h := by
  cases call with
  | log record => simp only [carryOut, Hub.log, absent]
  | setLevel tag level => simp only [carryOut, Hub.setLevel, absent]
  | setMuted tag muted =>
      obtain ⟨_, config, table⟩ := h
      cases absent
      rfl
  | install | installFrom | apply | shutdown => cases asks

/-- Whatever is called, the open channels belong to the router in use. -/
theorem owned_carryOut (owned : h.Owned) (call : HubCall) : (call.carryOut h).Owned := by
  cases asks : call.command? with
  | some command =>
      cases held : h.router with
      | none =>
          rw [carryOut_eq_self held asks]
          exact owned
      | some router =>
          rw [carryOut_eq held asks]
          exact (Hub.owned_iff rfl).mpr (((Hub.owned_iff held).mp owned).carryOut command)
  | none =>
      cases call with
      | install kind config => exact Hub.owned_install owned kind config
      | installFrom files kind file => exact Hub.owned_installFrom owned files kind file
      | apply => exact Hub.owned_apply owned
      | shutdown => exact Hub.owned_shutdown owned
      | log | setLevel | setMuted => cases asks

end HubCall

variable {h : Hub} {kind : Int} {config : Document} {router : Router}

theorem owned_afterCalls (calls : List HubCall) : (afterCalls {} calls).Owned := by
  have owned : Hub.Owned {} := rfl
  generalize ({} : Hub) = h at owned ⊢
  induction calls generalizing h with
  | nil => exact owned
  | cons call rest ih => exact ih _ (HubCall.owned_carryOut owned call)

/-- Calls that ask something of the router are carried out by it, one after the other. -/
theorem afterCalls_eq (held : h.router = some router) {calls : List HubCall}
    (ask : ∀ call ∈ calls, call.command?.isSome = true) :
    let routing := afterCommands (router, h.table) (calls.filterMap HubCall.command?)
    (afterCalls h calls).router = some routing.1 ∧ (afterCalls h calls).table = routing.2 := by
  induction calls generalizing h router with
  | nil => exact ⟨held, rfl⟩
  | cons call rest ih =>
      obtain ⟨command, asks⟩ := Option.isSome_iff_exists.mp (ask call List.mem_cons_self)
      rw [List.filterMap_cons_some asks, afterCommands, List.foldl_cons, afterCalls,
        List.foldl_cons, HubCall.carryOut_eq held asks]
      exact ih rfl fun call member => ask call (List.mem_cons_of_mem _ member)

/-! ## Initializing -/

/-- Logging is initialized by reading the log section for a router that finds no channels. -/
theorem install_thenApply (owned : h.Owned) {field : Option Document}
    (found : config.field? "log" = .ok field) :
    let reply := (h.install Hub.routerKind config).thenApply
    let plan := planLog (config.fieldOrNull "log")
    let routing := plan.orders.foldl Order.carryOut (Router.start {}, ∅)
    (reply.result = .ok .ok ↔ plan.result = .ok ()) ∧
      reply.hub.router = some routing.1 ∧ reply.hub.table = routing.2 := by
  have result : (h.install Hub.routerKind config).thenApply.result =
      (h.start config).apply.result := rfl
  have hub : (h.install Hub.routerKind config).thenApply.hub = (h.start config).apply.hub := rfl
  have clean : h.shutdown.table = ∅ := Hub.table_shutdown owned
  intro reply plan routing
  rw [result, hub, Hub.apply]
  simp only [Hub.start, clean, found]
  simp only [routing, plan, Document.fieldOrNull, found]
  cases field with
  | none => exact ⟨iff_of_true rfl rfl, rfl, rfl⟩
  | some log =>
      refine ⟨?_, rfl, rfl⟩
      cases read : (planLog log).result with
      | ok => simp [read]
      | error e => simp [read, Status.ok, Status.saying]

/-- Logging is initialized exactly if the kind of router exists and the log section can be read. -/
theorem initialized_iff (owned : h.Owned) :
    (h.install kind config).thenApply.result = .ok .ok ↔
      kind = Hub.routerKind ∧ (∃ field, config.field? "log" = .ok field) ∧
        (planLog (config.fieldOrNull "log")).result = .ok () := by
  by_cases known : kind = Hub.routerKind
  · subst known
    cases found : config.field? "log" with
    | ok field => simp [(install_thenApply owned found).1]
    | error e =>
        have fails : (h.install Hub.routerKind config).thenApply.result = .error e := by
          have result : (h.install Hub.routerKind config).thenApply.result =
            (h.start config).apply.result := rfl
          rw [result, Hub.apply]
          simp only [Hub.start, found]
        simp [fails]
  · have refused : (h.install kind config).thenApply.result =
        .ok (.saying .invalidArgument "unknown logger type") := by
      rw [HubReply.thenApply, Hub.install, if_neg known]
      rfl
    simp [refused, known, Status.ok, Status.saying]

/-- After logging has been initialized, records go where the document says, at the level that was
set last. -/
theorem deliveries_initialized {tag : Name} {later : List HubCall} (owned : h.Owned)
    (initialized : (h.install kind config).thenApply.result = .ok .ok)
    (distinct : ((config.fieldOrNull "log").sections.map Prod.fst).Nodup)
    (ordinary : tag ≠ globalTag) (calls : ∀ call ∈ later, call.Ordinary) (level : Level)
    (message : String) :
    let commands := later.filterMap HubCall.command?
    let log := config.fieldOrNull "log"
    ((afterCalls (h.install kind config).thenApply.hub later).log ⟨tag, level, message⟩).1 =
      if mutedBy commands tag = false ∧
          ((latestLevel tag commands).getD (levelFor log tag)).rank ≤ level.rank then
        (sinksFor log tag).map fun sink => ⟨sink, ⟨tag, level, message⟩⟩
      else
        [] := by
  intro commands log
  obtain ⟨rfl, ⟨field, found⟩, goes⟩ := (initialized_iff owned).mp initialized
  obtain ⟨-, running, table⟩ := install_thenApply owned found
  obtain ⟨next, speaks, works⟩ := TagState.next_obey_planLog ordinary goes distinct
    (s := stateOf (Router.start {}, ∅) tag) rfl
  rw [← stateOf_afterOrders] at next speaks works
  generalize (planLog (config.fieldOrNull "log")).orders.foldl Order.carryOut
    (Router.start {}, ∅) = routing at running table next speaks works
  have ask : ∀ call ∈ later, call.command?.isSome = true := by
    intro call member
    obtain ⟨command, asks, -⟩ := calls call member
    simp [asks]
  have spares : ∀ command ∈ commands, command.Spares := by
    intro command member
    obtain ⟨call, member, asks⟩ := List.mem_filterMap.mp member
    obtain ⟨command', asks', spares⟩ := calls call member
    rw [asks] at asks'
    cases asks'
    exact spares
  obtain ⟨running', table'⟩ := afterCalls_eq running ask
  rw [table] at running' table'
  have delivered : ((afterCalls (h.install Hub.routerKind config).thenApply.hub later).log
      ⟨tag, level, message⟩).1 =
        delivered (afterCommands routing commands) ⟨tag, level, message⟩ := by
    rw [Hub.log, running', table']
    rfl
  have silent : (stateOf (afterCommands routing commands) tag).silent = mutedBy commands tag := by
    rw [TagState.silent, stateOf_afterCommands, TagState.closed_foldl, TagState.muted_foldl, works,
      speaks, mutedBy, Bool.false_or]
  have channel : (stateOf (afterCommands routing commands) tag).next =
      ⟨sinksFor log tag, (latestLevel tag commands).getD (levelFor log tag)⟩ := by
    rw [stateOf_afterCommands, TagState.next_foldl ordinary (.inr spares), next]
    rfl
  rw [delivered, Log.delivered, deliveries_log]
  simp only [silent, channel, Channel.deliver, Level.passes]
  cases mutedBy commands tag <;> simp

theorem field?_of_fieldOrNull {d : Document} {key : String} {fields : List (String × Document)}
    (found : d.fieldOrNull key = .mapping fields) : d.field? key = .ok (some (.mapping fields)) := by
  rw [Document.fieldOrNull] at found
  split at found
  · rename_i value held
    rw [held, found]
  · exact absurd found Document.noConfusion

/-- Whatever has happened to logging before it was initialized with a document, and whatever records
have been sent and settings made for single tags since: a record reaches the sinks that the document
lists for its tag and then those it lists for all tags, unless the tag has been silenced or the
record does not come up to the last level that was set for the tag, or else to the level in the
document.  The order of the sections does not count. -/
theorem deliveries_after_init {before later : List HubCall} {kind : Int} {config : Document}
    {tag : Name}
    (initialized : ((afterCalls {} before).install kind config).thenApply.result = .ok .ok)
    (distinct : ((config.fieldOrNull "log").sections.map Prod.fst).Nodup)
    (ordinary : tag ≠ globalTag) (calls : ∀ call ∈ later, call.Ordinary) :
    let log := config.fieldOrNull "log"
    let commands := later.filterMap HubCall.command?
    let delivered (reply : HubReply) (level : Level) (message : String) :=
      ((afterCalls reply.hub later).log ⟨tag, level, message⟩).1
    let reply := ((afterCalls {} before).install kind config).thenApply
    (∀ level message, delivered reply level message =
      if mutedBy commands tag = false ∧
          ((latestLevel tag commands).getD (levelFor log tag)).rank ≤ level.rank then
        (sinksFor log tag).map fun sink => ⟨sink, ⟨tag, level, message⟩⟩
      else
        []) ∧
    ∀ (before' : List HubCall) (config' : Document) (sections sections' : List (String × Document)),
      log = .mapping sections → config'.fieldOrNull "log" = .mapping sections' →
      sections.Perm sections' →
        let reply' := ((afterCalls {} before').install kind config').thenApply
        reply'.result = .ok .ok ∧
          ∀ level message, delivered reply' level message = delivered reply level message := by
  intro log commands delivered reply
  have first (level : Level) (message : String) :=
    deliveries_initialized (owned_afterCalls before) initialized distinct ordinary calls level
      message
  refine ⟨first, ?_⟩
  intro before' config' sections sections' own other permuted reply'
  have owned' : (afterCalls {} before').Owned := owned_afterCalls before'
  obtain ⟨known, -, goes⟩ := (initialized_iff (owned_afterCalls before)).mp initialized
  have log_eq : config.fieldOrNull "log" = .mapping sections := own
  rw [log_eq] at goes distinct
  have initialized' : reply'.result = .ok .ok := by
    refine (initialized_iff owned').mpr ⟨known, ⟨_, field?_of_fieldOrNull other⟩, ?_⟩
    rw [other]
    exact planLog_goes_of_perm permuted distinct goes
  have distinct' : ((config'.fieldOrNull "log").sections.map Prod.fst).Nodup := by
    rw [other]
    exact (permuted.map Prod.fst).nodup_iff.mp distinct
  refine ⟨initialized', fun level message => ?_⟩
  have second := deliveries_initialized owned' initialized' distinct' ordinary calls level message
  obtain ⟨sinks, levels⟩ := channelFor_eq_of_perm permuted distinct tag
  simp only [other, ← sinks, ← levels, ← log_eq] at second
  exact second.trans (first level message).symm

/-- Logging is initialized a second time, and then a level is set for one tag while another one is
silenced. -/
theorem pool_raised_after_second_init :
    let old : Document := .mapping [("log", .mapping [("Pool", .mapping [("level", .scalar "off")])])]
    let pool : String × Document := ("Pool", .mapping [("level", .scalar "debug"),
      ("sinks", .list [.mapping [("type", .scalar "console")]])])
    let all : String × Document := ("*", .mapping [("sinks",
      .list [.mapping [("type", .scalar "file"), ("filename", .scalar "all")]])])
    let before : List HubCall := [.install Hub.routerKind old, .apply,
      .log ⟨"Pool", .fatal, "lost"⟩, .setMuted "Pool" true]
    let later : List HubCall := [.log ⟨"Pool", .debug, "first"⟩, .setMuted "Cache" true,
      .setLevel "Pool" .error]
    let reply (sections : List (String × Document)) :=
      ((afterCalls {} before).install Hub.routerKind
        (.mapping [("log", .mapping sections)])).thenApply
    ((reply [pool, all]).result = .ok .ok ∧ ([pool, all].map Prod.fst).Nodup ∧
      "Pool" ≠ globalTag ∧ ∀ call ∈ later, call.Ordinary) ∧
    ((afterCalls (reply [pool, all]).hub later).log ⟨"Pool", .error, "second"⟩).1 =
      [⟨.console, ⟨"Pool", .error, "second"⟩⟩, ⟨.file "all", ⟨"Pool", .error, "second"⟩⟩] ∧
    ((afterCalls (reply [all, pool]).hub later).log ⟨"Pool", .warn, "third"⟩).1 = [] := by
  intro old pool all before later reply
  have initialized : (reply [pool, all]).result = .ok .ok := rfl
  have distinct : ([pool, all].map Prod.fst).Nodup := by decide
  have calls : ∀ call ∈ later, call.Ordinary := by
    simp [later, HubCall.Ordinary, HubCall.command?, Command.Spares, globalTag]
  obtain ⟨reaches, alike⟩ :=
    @deliveries_after_init before later _ _ "Pool" initialized distinct (by decide) calls
  refine ⟨⟨initialized, distinct, by decide, calls⟩, (reaches .error "second").trans rfl, ?_⟩
  have swapped := alike before (.mapping [("log", .mapping [all, pool])]) _ _ rfl rfl (.swap ..)
  exact (swapped.2 .warn "third").trans ((reaches .warn "third").trans rfl)

end Lifecycle.Log
