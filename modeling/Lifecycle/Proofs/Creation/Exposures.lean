import Lifecycle.Proofs.Creation.Discard
import Lifecycle.Proofs.Teardown.Leftovers

/-!
# Pending factories

A pending factory is taken out of its store before it is run, so whatever it does while it runs, and
however it comes back, it is not there to be run again.  Every pending factory that has been stored
has then been invoked, has been dropped, or is still pending (`Session.perm_exposures`), and the one
that is pending under a key is the one that was stored last and has been neither dropped nor invoked
since (`Session.pending_iff_everSince`).

Only a request for an early reference invokes a pending factory, and only that of an absent key in
creation (`Session.mem_invoked_iff`).
-/

namespace Lifecycle

open Log

variable {κ : Type}

/-! ## What is stored and what is dropped -/

namespace Cache

/-- The pending factory that a call stores under its key. -/
def stored (c : Cache κ) : CacheCall κ → List (Name × κ)
  | .registerPending key (some factory) => if (c.get key).isSome then [] else [(key, factory)]
  | _ => []

/-- Whether a call drops what is pending under a key: another pending factory takes its place, the
key is finalized, or the key is evicted, by itself or with all the others. -/
def drops (c : Cache κ) (key : Name) : CacheCall κ → Bool
  | .registerPending other (some _) => (c.get other).isNone && key == other
  | .registerFinalized other (some _) => (other != "" && (c.get other).isNone) && key == other
  | .evict other => key == other
  | .clear => true
  | _ => false

/-- Whether the end of a creation drops what is pending under its key: the instance that the factory
has made becomes the finalized one, or the factory has failed and the key is absent. -/
def discards (c : Cache κ) (key : Name) : Outcome → Bool
  | .returned (some _) => (c.tracker.finish key).value.isOk
  | .returned none | .threw _ => (c.get key).isNone

variable {c c' : Cache κ} {key : Name} {outcome : Outcome}

theorem pending_discardPartial :
    (c.discardPartial key).value.pending =
      if (c.get key).isNone then c.pending.erase key else c.pending := by
  rw [value_discardPartial]
  cases c.get key <;> rfl

/-- What the registration of a finished instance leaves pending. -/
theorem pending_registerFinalized (c : Cache κ) (key : Name) (object : Instance) :
    (c.registerFinalized key (some object)).value.2.pending =
      if key != "" && (c.get key).isNone then c.pending.erase key else c.pending := by
  by_cases keyEmpty : key = ""
  · rw [c.registerFinalized_of_empty (.inl keyEmpty)]
    simp [keyEmpty]
  · cases found : c.get key with
    | none => simp [c.registerFinalized_of_absent object keyEmpty found, keyEmpty]
    | some existing => simp [c.registerFinalized_of_get object keyEmpty found]

theorem Closing.pending_of_passed {result : Except Fault Instance} {tracker : Tracker}
    (closing : c.Closing key outcome result c')
    (passed : (c.tracker.finish key).value = .ok tracker) :
    c'.pending = if c.discards key outcome then c.pending.erase key else c.pending := by
  cases closing with
  | fresh => simp [discards, passed, Except.isOk, Except.toBool]
  | adopted _ _ found => simp [discards, found]
  | @failed _ _ _ suppressed _ failure =>
      rcases failure with rfl | ⟨rfl, _⟩ <;> exact pending_discardPartial
  | unknown refused => exact absurd (refused.symm.trans passed) (by simp)

/-- What the end of a creation leaves pending. -/
theorem pending_closeCreation (c : Cache κ) (ledger : Ledger) (key : Name) (outermost : Bool)
    (outcome : Outcome) :
    (c.closeCreation ledger key outermost outcome).value.2.1.pending =
      if c.discards key outcome then c.pending.erase key else c.pending := by
  cases finished : (c.tracker.finish key).value with
  | ok tracker =>
      exact (c.closing_closeCreation ledger key outermost outcome).pending_of_passed finished
  | error cause =>
      obtain ⟨_, suppressed, _, _, _, left⟩ := closed_of_refused finished ledger outermost outcome
      have discarded : (discardPartial { c with suppressed } key).value.pending =
          if (c.get key).isNone then c.pending.erase key else c.pending := pending_discardPartial
      rw [left]
      rcases outcome with (_ | object) | fault
      · exact discarded
      · simp [judge, Verdict.failure?, discards, finished, Except.isOk, Except.toBool]
      · cases found : c.get key with
        | none =>
            have failed : (c.judge ledger key (.threw fault)).1.failure?.isSome := by
              simp [judge, found, Verdict.failure?]
            rw [if_pos failed]
            exact discarded
        | some object =>
            have kept : c.discards key (.threw fault) = false := by simp [discards, found]
            rw [kept]
            split
            · simpa [found] using discarded
            · rfl

/-- A request for an early reference takes the pending factory of an absent key in creation that has
no early reference yet, and only that one. -/
theorem openEarly_eq_taken_iff {factory : κ} :
    c.openEarly key = .taken factory c' ↔
      (c.get key = none ∧ key ∈ c.tracker.inCreation ∧ key ∉ c.early ∧
        c.pending.find? key = some factory) ∧ c' = { c with pending := c.pending.erase key } := by
  have missing : key ∉ c.early ↔ c.early.find? key = none := by
    rw [NameMap.mem_iff_isSome, Option.not_isSome_iff_eq_none]
  rw [missing]
  constructor
  · intro opened
    obtain ⟨absent, actual, early, pending, rfl⟩ := eq_of_openEarly opened
    exact ⟨⟨absent, actual, early, pending⟩, rfl⟩
  · rintro ⟨⟨absent, actual, early, pending⟩, rfl⟩
    have known : c.tracker.isActual key = true := actual
    simp [openEarly, absent, known, early, pending]

theorem nodup_stored (c : Cache κ) (call : CacheCall κ) : (c.stored call).Nodup := by
  unfold stored
  split
  · split <;> simp
  · exact List.nodup_nil

/-- A call that stores a pending factory drops the one that it replaces. -/
theorem drops_of_mem_stored {factory : κ} {call : CacheCall κ}
    (stores : (key, factory) ∈ c.stored call) : c.drops key call = true := by
  unfold stored at stores
  split at stores
  · split at stores
    · exact absurd stores List.not_mem_nil
    · rename_i absent
      obtain ⟨rfl, rfl⟩ := Prod.mk.inj (List.mem_singleton.mp stores)
      simpa [drops] using absent
  · exact absurd stores List.not_mem_nil

end Cache

/-- Whether a task drops what is pending under a key. -/
def Task.forgets (key : Name) : Task κ → Bool
  | destroy other => key == other
  | forgetAll => true
  | dispose _ _ | destroyContained _ | scrub _ | markDestroyed => false

namespace Registry

/-- Whether a teardown drops, before it stops, what is pending under a key. -/
def forgets (r : Registry κ) (key : Name) (tasks : List (Task κ)) : Bool :=
  match tasks with
  | [] => false
  | task :: rest =>
      if task.disposal?.isSome then
        false
      else
        task.forgets key || (r.perform task).2.forgets key ((r.perform task).1 ++ rest)
termination_by 5 * r.edgeCount + Task.totalWeight tasks
decreasing_by
  have cheaper := r.perform_cost task
  simp only [Task.totalWeight_append, Task.totalWeight_cons]
  omega

variable {key : Name} {factory : κ}

@[simp]
theorem pending_begins (r : Registry κ) (call : TeardownCall κ) :
    (r.begins call).2.cache.pending = r.cache.pending := by
  cases call with
  | close =>
      rw [begins]
      split <;> rfl
  | registerDisposal | hasDisposal | disposalCount | destroy | destroyAll | retire => rfl

theorem find?_pending_perform (r : Registry κ) (task : Task κ) :
    (r.perform task).2.cache.pending.find? key =
      if task.forgets key then none else r.cache.pending.find? key := by
  cases task with
  | destroy other =>
      by_cases same : key = other
      · simp [perform, unlink, Task.forgets, same]
      · simp [perform, unlink, Task.forgets, NameMap.find?_erase, same]
  | forgetAll => rfl
  | dispose | destroyContained | scrub | markDestroyed =>
      simp [perform, releaseContained, Task.forgets]

/-- A teardown leaves pending what it does not drop. -/
theorem find?_pending_teardown (r : Registry κ) (tasks : List (Task κ)) :
    (r.teardown tasks).value.1.cache.pending.find? key =
      if r.forgets key tasks then none else r.cache.pending.find? key := by
  induction r, tasks using Registry.forgets.induct with
  | case1 r => simp [teardown, forgets]
  | case2 r task rest stops =>
      cases task with
      | dispose key callback => simp [teardown, forgets, Task.disposal?]
      | destroy | destroyContained | scrub | forgetAll | markDestroyed => contradiction
  | case3 r task rest goes ih =>
      have undisposing : task.disposal? = none := by simpa using goes
      rw [value_teardown_cons r undisposing, ih, find?_pending_perform, forgets, if_neg goes]
      cases task.forgets key <;> simp

end Registry

/-! ## What is entered -/

/-- The pending factory that a call has entered. -/
def Progress.exposed : Progress κ → List (Name × κ)
  | entered factory (.exposing key) => [(key, factory)]
  | _ => []

theorem Progress.nodup_exposed (progress : Progress κ) : progress.exposed.Nodup := by
  unfold exposed
  split <;> simp

theorem Progress.mem_exposed_iff {progress : Progress κ} {key : Name} {factory : κ} :
    (key, factory) ∈ progress.exposed ↔ progress = .entered factory (.exposing key) := by
  rcases progress with result | ⟨callback, creating | other | disposing⟩
  · simp [exposed]
  · simp [exposed]
  · simp [exposed, and_comm, eq_comm]
  · simp [exposed]

namespace Registry

variable {r : Registry κ} {callback : κ} {frame : Frame κ}

/-- A teardown enters disposals only. -/
theorem disposing_of_teardown {tasks : List (Task κ)}
    (entered : (r.teardown tasks).value.2 = .entered callback frame) :
    ∃ key rest, frame = .disposing key rest := by
  have halts := (r.torn_teardown tasks .refl).2
  rw [entered] at halts
  cases halts with
  | disposing _ key rest => exact ⟨key, rest, rfl⟩

/-- The calls that enter factories: a request enters its own factory, and a request for an early
reference the pending factory that it has taken. -/
theorem entered_of_call {call : Call κ}
    (entered : (r.call call).value.2 = .entered callback frame) :
    (∃ key outermost, frame = .creating key outermost ∧
        call = .cache (.getOrCreate key (some callback))) ∨
      (∃ key cache, frame = .exposing key ∧ call = .cache (.getEarly key) ∧
        r.cache.openEarly key = .taken callback cache) ∨
      ∃ key rest, frame = .disposing key rest := by
  cases call with
  | name | aliases | graph => simp [Registry.call, answer] at entered
  | tracker call =>
      cases granted : (call.run r.cache.tracker).value <;>
        simp [Registry.call, granted, answer, raise] at entered
  | cache call =>
      cases call with
      | getEarly key =>
          cases opened : r.cache.openEarly key with
          | known handle => simp [Registry.call, callCache, opened, answer] at entered
          | taken factory cache =>
              obtain ⟨rfl, rfl⟩ : factory = callback ∧ .exposing key = frame := by
                simpa [Registry.call, callCache, opened] using entered
              exact .inr (.inl ⟨key, cache, rfl, rfl, opened⟩)
      | getOrCreate key factory =>
          cases factory with
          | none => simp [Registry.call, callCache, raise] at entered
          | some factory =>
              cases opened : (r.cache.openCreation key).value with
              | found | refused => simp [Registry.call, callCache, opened, answer, raise] at entered
              | started outermost cache =>
                  obtain ⟨rfl, rfl⟩ : factory = callback ∧ .creating key outermost = frame := by
                    simpa [Registry.call, callCache, opened] using entered
                  exact .inl ⟨key, outermost, rfl, rfl⟩
      | _ => simp [Registry.call, callCache, answer] at entered
  | teardown call =>
      by_cases destroys : call.Destroys
      · rw [Registry.call, value_callTeardown r destroys] at entered
        exact .inr (.inr (disposing_of_teardown entered))
      · cases call with
        | registerDisposal | hasDisposal | disposalCount =>
            simp [Registry.call, callTeardown, answer] at entered
        | destroy | destroyAll | retire | close => exact absurd trivial destroys

/-- What a call on the cache leaves pending under a key: what it stores, or what was pending before
and is neither dropped nor entered. -/
theorem find?_pending_callCache {key : Name} {factory : κ} (call : CacheCall κ) :
    (r.callCache call).value.1.cache.pending.find? key = some factory ↔
      (key, factory) ∈ r.cache.stored call ∨ r.cache.pending.find? key = some factory ∧
        r.cache.drops key call = false ∧ (key, factory) ∉ (r.callCache call).value.2.exposed := by
  -- A call that only takes a pending factory away, or does nothing to any.
  have taking : ∀ (taken : Bool) (other : Name), (r.callCache call).value.1.cache.pending =
        (if taken then r.cache.pending.erase other else r.cache.pending) →
      r.cache.drops key call = (taken && key == other) → r.cache.stored call = [] →
      (r.callCache call).value.2.exposed = [] →
      ((r.callCache call).value.1.cache.pending.find? key = some factory ↔
        (key, factory) ∈ r.cache.stored call ∨ r.cache.pending.find? key = some factory ∧
          r.cache.drops key call = false ∧
            (key, factory) ∉ (r.callCache call).value.2.exposed) := by
    intro taken other left drops stores exposes
    simp only [left, NameMap.find?_ite_erase, drops, stores, exposes, List.not_mem_nil, false_or,
      not_false_eq_true, and_true]
  cases call with
  | getEarly other =>
      cases opened : r.cache.openEarly other with
      | known handle =>
          rw [callCache, opened] at taking ⊢
          exact taking false "" rfl rfl rfl rfl
      | taken early cache =>
          obtain ⟨_, _, _, found, rfl⟩ := Cache.eq_of_openEarly opened
          by_cases same : key = other
          · subst same
            simp [callCache, opened, Cache.stored, Cache.drops, Progress.exposed, found, eq_comm]
          · simp [callCache, opened, Cache.stored, Cache.drops, Progress.exposed,
              NameMap.find?_erase, same]
  | getOrCreate other callback =>
      cases callback with
      | none => exact taking false "" rfl rfl rfl rfl
      | some callback =>
          cases opened : (r.cache.openCreation other).value with
          | found | refused =>
              simp only [callCache, Logged.value_bind, opened] at taking ⊢
              exact taking false "" rfl rfl rfl rfl
          | started outermost cache =>
              obtain ⟨_, _, _, _, _, rfl⟩ := Cache.eq_of_openCreation opened
              simp only [callCache, Logged.value_bind, opened] at taking ⊢
              exact taking false "" rfl rfl rfl rfl
  | registerFinalized other handle =>
      cases handle with
      | none =>
          apply taking false "" _ rfl rfl rfl
          simp [callCache, answer, r.cache.registerFinalized_of_empty (.inr rfl)]
      | some object =>
          exact taking _ other (r.cache.pending_registerFinalized other object) rfl rfl rfl
  | registerPending other callback =>
      cases callback with
      | none => exact taking false "" rfl rfl rfl rfl
      | some callback =>
          simp only [callCache, Option.elim_some, Logged.value_pure, answer,
            Cache.pending_registerPending, Cache.stored, Cache.drops, Progress.exposed]
          by_cases same : key = other
          · subst same
            cases r.cache.get key <;> simp [eq_comm (a := factory)]
          · split <;> simp [NameMap.find?_insert, same]
  | evict other => exact taking true other rfl rfl rfl rfl
  | suppress fault =>
      apply taking false "" _ rfl rfl rfl
      cases fault with
      | none => rfl
      | some fault =>
          simp only [callCache, Option.elim_some]
          rw [Cache.suppress_eq]
          rfl
  | clear => simp [callCache, answer, Cache.stored, Cache.drops, Cache.clear]
  | get | suppressedCount | contains | names | count | setInDestruction | inDestruction =>
      exact taking false "" rfl rfl rfl rfl

/-- When a callback comes back, no factory is entered. -/
theorem disposing_of_resume {outcome : Outcome} {waiting : Frame κ}
    (entered : (r.resume outcome waiting).value.2 = .entered callback frame) :
    ∃ key rest, frame = .disposing key rest := by
  cases waiting with
  | creating => simp [resume] at entered
  | exposing => cases outcome <;> simp [resume, answer] at entered
  | disposing => exact disposing_of_teardown entered

end Registry

/-! ## Moves -/

namespace Session

/-- The pending factory that a move stores. -/
def stored (s : Session κ) : Move κ → List (Name × κ)
  | .call (.cache call) => s.registry.cache.stored call
  | _ => []

/-- The pending factory that is to be run after a move. -/
def invoked (s : Session κ) : Move κ → List (Name × κ)
  | .call c => (s.registry.call c).value.2.exposed
  | .finish outcome => s.stack.head?.elim [] fun frame =>
      (s.registry.resume outcome frame).value.2.exposed
  | _ => []

/-- What the session replies to a move. -/
def reply? (s : Session κ) : Move κ → Option (Reply κ)
  | .call c => some (s.call c).value.2
  | .finish outcome => (s.finish? outcome).map (·.value.2)
  | _ => none

/-- Whether a move drops what is pending under a key. -/
def drops (s : Session κ) (key : Name) : Move κ → Bool
  | .call (.cache call) => s.registry.cache.drops key call
  | .call (.teardown call) => (s.registry.begins call).2.forgets key (s.registry.begins call).1
  | .finish outcome => s.stack.head?.elim false fun
      | .creating other _ => s.registry.cache.discards other outcome && key == other
      | .exposing _ => false
      | .disposing _ rest => s.registry.forgets key rest
  | _ => false

/-- The pending factories that a move drops. -/
def dropped (s : Session κ) (move : Move κ) : List (Name × κ) :=
  s.registry.cache.pending.entries.filter fun entry => s.drops entry.1 move

variable {s t : Session κ} {move : Move κ} {key : Name} {factory : κ}

/-- A callback is to be run for what the call that waits for it says. -/
theorem entered_of_after {stack : List (Frame κ)} {result : Registry κ × Progress κ} {role : Role}
    {callback : κ} (entered : (after stack result).2 = .entered role callback) :
    ∃ frame, result.2 = .entered callback frame ∧ frame.role = role := by
  rcases result with ⟨r, answer | ⟨callback, frame⟩⟩
  · simp [after] at entered
  · obtain ⟨rfl, rfl⟩ := Reply.entered.inj entered
    exact ⟨frame, rfl, rfl⟩

/-- A pending factory is run after a request for an early reference of its key, exactly if the key is
absent, is in creation and has no early reference yet. -/
theorem mem_invoked_iff :
    (key, factory) ∈ s.invoked move ↔
      move = .call (.cache (.getEarly key)) ∧ s.registry.cache.get key = none ∧
        key ∈ s.registry.cache.tracker.inCreation ∧ key ∉ s.registry.cache.early ∧
        s.registry.cache.pending.find? key = some factory := by
  constructor
  · intro invoked
    cases move with
    | raise | attach => exact absurd invoked List.not_mem_nil
    | call call =>
        rcases Registry.entered_of_call (Progress.mem_exposed_iff.mp invoked) with
          ⟨_, _, other, _⟩ | ⟨_, cache, same, rfl, opened⟩ | ⟨_, _, other⟩
        · exact absurd other (by simp)
        · obtain rfl := Frame.exposing.inj same
          exact ⟨rfl, (Cache.openEarly_eq_taken_iff.mp opened).1⟩
        · exact absurd other (by simp)
    | finish outcome =>
        cases running : s.stack with
        | nil => simp [Session.invoked, running] at invoked
        | cons frame rest =>
            simp only [Session.invoked, running, List.head?_cons, Option.elim_some] at invoked
            obtain ⟨_, _, other⟩ :=
              Registry.disposing_of_resume (Progress.mem_exposed_iff.mp invoked)
            exact absurd other (by simp)
  · rintro ⟨rfl, ready⟩
    have opened := Cache.openEarly_eq_taken_iff.mpr ⟨ready, rfl⟩
    simp [Session.invoked, Registry.call, Registry.callCache, opened, Progress.exposed]

/-- No other move runs a pending factory. -/
theorem invoked_eq_nil (other : ∀ key, move ≠ .call (.cache (.getEarly key))) :
    s.invoked move = [] := by
  apply List.eq_nil_iff_forall_not_mem.mpr
  rintro ⟨key, factory⟩ invoked
  exact other key (mem_invoked_iff.mp invoked).1

/-- The factory that is to be run after a move is that of a request, or it is a pending one. -/
theorem own_or_pending_of_reply? (entered : s.reply? move = some (.entered .factory factory)) :
    (∃ key, move = .call (.cache (.getOrCreate key (some factory)))) ∨
      ∃ key, (key, factory) ∈ s.invoked move := by
  cases move with
  | raise | attach => simp [reply?] at entered
  | call call =>
      have progress := Option.some.inj entered
      rw [Session.call, Logged.value_map] at progress
      obtain ⟨frame, entered, role⟩ := entered_of_after progress
      rcases Registry.entered_of_call entered with
        ⟨key, _, _, rfl⟩ | ⟨key, _, rfl, _, _⟩ | ⟨_, _, rfl⟩
      · exact .inl ⟨key, rfl⟩
      · exact .inr ⟨key, Progress.mem_exposed_iff.mpr entered⟩
      · simp [Frame.role] at role
  | finish outcome =>
      cases running : s.stack with
      | nil => simp [reply?, finish?, running] at entered
      | cons frame rest =>
          simp only [reply?, finish?, running, Option.map_some, Option.some.injEq,
            Logged.value_map] at entered
          obtain ⟨_, entered, role⟩ := entered_of_after entered
          obtain ⟨_, _, rfl⟩ := Registry.disposing_of_resume entered
          simp [Frame.role] at role

theorem reply?_of_mem_invoked (invoked : (key, factory) ∈ s.invoked move) :
    s.reply? move = some (.entered .factory factory) := by
  obtain ⟨rfl, ready⟩ := mem_invoked_iff.mp invoked
  have opened := Cache.openEarly_eq_taken_iff.mpr ⟨ready, rfl⟩
  simp [reply?, Session.call, Registry.call, Registry.callCache, opened, after, Frame.role]

/-- What is pending under a key after a move: what the move stores, or what was pending before and is
neither dropped nor invoked. -/
theorem find?_pending_of_move? (moved : s.move? move = some t) :
    t.registry.cache.pending.find? key = some factory ↔
      (key, factory) ∈ s.stored move ∨ s.registry.cache.pending.find? key = some factory ∧
        s.drops key move = false ∧ (key, factory) ∉ s.invoked move := by
  -- A move that has nothing to do with pending factories.
  have kept : t.registry.cache.pending = s.registry.cache.pending → s.stored move = [] →
      s.drops key move = false → s.invoked move = [] →
      (t.registry.cache.pending.find? key = some factory ↔
        (key, factory) ∈ s.stored move ∨ s.registry.cache.pending.find? key = some factory ∧
          s.drops key move = false ∧ (key, factory) ∉ s.invoked move) := by
    intro same stores drops invokes
    simp [same, stores, drops, invokes]
  cases move with
  | raise cause | attach fault others =>
      obtain rfl := Option.some.inj moved
      exact kept rfl rfl rfl rfl
  | finish outcome =>
      obtain ⟨frame, rest, running, rfl⟩ := move?_finish_eq_some_iff.mp moved
      have silent : s.invoked (.finish outcome) = [] := invoked_eq_nil (by simp)
      rw [registry_after] at kept ⊢
      cases frame with
      | creating other outermost =>
          have left :=
            s.registry.cache.pending_closeCreation s.registry.ledger other outermost outcome
          simp only [Registry.resume, Logged.value_bind, Logged.value_pure, left]
          simp [NameMap.find?_ite_erase, stored, drops, running, silent]
      | exposing other =>
          have same : (s.registry.resume outcome (.exposing other)).value.1.cache.pending =
              s.registry.cache.pending := by
            rcases outcome with (_ | object) | fault <;> rfl
          exact kept same rfl (by simp [drops, running]) silent
      | disposing other tasks =>
          simp only [Registry.resume, Logged.value_bind, Registry.find?_pending_teardown]
          cases dropped : s.registry.forgets key tasks <;>
            simp [stored, drops, running, silent, dropped]
  | call c =>
      obtain rfl := Option.some.inj moved
      rw [call, Logged.value_map, registry_after] at kept ⊢
      cases c with
      | name | aliases | graph => exact kept rfl rfl rfl rfl
      | tracker call =>
          apply kept _ rfl rfl (invoked_eq_nil (by simp))
          cases granted : (call.run s.registry.cache.tracker).value <;>
            simp [Registry.call, granted, Registry.raise, Registry.answer]
      | cache call => exact Registry.find?_pending_callCache call
      | teardown call =>
          have silent : s.invoked (.call (.teardown call)) = [] := invoked_eq_nil (by simp)
          by_cases destroys : call.Destroys
          · simp only [Registry.call, Registry.value_callTeardown _ destroys,
              Registry.find?_pending_teardown, Registry.pending_begins, stored, drops, silent]
            cases (s.registry.begins call).2.forgets key (s.registry.begins call).1 <;> simp
          · cases call with
            | registerDisposal | hasDisposal | disposalCount =>
                exact kept rfl rfl (by simp [drops, Registry.begins, Registry.forgets]) silent
            | destroy | destroyAll | retire | close => exact absurd trivial destroys

/-! ## Accounts -/

theorem drops_of_mem_stored (stores : (key, factory) ∈ s.stored move) :
    s.drops key move = true := by
  unfold stored at stores
  split at stores
  · exact Cache.drops_of_mem_stored stores
  · exact absurd stores List.not_mem_nil

theorem pending_of_mem_invoked (invoked : (key, factory) ∈ s.invoked move) :
    s.registry.cache.pending.find? key = some factory ∧ s.drops key move = false := by
  obtain ⟨rfl, _, _, _, pending⟩ := mem_invoked_iff.mp invoked
  exact ⟨pending, rfl⟩

theorem nodup_stored (s : Session κ) (move : Move κ) : (s.stored move).Nodup := by
  unfold stored
  split
  · exact Cache.nodup_stored _ _
  · exact List.nodup_nil

theorem nodup_invoked (s : Session κ) (move : Move κ) : (s.invoked move).Nodup := by
  cases move with
  | call call => exact Progress.nodup_exposed _
  | finish outcome => simp [invoked_eq_nil]
  | raise | attach => exact List.nodup_nil

theorem mem_dropped_iff :
    (key, factory) ∈ s.dropped move ↔
      s.registry.cache.pending.find? key = some factory ∧ s.drops key move = true := by
  rw [dropped, List.mem_filter, NameMap.mem_entries_iff]

/-- What a move stores, and what was pending before it, is invoked or dropped by the move, or is
pending after it. -/
theorem perm_exposure (moved : s.move? move = some t) :
    (s.stored move ++ s.registry.cache.pending.entries).Perm
      (s.invoked move ++ s.dropped move ++ t.registry.cache.pending.entries) := by
  classical
  rw [List.perm_iff_count]
  rintro ⟨key, factory⟩
  have dropped : (s.dropped move).Nodup := (NameMap.nodup_entries _).filter _
  have after := @find?_pending_of_move? κ s t move key factory moved
  have stores : (key, factory) ∈ s.stored move → _ := drops_of_mem_stored
  have invokes : (key, factory) ∈ s.invoked move → _ := pending_of_mem_invoked
  simp only [List.count_append, (nodup_stored _ _).count, (nodup_invoked _ _).count, dropped.count,
    (NameMap.nodup_entries _).count, NameMap.mem_entries_iff, mem_dropped_iff, after]
  grind

/-! ## Runs -/

/-- What a row of moves stores, and what was pending before it, has been invoked, has been dropped or
is still pending. -/
theorem perm_exposures {moves : List (Move κ)} (moved : s.moves? moves = some t) :
    (s.gather stored moves ++ s.registry.cache.pending.entries).Perm
      (s.gather invoked moves ++ s.gather dropped moves ++ t.registry.cache.pending.entries) := by
  apply perm_gather (fun _ => True) _ trivial moved
  intro s move t _ moved
  exact ⟨trivial, perm_exposure moved⟩

/-- A pending factory is pending exactly if it has been stored and what is pending under its key has
been neither dropped nor invoked since. -/
theorem pending_iff_everSince {name : Name} {allowOverriding : Bool} {ledger : Ledger}
    {moves : List (Move κ)} (moved : (begin name allowOverriding ledger).moves? moves = some t) :
    t.registry.cache.pending.find? key = some factory ↔
      (begin name allowOverriding ledger).EverSince
        (fun s move => (key, factory) ∈ s.stored move)
        (fun s move => s.drops key move = false ∧ (key, factory) ∉ s.invoked move) moves := by
  let start : Session κ := begin name allowOverriding ledger
  have new : start.registry.cache.pending.find? key ≠ some factory := by
    simp [start, begin, Registry.create]
  apply @holds_iff_everSince_of_not κ _ _ _
    (fun s => s.registry.cache.pending.find? key = some factory) _ _ _ _ new
    (start.along_true moves) moved
  intro s move t _ moved
  exact find?_pending_of_move? moved

/-- In every run, whatever the factories do while they run and however they come back, each pending
factory that has been stored has been invoked once, has been dropped or is still pending.  It is
invoked exactly when an early reference of its key is requested while the key is absent, is in
creation and has no early reference yet, and only if what is pending under the key has been neither
dropped nor invoked since it was stored; and a factory that is run without that is the one given to
the request that runs it. -/
theorem pending_factories_accounted_for {moves : List (Move κ)} {name : Name}
    {allowOverriding : Bool} {ledger : Ledger}
    (moved : (begin name allowOverriding ledger).moves? moves = some t) :
    let start : Session κ := begin name allowOverriding ledger
    (start.gather stored moves).Perm
        (start.gather invoked moves ++ start.gather dropped moves ++
          t.registry.cache.pending.entries) ∧
      ((start.gather stored moves).Nodup →
        (start.gather invoked moves).Nodup ∧
          ∀ entry ∈ start.gather dropped moves, entry ∉ start.gather invoked moves) ∧
      (∀ move key factory, (key, factory) ∈ t.invoked move ↔
        move = .call (.cache (.getEarly key)) ∧ t.registry.cache.get key = none ∧
          key ∈ t.registry.cache.tracker.inCreation ∧ key ∉ t.registry.cache.early ∧
          start.EverSince (fun s move => (key, factory) ∈ s.stored move)
            (fun s move => s.drops key move = false ∧ (key, factory) ∉ s.invoked move) moves) ∧
      ∀ move factory,
        (t.reply? move = some (.entered .factory factory) →
          (∃ key, move = .call (.cache (.getOrCreate key (some factory)))) ∨
            ∃ key, (key, factory) ∈ t.invoked move) ∧
        ∀ key, (key, factory) ∈ t.invoked move →
          t.reply? move = some (.entered .factory factory) := by
  intro start
  have account : (start.gather stored moves).Perm
      (start.gather invoked moves ++ start.gather dropped moves ++
        t.registry.cache.pending.entries) := by
    have account := perm_exposures (s := start) moved
    have nothing : start.registry.cache.pending.entries = [] := rfl
    rwa [nothing, List.append_nil] at account
  refine ⟨account, ?separate, ?invoked, ?entered⟩
  case separate =>
    intro distinct
    have parts := List.nodup_append.mp (List.nodup_append.mp (account.nodup_iff.mp distinct)).1
    constructor
    · exact parts.1
    · intro entry dropped invoked
      exact parts.2.2 entry invoked entry dropped rfl
  case invoked =>
    intro move key factory
    rw [mem_invoked_iff, pending_iff_everSince moved]
  case entered =>
    intro move factory
    exact ⟨own_or_pending_of_reply?, fun _ => reply?_of_mem_invoked⟩

/-- A pending factory that is replaced is not run, and neither is one that waits while its key is
not in creation.  The one that is run registers another one and throws; that one is run in turn,
although it makes nothing, and once only.  What is stored later is discarded when the creation
fails, evicted and cleared, and the last one is about to be run. -/
theorem pending_factories_run_in_turn :
    let start : Session Nat := begin "default" true {}
    let moves : List (Move Nat) := [.call (.cache (.registerPending "a" (some 1))),
      .call (.cache (.getEarly "a")), .call (.cache (.getOrCreate "a" (some 0))),
      .call (.cache (.registerPending "a" (some 2))), .call (.cache (.getEarly "a")),
      .call (.cache (.getEarly "a")), .call (.cache (.registerPending "a" (some 3))),
      .finish (.threw ⟨0, .foreign⟩), .call (.cache (.getEarly "a")), .finish (.returned none),
      .call (.cache (.getEarly "a")), .call (.cache (.registerPending "a" (some 4))),
      .finish (.threw ⟨1, .foreign⟩), .call (.cache (.registerPending "b" (some 5))),
      .call (.cache (.evict "b")), .call (.cache (.registerPending "c" (some 6))),
      .call (.cache .clear), .call (.cache (.getOrCreate "d" (some 7))),
      .call (.cache (.registerPending "d" (some 8)))]
    ∃ t, start.moves? moves = some t ∧
      start.gather invoked moves = [("a", 2), ("a", 3)] ∧
      start.gather dropped moves = [("a", 1), ("a", 4), ("b", 5), ("c", 6)] ∧
      t.registry.cache.pending.entries = [("d", 8)] ∧
      t.invoked (.call (.cache (.getEarly "d"))) = [("d", 8)] ∧
      (start.gather invoked moves).Nodup ∧
      (∀ entry ∈ start.gather dropped moves, entry ∉ start.gather invoked moves) ∧
      start.EverSince (fun s move => ("d", 8) ∈ s.stored move)
        (fun s move => s.drops "d" move = false ∧ ("d", 8) ∉ s.invoked move) moves := by
  intro start moves
  have run : (start.moves? moves).map (fun t => (t.registry.cache.pending.entries,
      t.invoked (.call (.cache (.getEarly "d"))))) = some ([("d", 8)], [("d", 8)]) := by
    decide +kernel
  have distinct : (start.gather stored moves).Nodup := by decide +kernel
  obtain ⟨t, moved, facts⟩ := Option.map_eq_some_iff.mp run
  obtain ⟨left, next⟩ := Prod.mk.inj facts
  obtain ⟨_, separate, invokes, _⟩ := pending_factories_accounted_for moved
  obtain ⟨once, never⟩ := separate distinct
  have member : ("d", 8) ∈ t.invoked (.call (.cache (.getEarly "d"))) := by simp [next]
  obtain ⟨_, _, _, _, since⟩ := (invokes _ "d" 8).mp member
  exact ⟨t, moved, by decide +kernel, by decide +kernel, left, next, once, never, since⟩

end Session

end Lifecycle
