import Lifecycle.Proofs.Creation.Stores
import Lifecycle.Registry.Run

/-!
# What a move does to the cache

A move of a session either answers at once or ends with a callback that is to be run, and it
changes the cache and the row of waiting calls in one of few ways.  `Session.Effect` lists them,
and `Session.effect_of_move?` says that there are no others; invariants of the cache are checked
against this list and never against the calls themselves.
-/

namespace Lifecycle

open Log

variable {κ : Type}

/-- The call that waits for a callback from now on, if there is one. -/
def Progress.frames : Progress κ → List (Frame κ)
  | answered _ => []
  | entered _ frame => [frame]

@[simp]
theorem Session.registry_after (stack : List (Frame κ)) (p : Registry κ × Progress κ) :
    (Session.after stack p).1.registry = p.1 := by
  rcases p with ⟨r, progress⟩
  cases progress <;> rfl

@[simp]
theorem Session.stack_after (stack : List (Frame κ)) (p : Registry κ × Progress κ) :
    (Session.after stack p).1.stack = p.2.frames ++ stack := by
  rcases p with ⟨r, progress⟩
  cases progress <;> rfl

/-! ## Teardowns -/

/-- Whether a call destroys anything. -/
def TeardownCall.Destroys : TeardownCall κ → Prop
  | registerDisposal _ _ | hasDisposal _ | disposalCount => False
  | destroy _ | destroyAll | retire | close => True

/-- What a teardown can make of a cache: it evicts keys, it may forget them all, and it may close
the registry for good. -/
inductive Cache.Torn (c : Cache κ) : Cache κ → Prop where
  | refl : Torn c c
  | evict {c' : Cache κ} (torn : Torn c c') (key : Name) : Torn c (c'.evict key)
  | clear {c' : Cache κ} (torn : Torn c c') : Torn c c'.clear
  | shut {c' : Cache κ} (torn : Torn c c') : Torn c { c' with inDestruction := true }

theorem Cache.Torn.tracker_eq {c c' : Cache κ} (torn : c.Torn c') : c'.tracker = c.tracker := by
  induction torn with
  | refl => rfl
  | evict _ _ ih | clear _ ih | shut _ ih => exact ih

/-- A teardown runs to its end or up to a disposal. -/
inductive Progress.Halts : Progress κ → Prop where
  | done : Halts (.answered (.ok .done))
  | disposing (callback : κ) (key : Name) (rest : List (Task κ)) :
      Halts (.entered callback (.disposing key rest))

theorem Progress.Halts.disposing_of_mem_frames {progress : Progress κ} (halts : progress.Halts) :
    ∀ frame ∈ progress.frames, ∃ key rest, frame = .disposing key rest := by
  cases halts with
  | done => simp [frames]
  | disposing callback key rest => simp [frames]

theorem Registry.value_teardown_destroy (r : Registry κ) (key : Name) (rest : List (Task κ)) :
    (r.teardown (.destroy key :: rest)).value =
      ((r.unlink key).2.teardown ((r.unlink key).1 ++ rest)).value := by
  rw [teardown]
  simp only
  split <;> rfl

theorem Registry.torn_teardown {c : Cache κ} (r : Registry κ) (tasks : List (Task κ))
    (torn : c.Torn r.cache) :
    c.Torn (r.teardown tasks).value.1.cache ∧ (r.teardown tasks).value.2.Halts := by
  induction r, tasks using Registry.teardown.induct with
  | case1 r =>
      rw [Registry.teardown]
      exact ⟨torn, .done⟩
  | case2 r key callback rest =>
      rw [Registry.teardown]
      exact ⟨torn, .disposing callback key rest⟩
  | case3 r key rest _ _ ih | case4 r key rest _ _ ih =>
      rw [value_teardown_destroy]
      exact ih (torn.evict key)
  | case5 r key rest ih =>
      rw [Registry.teardown]
      exact ih torn
  | case6 r key rest ih =>
      rw [Registry.teardown]
      exact ih torn
  | case7 r rest ih =>
      rw [Registry.teardown]
      exact ih torn.clear
  | case8 r rest ih =>
      rw [Registry.teardown]
      exact ih torn

/-! ## Moves -/

/-- What a move makes of the cache and the row of waiting calls. -/
inductive Session.Effect (c : Cache κ) (stack : List (Frame κ)) :
    Move κ → Cache κ → List (Frame κ) → Prop where
  /-- The move does not concern the cache, asks only, or is refused. -/
  | idle {move : Move κ} : Effect c stack move c stack
  | track {call : TrackerCall} {tracker : Tracker} {answer : Answer}
      (granted : (call.run c.tracker).value = .ok (tracker, answer)) :
      Effect c stack (.call (.tracker call)) { c with tracker } stack
  | take {key : Name} {factory : κ} {c' : Cache κ} (opened : c.openEarly key = .taken factory c') :
      Effect c stack (.call (.cache (.getEarly key))) c' (.exposing key :: stack)
  | start {key : Name} {factory : κ} {outermost : Bool} {c' : Cache κ}
      (opened : (c.openCreation key).value = .started outermost c') :
      Effect c stack (.call (.cache (.getOrCreate key (some factory)))) c'
        (.creating key outermost :: stack)
  | register {key : Name} {object : Instance} (keyNe : key ≠ "") (absent : c.get key = none) :
      Effect c stack (.call (.cache (.registerFinalized key (some object))))
        (c.finalize key object).value.2 stack
  | announce {key : Name} {factory : κ} :
      Effect c stack (.call (.cache (.registerPending key (some factory))))
        (c.registerPending key factory) stack
  | evict {key : Name} : Effect c stack (.call (.cache (.evict key))) (c.evict key) stack
  | suppress {fault : Fault} :
      Effect c stack (.call (.cache (.suppress (some fault)))) (c.suppress fault) stack
  | setInDestruction {value : Bool} :
      Effect c stack (.call (.cache (.setInDestruction value))) { c with inDestruction := value }
        stack
  | clear : Effect c stack (.call (.cache .clear)) c.clear stack
  /-- A teardown begins. -/
  | tear {call : TeardownCall κ} {c' : Cache κ} {above : List (Frame κ)}
      (destroys : call.Destroys) (torn : c.Torn c')
      (disposing : ∀ frame ∈ above, ∃ key rest, frame = .disposing key rest) :
      Effect c stack (.call (.teardown call)) c' (above ++ stack)
  /-- A factory comes back. -/
  | close {outcome : Outcome} {key : Name} {outermost : Bool} {rest : List (Frame κ)}
      {result : Except Fault Instance} {c' : Cache κ}
      (running : stack = .creating key outermost :: rest)
      (closing : c.Closing key outcome result c') : Effect c stack (.finish outcome) c' rest
  /-- A pending factory comes back with an early reference. -/
  | expose {object : Instance} {key : Name} {rest : List (Frame κ)}
      (running : stack = .exposing key :: rest) :
      Effect c stack (.finish (.returned (some object)))
        { c with early := c.early.insert key object } rest
  /-- A pending factory comes back with nothing. -/
  | withhold {outcome : Outcome} {key : Name} {rest : List (Frame κ)}
      (running : stack = .exposing key :: rest)
      (nothing : ∀ object, outcome ≠ .returned (some object)) :
      Effect c stack (.finish outcome) c rest
  /-- A disposal comes back, and its teardown goes on. -/
  | tearOn {outcome : Outcome} {key : Name} {tasks : List (Task κ)} {rest above : List (Frame κ)}
      {c' : Cache κ} (running : stack = .disposing key tasks :: rest) (torn : c.Torn c')
      (disposing : ∀ frame ∈ above, ∃ key rest, frame = .disposing key rest) :
      Effect c stack (.finish outcome) c' (above ++ rest)

namespace Registry

theorem effect_callCache (r : Registry κ) (stack : List (Frame κ)) (call : CacheCall κ) :
    Session.Effect r.cache stack (.call (.cache call)) (r.callCache call).value.1.cache
      ((r.callCache call).value.2.frames ++ stack) := by
  cases call with
  | getEarly key =>
      cases opened : r.cache.openEarly key with
      | known handle =>
          simp only [callCache, opened]
          exact .idle
      | taken factory c' =>
          simp only [callCache, opened]
          exact .take opened
  | getOrCreate key factory =>
      cases factory with
      | none => exact .idle
      | some factory =>
          cases opened : (r.cache.openCreation key).value with
          | found object =>
              simp only [callCache, Logged.value_bind, opened]
              exact .idle
          | refused cause =>
              simp only [callCache, Logged.value_bind, opened]
              exact .idle
          | started outermost c' =>
              simp only [callCache, Logged.value_bind, opened]
              exact .start opened
  | registerFinalized key handle =>
      simp only [callCache, Logged.value_bind]
      cases handle with
      | none =>
          rw [r.cache.registerFinalized_of_empty (.inr rfl)]
          exact .idle
      | some object =>
          by_cases keyEmpty : key = ""
          · rw [r.cache.registerFinalized_of_empty (.inl keyEmpty)]
            exact .idle
          · cases found : r.cache.get key with
            | none =>
                rw [r.cache.registerFinalized_of_absent object keyEmpty found]
                exact .register keyEmpty found
            | some existing =>
                rw [r.cache.registerFinalized_of_get object keyEmpty found]
                exact .idle
  | registerPending key factory =>
      cases factory with
      | none => exact .idle
      | some factory => exact .announce
  | evict key => exact .evict
  | suppress fault =>
      cases fault with
      | none => exact .idle
      | some fault => exact .suppress
  | setInDestruction value => exact .setInDestruction
  | clear => exact .clear
  | get | suppressedCount | contains | names | count | inDestruction => exact .idle

theorem effect_callTeardown (r : Registry κ) (stack : List (Frame κ)) (call : TeardownCall κ) :
    Session.Effect r.cache stack (.call (.teardown call)) (r.callTeardown call).value.1.cache
      ((r.callTeardown call).value.2.frames ++ stack) := by
  have runs : call.Destroys → ∀ (r' : Registry κ) (tasks : List (Task κ)), r.cache.Torn r'.cache →
      Session.Effect r.cache stack (.call (.teardown call)) (r'.teardown tasks).value.1.cache
        ((r'.teardown tasks).value.2.frames ++ stack) := by
    intro destroys r' tasks torn
    rcases r'.torn_teardown tasks torn with ⟨torn, halts⟩
    exact .tear destroys torn halts.disposing_of_mem_frames
  cases call with
  | registerDisposal | hasDisposal | disposalCount => exact .idle
  | destroy key => exact runs trivial r _ .refl
  | destroyAll | retire => exact runs trivial _ _ (.shut .refl)
  | close =>
      by_cases destroyed : r.destroyed
      · simp only [callTeardown, destroyed]
        exact .idle
      · simp only [callTeardown, destroyed]
        exact runs trivial _ _ (.shut .refl)

theorem effect_call (r : Registry κ) (stack : List (Frame κ)) (call : Call κ) :
    Session.Effect r.cache stack (.call call) (r.call call).value.1.cache
      ((r.call call).value.2.frames ++ stack) := by
  cases call with
  | name => exact .idle
  | aliases call => exact .idle
  | tracker call =>
      cases granted : (call.run r.cache.tracker).value with
      | error cause =>
          simp only [Registry.call, Logged.value_bind, granted]
          exact .idle
      | ok result =>
          simp only [Registry.call, Logged.value_bind, granted]
          exact .track granted
  | cache call => exact r.effect_callCache stack call
  | graph call => exact .idle
  | teardown call => exact r.effect_callTeardown stack call

theorem effect_resume (r : Registry κ) (outcome : Outcome) (frame : Frame κ)
    (stack : List (Frame κ)) :
    Session.Effect r.cache (frame :: stack) (.finish outcome)
      (r.resume outcome frame).value.1.cache ((r.resume outcome frame).value.2.frames ++ stack) := by
  cases frame with
  | creating key outermost =>
      exact .close rfl (r.cache.closing_closeCreation r.ledger key outermost outcome)
  | exposing key =>
      cases outcome with
      | threw fault => exact .withhold rfl (by simp)
      | returned handle =>
          cases handle with
          | none => exact .withhold rfl (by simp)
          | some object => exact .expose rfl
  | disposing key tasks =>
      rcases r.torn_teardown tasks .refl with ⟨torn, halts⟩
      exact .tearOn rfl torn halts.disposing_of_mem_frames

end Registry

/-- A move does nothing to the cache and the waiting calls but what is listed. -/
theorem Session.effect_of_move? {s t : Session κ} {move : Move κ} (moved : s.move? move = some t) :
    Session.Effect s.registry.cache s.stack move t.registry.cache t.stack := by
  cases move with
  | call c =>
      obtain rfl := Option.some.inj moved
      simpa [Session.call] using s.registry.effect_call s.stack c
  | finish outcome =>
      rcases move?_finish_eq_some_iff.mp moved with ⟨frame, rest, running, rfl⟩
      simpa [running] using s.registry.effect_resume outcome frame rest
  | raise cause =>
      obtain rfl := Option.some.inj moved
      exact .idle
  | attach fault others =>
      obtain rfl := Option.some.inj moved
      exact .idle

namespace Session

/-- What holds of the cache and the waiting calls after each effect of a move holds after the
move. -/
theorem of_effect {s t : Session κ} {move : Move κ} (holds : Cache κ → List (Frame κ) → Prop)
    (moved : s.move? move = some t)
    (effects : ∀ c' stack', Effect s.registry.cache s.stack move c' stack' → holds c' stack') :
    holds t.registry.cache t.stack :=
  effects _ _ (effect_of_move? moved)

/-- A call that leaves the registry as it is leaves the session as it is. -/
theorem call_eq_self {s : Session κ} {c : Call κ} {result : Except Fault Answer}
    (same : (s.registry.call c).value = (s.registry, .answered result)) :
    (s.call c).value = (s, .answered result) := by
  simp [call, same, after]

/-- When a factory comes back, the request that waits for it is answered. -/
theorem finish?_of_creating {s : Session κ} {key : Name} {outermost : Bool}
    {rest : List (Frame κ)} (running : s.stack = .creating key outermost :: rest)
    (outcome : Outcome) :
    let closed := (s.registry.cache.closeCreation s.registry.ledger key outermost outcome).value
    (s.finish? outcome).map (·.value) =
      some (⟨{ s.registry with cache := closed.2.1, ledger := closed.2.2 }, rest⟩,
        .answered (closed.1.map fun object => .handle (some object))) := by
  simp [finish?, running, Registry.resume, after]

theorem move?_finish_of_creating {s t : Session κ} {key : Name} {outermost : Bool}
    {rest : List (Frame κ)} {outcome : Outcome}
    (running : s.stack = .creating key outermost :: rest)
    (moved : s.move? (.finish outcome) = some t) :
    let closed := (s.registry.cache.closeCreation s.registry.ledger key outermost outcome).value
    t = ⟨{ s.registry with cache := closed.2.1, ledger := closed.2.2 }, rest⟩ := by
  rcases move?_finish_eq_some_iff.mp moved with ⟨frame, below, waiting, rfl⟩
  rcases List.cons.inj (running.symm.trans waiting) with ⟨rfl, rfl⟩
  rfl

end Session

end Lifecycle
