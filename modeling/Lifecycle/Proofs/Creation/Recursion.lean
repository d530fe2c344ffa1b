import Lifecycle.Proofs.Creation.Growth
import Lifecycle.Proofs.Session.Routines
import Mathlib.Data.Finset.Card

/-!
# Factories that request each other

Factories may request instances whose factories request instances in turn, and nothing but the
tracker keeps them from going on like this for ever.  Each factory that is entered by a request
takes a key that is in creation from then on, and each pending factory that is entered has been
taken out of its store; so there is less room for the next one (`Session.room`), and every request is
answered (`Routine.requests_answered`).  On the way the creations that are under way are those of
distinct keys that have been requested (`Session.Nested`), and a request that comes back to the key
that it has started from is refused.
-/

namespace Lifecycle

open Log

variable {μ κ : Type}

/-! ## Requests and look-ups -/

/-- Whether a call only looks something up. -/
def Call.LooksUp : Call κ → Prop
  | .name => True
  | .aliases (.isAlias _) | .aliases (.hasAlias _ _) | .aliases (.aliasesOf _)
  | .aliases (.canonical _) | .aliases .overriding => True
  | .tracker (.isCurrent _) | .tracker (.isActual _) | .tracker (.isExcluded _) => True
  | .cache (.get _) | .cache (.getEarly _) | .cache .suppressedCount | .cache (.contains _)
  | .cache .names | .cache .count | .cache .inDestruction => True
  | .graph (.isDependent _ _) | .graph (.hasDependents _) | .graph (.dependentsOf _)
  | .graph (.dependenciesOf _) | .graph (.containedOf _) => True
  | .teardown (.hasDisposal _) | .teardown .disposalCount => True
  | _ => False

/-- Whether a call requests an instance of one of some keys, or only looks something up. -/
def Call.Requests (keys : List Name) : Call κ → Prop
  | .cache (.getOrCreate key _) => key ∈ keys
  | c => c.LooksUp

theorem Call.requests_iff {keys : List Name} {c : Call κ} :
    c.Requests keys ↔
      (∃ key factory, c = .cache (.getOrCreate key factory) ∧ key ∈ keys) ∨ c.LooksUp := by
  constructor
  · intro requests
    cases c with
    | cache c =>
        cases c with
        | getOrCreate key factory => exact .inl ⟨key, factory, rfl, requests⟩
        | _ => exact .inr requests
    | _ => exact .inr requests
  · rintro (⟨key, factory, rfl, requested⟩ | looksUp)
    · exact requested
    · cases c with
      | cache c =>
          cases c with
          | getOrCreate key factory => exact looksUp.elim
          | _ => exact looksUp
      | _ => exact looksUp

/-- A look-up is answered at once, and leaves everything as it is, unless it asks for the early
reference of a key whose pending factory is to be run. -/
theorem Call.LooksUp.replies {c : Call κ} (looksUp : c.LooksUp) (s : Session κ) :
    (∃ answer, (s.call c).value = (s, .answered (.ok answer))) ∨
      ∃ key factory cache, c = .cache (.getEarly key) ∧
        s.registry.cache.openEarly key = .taken factory cache := by
  cases c with
  | name => exact .inl ⟨_, rfl⟩
  | aliases c => cases c <;> first | exact looksUp.elim | exact .inl ⟨_, rfl⟩
  | tracker c => cases c <;> first | exact looksUp.elim | exact .inl ⟨_, rfl⟩
  | graph c => cases c <;> first | exact looksUp.elim | exact .inl ⟨_, rfl⟩
  | teardown c => cases c <;> first | exact looksUp.elim | exact .inl ⟨_, rfl⟩
  | cache c =>
      cases c with
      | getEarly key =>
          cases opened : s.registry.cache.openEarly key with
          | known handle =>
              exact .inl ⟨.handle handle, Session.call_eq_self (by
                simp [Registry.call, Registry.callCache, opened, Registry.answer])⟩
          | taken factory cache => exact .inr ⟨key, factory, cache, rfl, opened⟩
      | get | suppressedCount | contains | names | count | inDestruction => exact .inl ⟨_, rfl⟩
      | _ => exact looksUp.elim

/-- A request that begins a creation enters the factory. -/
theorem Session.call_of_started (s : Session κ) {key : Name} (factory : κ) {outermost : Bool}
    {cache : Cache κ} (opened : (s.registry.cache.openCreation key).value = .started outermost cache) :
    (s.call (.cache (.getOrCreate key (some factory)))).value =
      (⟨{ s.registry with cache }, .creating key outermost :: s.stack⟩,
        .entered .factory factory) := by
  simp [call, Registry.call, Registry.callCache, opened, after, Frame.role]

/-- The calls that enter factories, and what they make of the session. -/
theorem Call.Requests.enters {keys : List Name} {c : Call κ} (requests : c.Requests keys)
    {s : Session κ} {role : Role} {callback : κ}
    (entered : (s.call c).value.2 = .entered role callback) :
    role = .factory ∧
      ((∃ key outermost cache, c = .cache (.getOrCreate key (some callback)) ∧ key ∈ keys ∧
          (s.registry.cache.openCreation key).value = .started outermost cache ∧
          (s.call c).value.1 =
            ⟨{ s.registry with cache }, .creating key outermost :: s.stack⟩) ∨
        ∃ key cache, c = .cache (.getEarly key) ∧
          s.registry.cache.openEarly key = .taken callback cache ∧
          (s.call c).value.1 = ⟨{ s.registry with cache }, .exposing key :: s.stack⟩) := by
  rcases Call.requests_iff.mp requests with ⟨key, factory, rfl, requested⟩ | looksUp
  · cases factory with
    | none =>
        simp [Session.call, Registry.call, Registry.callCache, Registry.raise, Session.after]
          at entered
    | some factory =>
        cases opened : (s.registry.cache.openCreation key).value with
        | found object =>
            simp [Session.call, Registry.call, Registry.callCache, opened, Registry.answer,
              Session.after] at entered
        | refused cause =>
            simp [Session.call, Registry.call, Registry.callCache, opened, Registry.raise,
              Session.after] at entered
        | started outermost cache =>
            have value := s.call_of_started factory opened
            rw [value] at entered ⊢
            obtain ⟨rfl, rfl⟩ := Reply.entered.inj entered
            exact ⟨rfl, .inl ⟨key, outermost, cache, rfl, requested, opened, rfl⟩⟩
  · rcases looksUp.replies s with ⟨answer, answered⟩ | ⟨key, factory, cache, rfl, opened⟩
    · rw [answered] at entered
      exact absurd entered (by simp)
    · have value : (s.call (.cache (.getEarly key))).value =
          (⟨{ s.registry with cache }, .exposing key :: s.stack⟩, .entered .factory factory) := by
        simp [Session.call, Registry.call, Registry.callCache, opened, Session.after, Frame.role]
      rw [value] at entered ⊢
      obtain ⟨rfl, rfl⟩ := Reply.entered.inj entered
      exact ⟨rfl, .inr ⟨key, cache, rfl, opened, rfl⟩⟩

/-! ## Nested creations -/

/-- The end of a creation leaves no more pending factories than before. -/
theorem Cache.Closing.size_pending_le {c c' : Cache κ} {key : Name} {outcome : Outcome}
    {result : Except Fault Instance} {tracker : Tracker}
    (closing : c.Closing key outcome result c')
    (passed : (c.tracker.finish key).value = .ok tracker) : c'.pending.size ≤ c.pending.size := by
  rw [closing.pending_of_passed passed]
  split
  · exact List.length_filter_le _ _
  · exact Nat.le_refl _

namespace Session

/-- How a session stands while requests and look-ups are made above a row of waiting calls: only
factories are running, those of requests for distinct keys that have been requested and were not in
creation before, and no pending factory has come in. -/
structure Nested (keys : List Name) (s : Session κ) (below above : List (Frame κ)) (t : Session κ) :
    Prop where
  stack : t.stack = above ++ below
  factories : ∀ frame ∈ above, frame.role = .factory
  tracker : t.registry.cache.tracker.Extends s.registry.cache.tracker.inCreation
    (Frame.creations above)
  requested : ∀ key ∈ Frame.creations above, key ∈ keys
  pending : t.registry.cache.pending.size ≤ s.registry.cache.pending.size

variable {keys : List Name} {s t u : Session κ} {below above : List (Frame κ)} {move : Move κ}

theorem Nested.refl (unexcluded : s.registry.cache.tracker.excluded = ∅) :
    s.Nested keys s.stack [] s where
  stack := rfl
  factories := by simp
  tracker := .refl unexcluded
  requested := by simp [Frame.creations]
  pending := Nat.le_refl _

/-- The innermost of the calls above a row of waiting ones. -/
theorem exists_cons_of_waitsAbove {frame : Frame κ} {rest : List (Frame κ)}
    (stack : t.stack = above ++ below) (waits : t.WaitsAbove below)
    (running : t.stack = frame :: rest) : ∃ above', above = frame :: above' ∧ rest = above' ++ below := by
  rw [WaitsAbove, stack] at waits
  rw [stack] at running
  cases above with
  | nil => exact absurd waits (Nat.lt_irrefl _)
  | cons frame' above' =>
      obtain ⟨rfl, rfl⟩ := List.cons.inj running
      exact ⟨above', rfl, rfl⟩

theorem Nested.move? (nested : s.Nested keys below above t)
    (within : t.Within (Call.Requests keys) below move) (moved : t.move? move = some u) :
    ∃ above', s.Nested keys below above' u := by
  obtain ⟨stack, factories, tracker, requested, pending⟩ := nested
  have kept : ∃ above', u.stack = above' ++ below ∧ (∀ frame ∈ above', frame.role = .factory) ∧
      u.registry.cache.tracker.Extends s.registry.cache.tracker.inCreation
        (Frame.creations above') ∧
      (∀ key ∈ Frame.creations above', key ∈ keys) ∧
      u.registry.cache.pending.size ≤ s.registry.cache.pending.size := by
    apply of_effect (fun c' stack' => ∃ above', stack' = above' ++ below ∧
      (∀ frame ∈ above', frame.role = .factory) ∧
      c'.tracker.Extends s.registry.cache.tracker.inCreation (Frame.creations above') ∧
      (∀ key ∈ Frame.creations above', key ∈ keys) ∧
      c'.pending.size ≤ s.registry.cache.pending.size) moved
    intro c' stack' effect
    cases effect with
    | idle => exact ⟨above, stack, factories, tracker, requested, pending⟩
    | @track call tracker' answer granted =>
        have same : tracker' = t.registry.cache.tracker := by
          cases call <;> first
            | exact within.elim
            | exact ((Prod.mk.inj (Except.ok.inj granted)).1).symm
        subst same
        exact ⟨above, stack, factories, tracker, requested, pending⟩
    | take opened =>
        obtain ⟨-, -, -, -, rfl⟩ := Cache.eq_of_openEarly opened
        refine ⟨_ :: above, congrArg _ stack, List.forall_mem_cons.mpr ⟨rfl, factories⟩, tracker,
          requested, ?_⟩
        exact Nat.le_trans (List.length_filter_le _ _) pending
    | start opened =>
        obtain ⟨-, -, -, tracker', started, rfl⟩ := Cache.eq_of_openCreation opened
        exact ⟨_ :: above, congrArg _ stack, List.forall_mem_cons.mpr ⟨rfl, factories⟩,
          tracker.start started, List.forall_mem_cons.mpr ⟨within, requested⟩, pending⟩
    | register | announce | evict | suppress | setInDestruction | clear => exact within.elim
    | @tear call _ _ destroys =>
        cases call <;> first | exact within.elim | exact destroys.elim
    | close running closing =>
        obtain ⟨above', rfl, rfl⟩ := exists_cons_of_waitsAbove stack within running
        obtain ⟨tracker', passed, tracker⟩ := tracker.finish
        refine ⟨above', rfl, (List.forall_mem_cons.mp factories).2, ?_,
          (List.forall_mem_cons.mp requested).2, ?_⟩
        · rw [closing.tracker_eq passed]
          exact tracker
        · exact Nat.le_trans (closing.size_pending_le passed) pending
    | expose running | withhold running =>
        obtain ⟨above', rfl, rfl⟩ := exists_cons_of_waitsAbove stack within running
        exact ⟨above', rfl, (List.forall_mem_cons.mp factories).2, tracker, requested, pending⟩
    | tearOn running =>
        obtain ⟨above', rfl, rfl⟩ := exists_cons_of_waitsAbove stack within running
        have role := factories _ List.mem_cons_self
        simp [Frame.role] at role
  obtain ⟨above', stack', factories', tracker', requested', pending'⟩ := kept
  exact ⟨above', stack', factories', tracker', requested', pending'⟩

/-- What is between two sessions of a row of requests and look-ups. -/
theorem Nested.moves? {moves : List (Move κ)} (nested : s.Nested keys below above t)
    (along : t.Along (Within (Call.Requests keys) below) moves) (moved : t.moves? moves = some u) :
    ∃ above', s.Nested keys below above' u := by
  have start : ∃ above', s.Nested keys below above' t := ⟨above, nested⟩
  apply along.invariant _ start moved
  rintro v move w ⟨_, held⟩ within moved
  exact held.move? within moved

/-! ## Room -/

/-- For how many factories there is room above those that are running: one for each key that can be
requested and is not in creation, and one for each pending factory. -/
def room (keys : List Name) (s : Session κ) : Nat :=
  (keys.filter (· ∉ s.registry.cache.tracker.inCreation)).length + s.registry.cache.pending.size

theorem room_le (keys : List Name) (s : Session κ) :
    s.room keys ≤ keys.length + s.registry.cache.pending.size :=
  Nat.add_le_add_right (List.length_filter_le _ _) _

/-- When a row of requests and look-ups is over, the tracker is as before, and there is no more room
than before. -/
theorem Nested.of_returned (nested : s.Nested keys below above t)
    (unexcluded : s.registry.cache.tracker.excluded = ∅) (returned : t.stack = below) :
    t.registry.cache.tracker = s.registry.cache.tracker ∧ t.room keys ≤ s.room keys := by
  have idle : above = [] := by
    have length := congrArg List.length (nested.stack.symm.trans returned)
    rw [List.length_append] at length
    exact List.length_eq_zero_iff.mp (Nat.add_eq_right.mp length)
  have tracker : t.registry.cache.tracker = s.registry.cache.tracker := by
    have tracking := nested.tracker
    rw [idle] at tracking
    exact tracking.eq_of_idle unexcluded
  refine ⟨tracker, ?_⟩
  rw [room, room, tracker]
  exact Nat.add_le_add_left nested.pending _

private theorem length_filter_lt {p q : Name → Bool} (fewer : ∀ key, q key = true → p key = true)
    {key : Name} (member : key ∈ keys) (before : p key = true) (lost : q key = false) :
    (keys.filter q).length < (keys.filter p).length := by
  have part : keys.filter q = (keys.filter p).filter q := by
    rw [List.filter_filter]
    apply List.filter_congr
    intro k _
    cases held : q k with
    | true => simp [fewer k held]
    | false => rfl
  rw [part]
  exact List.length_filter_lt_length_iff_exists.mpr
    ⟨key, List.mem_filter.mpr ⟨member, before⟩, by simp [lost]⟩

/-- A request or a look-up that enters a factory leaves less room for the next one. -/
theorem room_lt_of_entered (unexcluded : s.registry.cache.tracker.excluded = ∅) {c : Call κ}
    (requests : c.Requests keys) {role : Role} {callback : κ}
    (entered : (s.call c).value.2 = .entered role callback) :
    (s.call c).value.1.room keys < s.room keys := by
  obtain ⟨-, ⟨key, outermost, cache, -, requested, opened, session⟩ |
    ⟨key, cache, -, opened, session⟩⟩ := requests.enters entered
  · obtain ⟨-, -, -, tracker, started, rfl⟩ := Cache.eq_of_openCreation opened
    have watched : key ∉ s.registry.cache.tracker.excluded := by
      rw [unexcluded]
      exact NameMap.not_mem_empty key
    have idle : key ∉ s.registry.cache.tracker.inCreation := by
      intro running
      simp [Tracker.start, watched, running] at started
    have taken : key ∈ tracker.inCreation :=
      (Tracker.mem_start_iff started).mpr (.inr ⟨rfl, watched⟩)
    rw [session]
    apply Nat.add_lt_add_right
    apply length_filter_lt _ requested (decide_eq_true idle)
      (decide_eq_false (not_not_intro taken))
    intro k free
    exact decide_eq_true fun running =>
      of_decide_eq_true free ((Tracker.mem_start_iff started).mpr (.inl running))
  · obtain ⟨-, -, -, pending, rfl⟩ := Cache.eq_of_openEarly opened
    rw [session]
    exact Nat.add_lt_add_left (NameMap.size_erase_lt pending) _

end Session

/-- When a factory comes back, the call that waits for it is answered. -/
theorem Registry.answered_of_factory {frame : Frame κ} (factory : frame.role = .factory)
    (r : Registry κ) (outcome : Outcome) :
    ∃ result, (r.resume outcome frame).value.2 = .answered result := by
  cases frame with
  | creating key outermost => exact ⟨_, rfl⟩
  | exposing key =>
      cases outcome with
      | returned handle => exact ⟨_, rfl⟩
      | threw fault => exact ⟨_, rfl⟩
  | disposing => exact absurd factory (by simp [Frame.role])

/-! ## Requests are answered -/

namespace Routine

/-- The factories of a family request instances of certain keys and look things up. -/
def RequestFamily (family : Role → κ → Routine μ κ) (keys : List Name) : Prop :=
  ∀ c, (family .factory c).Only (Call.Requests keys)

variable {family : Role → κ → Routine μ κ} {keys : List Name} {h t : History μ κ} {bound : Nat}

theorem RequestFamily.confined (requests : RequestFamily family keys) :
    Confined family (Call.Requests keys) (· = .factory) where
  routines := by
    rintro _ c rfl
    exact requests c
  calls _ _ _ _ permitted entered := (permitted.enters entered).1

/-- After requests and look-ups that have all been answered, the tracker is as before. -/
theorem Restores.kept (unexcluded : h.session.registry.cache.tracker.excluded = ∅)
    (restores : Restores (Call.Requests keys) h.session.stack h t) :
    t.session.registry.cache.tracker = h.session.registry.cache.tracker ∧
      t.session.room keys ≤ h.session.room keys := by
  obtain ⟨⟨made, -, reached, along⟩, returned⟩ := restores
  obtain ⟨above, nested⟩ := (Session.Nested.refl unexcluded).moves? along reached
  exact nested.of_returned unexcluded returned

/-- Settling a call that has entered a factory is running the factory and coming back from it. -/
theorem answerTo_of_entered (requests : RequestFamily family keys) {c : Call κ} {callback : κ}
    (entered : (h.session.call c).value.2 = .entered .factory callback)
    {outcome : Outcome} {u : History μ κ}
    (ran : Routine.callback family (bound + 1) .factory callback
      (h.moved (.call c) (h.session.call c).value.1) = some (outcome, u)) :
    ∃ frame result, frame.role = .factory ∧
      (h.session.call c).value.1.stack = frame :: h.session.stack ∧
      u.session.stack = frame :: h.session.stack ∧
      (u.session.registry.resume outcome frame).value.2 = .answered result ∧
      answerTo family (bound + 1) c h = some (result, u.moved (.finish outcome)
        ⟨(u.session.registry.resume outcome frame).value.1, h.session.stack⟩) := by
  have waits := Session.waits_call h.session c
  rw [entered] at waits
  obtain ⟨frame, role, waiting⟩ := waits
  have restored : u.session.stack = frame :: h.session.stack :=
    (restores_callback requests.confined rfl ran).2.trans waiting
  obtain ⟨result, answered⟩ :=
    Registry.answered_of_factory role u.session.registry outcome
  refine ⟨frame, result, role, waiting, restored, answered, ?_⟩
  rw [answerTo_eq, entered, settle, settle_entered, ran, Option.bind_some, History.finish,
    Session.finish?_of_stack restored]
  simp only [Option.map_some, Option.bind_some, Logged.value_map]
  generalize (u.session.registry.resume outcome frame).value = p at answered ⊢
  rcases p with ⟨r, progress⟩
  cases answered
  cases bound <;> rfl

theorem answerTo_of_answered {c : Call κ} {result : Except Fault Answer}
    (answered : (h.session.call c).value.2 = .answered result) :
    answerTo family bound c h =
      some (result, h.moved (.call c) (h.session.call c).value.1) := by
  rw [answerTo_eq, answered]
  cases bound <;> rfl

/-- A call is answered if there is room for the factories that it can enter. -/
theorem exists_answerTo (requests : RequestFamily family keys)
    (callbacks : ∀ c (h : History μ κ), h.session.registry.cache.tracker.excluded = ∅ →
      h.session.room keys < bound → ∃ ran, callback family bound .factory c h = some ran)
    (unexcluded : h.session.registry.cache.tracker.excluded = ∅)
    (enough : h.session.room keys ≤ bound) {c : Call κ} (permitted : c.Requests keys) :
    ∃ answered, answerTo family bound c h = some answered := by
  cases replied : (h.session.call c).value.2 with
  | answered result => exact ⟨_, answerTo_of_answered replied⟩
  | entered role callback =>
      obtain ⟨rfl, -⟩ := permitted.enters replied
      have room := Nat.lt_of_lt_of_le
        (Session.room_lt_of_entered unexcluded permitted replied) enough
      obtain ⟨bound, rfl⟩ := Nat.exists_eq_add_of_lt (Nat.lt_of_le_of_lt (Nat.zero_le _) room)
      have within : h.session.Within (Call.Requests keys) h.session.stack (.call c) := permitted
      obtain ⟨above, nested⟩ := (Session.Nested.refl unexcluded).move? within rfl
      obtain ⟨⟨outcome, u⟩, ran⟩ := callbacks callback
        (h.moved (.call c) (h.session.call c).value.1) nested.tracker.excluded room
      rw [Nat.zero_add] at ran ⊢
      obtain ⟨frame, result, -, -, -, -, answered⟩ := answerTo_of_entered requests replied ran
      exact ⟨_, answered⟩

theorem exists_run (requests : RequestFamily family keys)
    (callbacks : ∀ c (h : History μ κ), h.session.registry.cache.tracker.excluded = ∅ →
      h.session.room keys < bound → ∃ ran, callback family bound .factory c h = some ran)
    (unexcluded : h.session.registry.cache.tracker.excluded = ∅)
    (enough : h.session.room keys ≤ bound) {routine : Routine μ κ}
    (only : routine.Only (Call.Requests keys)) :
    ∃ ran, routine.run (settle family bound) h = some ran := by
  induction routine generalizing h with
  | ends outcome => exact ⟨_, rfl⟩
  | call c next ih =>
      obtain ⟨permitted, onward⟩ := only
      obtain ⟨⟨result, u⟩, answered⟩ :=
        exists_answerTo requests callbacks unexcluded enough permitted
      obtain ⟨tracker, room⟩ :=
        (restores_answerTo requests.confined permitted answered).kept unexcluded
      rw [answerTo_eq] at answered
      rw [run_call, answered, Option.bind_some]
      exact ih result (by rw [tracker, unexcluded]) (Nat.le_trans room enough) (onward result)
  | raise cause next ih =>
      rw [run_raise]
      exact ih _ unexcluded enough (only _)
  | attach fault others next ih =>
      rw [run_attach]
      exact ih unexcluded enough only
  | consult next ih =>
      rw [run_consult]
      exact ih _ unexcluded enough (only _)
  | remember memory next ih =>
      rw [run_remember]
      exact ih unexcluded enough only

theorem exists_callback (requests : RequestFamily family keys) (bound : Nat) (c : κ)
    (unexcluded : h.session.registry.cache.tracker.excluded = ∅)
    (room : h.session.room keys < bound) :
    ∃ ran, callback family bound .factory c h = some ran := by
  induction bound generalizing c h with
  | zero => exact absurd room (Nat.not_lt_zero _)
  | succ bound ih =>
      rw [callback_succ]
      exact exists_run (h := h.invoke .factory c) requests
        (fun c h unexcluded room => ih c unexcluded room) unexcluded (Nat.le_of_lt_succ room)
        (requests c)

end Routine

/-! ## How deep creations nest -/

/-- The keys that a row of moves requests, once for each request. -/
def Move.requested (moves : List (Move κ)) : List Name :=
  moves.filterMap fun
    | .call (.cache (.getOrCreate key _)) => some key
    | _ => none

namespace Session

variable {keys : List Name} {s t : Session κ} {moves : List (Move κ)} {below : List (Frame κ)}

/-- Requests for some keys are requests for those keys that are requested. -/
theorem Along.requested (along : s.Along (Within (Call.Requests keys) below) moves)
    {wanted : List Name} (all : Move.requested moves ⊆ wanted) :
    s.Along (Within (Call.Requests wanted) below) moves := by
  induction moves generalizing s with
  | nil => trivial
  | cons move rest ih =>
      obtain ⟨first, onward⟩ := along
      have all' : Move.requested rest ⊆ wanted := by
        apply List.Subset.trans _ all
        exact List.filterMap_subset _ (List.subset_cons_self move rest)
      refine ⟨?_, fun t moved => ih (onward t moved) all'⟩
      cases move with
      | call c =>
          rcases Call.requests_iff.mp first with ⟨key, factory, rfl, -⟩ | looksUp
          · exact all List.mem_cons_self
          · exact Call.requests_iff.mpr (.inr looksUp)
      | finish | raise | attach => exact first

/-- The creations that are under way above a row of waiting calls are no more than the keys that have
been requested, each counted once. -/
theorem nested_requested (unexcluded : s.registry.cache.tracker.excluded = ∅)
    (along : s.Along (Within (Call.Requests keys) s.stack) moves) (moved : s.moves? moves = some t) :
    ∃ above, t.stack = above ++ s.stack ∧
      (Frame.creations above).length ≤ (Move.requested moves).toFinset.card := by
  obtain ⟨above, nested⟩ :=
    (Nested.refl unexcluded).moves? (along.requested (List.Subset.refl _)) moved
  refine ⟨above, nested.stack, ?_⟩
  rw [← List.toFinset_card_of_nodup nested.tracker.distinct]
  apply Finset.card_le_card
  intro key creating
  rw [List.mem_toFinset] at creating ⊢
  exact nested.requested key creating

end Session

/-! ## Rows of factories -/

namespace Routine

/-- A routine asks for a key with a factory before it asks for anything else, and throws what this
request throws.  What it looks up before does not lead to a factory that is pending. -/
inductive AsksFirst (pending : NameMap κ) (key : Name) (factory : κ) : Routine μ κ → Prop where
  | asks {next : Except Fault Answer → Routine μ κ}
      (uncaught : ∀ fault, next (.error fault) = .ends (.threw fault)) :
      AsksFirst pending key factory (.call (.cache (.getOrCreate key (some factory))) next)
  | looks {c : Call κ} {next : Except Fault Answer → Routine μ κ} (looksUp : c.LooksUp)
      (spared : ∀ k, c = .cache (.getEarly k) → pending.find? k = none)
      (onward : ∀ answer, AsksFirst pending key factory (next (.ok answer))) :
      AsksFirst pending key factory (.call c next)
  | raise (cause : Cause) {next : Fault → Routine μ κ}
      (onward : ∀ fault, AsksFirst pending key factory (next fault)) :
      AsksFirst pending key factory (.raise cause next)
  | attach (fault : Fault) (others : List Fault) {next : Routine μ κ}
      (onward : AsksFirst pending key factory next) :
      AsksFirst pending key factory (.attach fault others next)
  | consult {next : μ → Routine μ κ}
      (onward : ∀ memory, AsksFirst pending key factory (next memory)) :
      AsksFirst pending key factory (.consult next)
  | remember (memory : μ) {next : Routine μ κ} (onward : AsksFirst pending key factory next) :
      AsksFirst pending key factory (.remember memory next)

/-- Each factory of a row asks first for the next key with the next factory, and the last one for a
goal. -/
def Chase (family : Role → κ → Routine μ κ) (pending : NameMap κ) (goal : Name) :
    κ → List (Name × κ) → Prop
  | factory, [] => ∃ any, (family .factory factory).AsksFirst pending goal any
  | factory, (key, next) :: rest =>
      (family .factory factory).AsksFirst pending key next ∧ Chase family pending goal next rest

variable {family : Role → κ → Routine μ κ} {keys : List Name} {h t : History μ κ} {bound : Nat}
  {key goal : Name} {factory : κ} {cause : Cause}

/-- A request fails for some cause. -/
def RequestFails (family : Role → κ → Routine μ κ) (bound : Nat) (key : Name) (factory : κ)
    (cause : Cause) (h : History μ κ) : Prop :=
  ∃ fault t, answerTo family bound (.cache (.getOrCreate key (some factory))) h =
    some (.error fault, t) ∧ fault.cause = cause

/-- A routine throws what its first request throws. -/
theorem AsksFirst.throws {pending : NameMap κ} {routine : Routine μ κ}
    (asks : routine.AsksFirst pending key factory) {cache : Cache κ}
    (held : h.session.registry.cache = cache) (waiting : cache.pending = pending)
    (fails : ∀ h' : History μ κ, h'.session.registry.cache = cache →
      RequestFails family bound key factory cause h') :
    ∃ fault u, routine.run (settle family bound) h = some (.threw fault, u) ∧
      fault.cause = cause := by
  induction asks generalizing h with
  | asks uncaught =>
      obtain ⟨fault, u, failed, because⟩ := fails h held
      rw [answerTo_eq] at failed
      rw [run_call, failed, Option.bind_some, uncaught]
      exact ⟨fault, u, rfl, because⟩
  | @looks c next looksUp spared onward ih =>
      rcases looksUp.replies h.session with ⟨answer, answered⟩ | ⟨k, taken, cache', rfl, opened⟩
      · have replied : answerTo family bound c h =
            some (.ok answer, h.moved (.call c) (h.session.call c).value.1) :=
          answerTo_of_answered (congrArg Prod.snd answered)
        rw [answerTo_eq] at replied
        rw [run_call, replied, Option.bind_some, answered]
        exact ih answer held
      · obtain ⟨-, -, -, found, -⟩ := Cache.eq_of_openEarly opened
        rw [held, waiting, spared k rfl] at found
        exact absurd found (by simp)
  | raise cause' onward ih =>
      rw [run_raise]
      exact ih _ held
  | attach fault others onward ih =>
      rw [run_attach]
      exact ih held
  | consult onward ih =>
      rw [run_consult]
      exact ih _ held
  | remember memory onward ih =>
      rw [run_remember]
      exact ih held

/-- A request fails with what its factory throws, unless that is a complaint about a state. -/
theorem requestFails_of_threw (requests : RequestFamily family keys)
    (unexcluded : h.session.registry.cache.tracker.excluded = ∅)
    {outermost : Bool} {cache : Cache κ}
    (opened : (h.session.registry.cache.openCreation key).value = .started outermost cache)
    {fault : Fault} {u : History μ κ} (legal : fault.cause.isIllegalState = false)
    (ran : callback family (bound + 1) .factory factory
      (h.moved (.call (.cache (.getOrCreate key (some factory))))
        (h.session.call (.cache (.getOrCreate key (some factory)))).value.1) =
          some (.threw fault, u)) :
    RequestFails family (bound + 1) key factory fault.cause h := by
  have value := h.session.call_of_started factory opened
  obtain ⟨frame, result, -, waiting, -, answered, replied⟩ :=
    answerTo_of_entered requests (congrArg Prod.snd value) ran
  rw [value] at waiting ran
  obtain ⟨rfl, -⟩ := List.cons.inj waiting
  have running : cache.tracker.Extends h.session.registry.cache.tracker.inCreation [key] := by
    obtain ⟨-, -, -, tracker, started, rfl⟩ := Cache.eq_of_openCreation opened
    exact (Tracker.Extends.refl unexcluded).start started
  -- The requests of the factory are over, so its key is in creation still.
  obtain ⟨kept, -⟩ := (restores_callback requests.confined rfl ran).kept running.excluded
  obtain ⟨tracker, passed, -⟩ := running.finish
  have passed' : (u.session.registry.cache.tracker.finish key).value = .ok tracker := by
    rw [kept]
    exact passed
  have failed : (u.session.registry.cache.closeCreation u.session.registry.ledger key outermost
      (.threw fault)).value.1 = .error fault := by
    rw [Cache.result_of_passed passed']
    simp [Cache.judge, legal]
  have answer : (u.session.registry.resume (.threw fault) (.creating key outermost)).value.2 =
      .answered ((u.session.registry.cache.closeCreation u.session.registry.ledger key outermost
        (.threw fault)).value.1.map fun object => .handle (some object)) :=
    rfl
  rw [answer, failed] at answered
  rw [← Progress.answered.inj answered] at replied
  exact ⟨fault, _, replied, rfl⟩

end Routine

/-- A cache takes requests for some keys: it is open and watches every key, and none of these keys is
finalized or in creation. -/
structure Cache.Takes (c : Cache κ) (keys : List Name) : Prop where
  isOpen : c.inDestruction = false
  unexcluded : c.tracker.excluded = ∅
  absent : ∀ key ∈ keys, c.get key = none
  idle : ∀ key ∈ keys, key ∉ c.tracker.inCreation

namespace Cache

variable {c : Cache κ} {keys : List Name} {key goal : Name}

/-- A cache that takes requests for some keys begins a creation of any of them, and takes requests
for the others then. -/
theorem Takes.started (takes : c.Takes (key :: keys)) (distinct : (key :: keys).Nodup) :
    ∃ outermost cache, (c.openCreation key).value = .started outermost cache ∧ cache.Takes keys ∧
      cache.pending = c.pending ∧ (∀ k, cache.get k = c.get k) ∧
      ∀ k, k ∈ cache.tracker.inCreation ↔ k ∈ c.tracker.inCreation ∨ k = key := by
  obtain ⟨isOpen, unexcluded, absent, idle⟩ := takes
  have absent' := (List.forall_mem_cons.mp absent).1
  have idle' := (List.forall_mem_cons.mp idle).1
  have watched : key ∉ c.tracker.excluded := by
    rw [unexcluded]
    exact NameMap.not_mem_empty key
  have started : c.tracker.start key =
      .ok { c.tracker with inCreation := c.tracker.inCreation.add key } := by
    simp [Tracker.start, watched, idle']
  have opened : (c.openCreation key).value = .started c.suppressed.isNone
      { c with
        tracker := { c.tracker with inCreation := c.tracker.inCreation.add key }
        suppressed := some (c.suppressed.getD []) } := by
    simp [openCreation, absent', isOpen, started]
  refine ⟨_, _, opened, ⟨isOpen, unexcluded, ?_, ?_⟩, rfl, fun _ => rfl,
    fun k => NameSet.mem_add.trans or_comm⟩
  · exact (List.forall_mem_cons.mp absent).2
  · intro k later running
    rcases NameSet.mem_add.mp running with rfl | running
    · exact (List.nodup_cons.mp distinct).1 later
    · exact idle k (List.mem_cons_of_mem _ later) running

/-- A request for a key in creation is refused. -/
theorem refused_of_running (isOpen : c.inDestruction = false) (unexcluded : c.tracker.excluded = ∅)
    (absent : c.get key = none) (running : key ∈ c.tracker.inCreation) :
    (c.openCreation key).value = .refused (.inCreation key) := by
  have watched : key ∉ c.tracker.excluded := by
    rw [unexcluded]
    exact NameMap.not_mem_empty key
  simp [openCreation, absent, isOpen, Tracker.start, watched, running]

end Cache

namespace Routine

variable {family : Role → κ → Routine μ κ} {keys : List Name} {h : History μ κ} {bound : Nat}
  {key next goal : Name} {factory other : κ} {rest : List (Name × κ)} {cause : Cause}

/-- A request for a key in creation fails. -/
theorem requestFails_of_running (isOpen : h.session.registry.cache.inDestruction = false)
    (unexcluded : h.session.registry.cache.tracker.excluded = ∅)
    (absent : h.session.registry.cache.get key = none)
    (running : key ∈ h.session.registry.cache.tracker.inCreation) :
    RequestFails family bound key factory (.inCreation key) h := by
  have refused := Cache.refused_of_running isOpen unexcluded absent running
  have answered : (h.session.call (.cache (.getOrCreate key (some factory)))).value.2 =
      .answered (.error (h.session.registry.ledger.raise (.inCreation key)).1) := by
    simp [Session.call, Registry.call, Registry.callCache, refused, Registry.raise, Session.after]
  exact ⟨_, _, answerTo_of_answered answered, rfl⟩

/-- A request fails like the first one that its factory makes. -/
theorem requestFails_of_asks (requests : RequestFamily family keys)
    (unexcluded : h.session.registry.cache.tracker.excluded = ∅) {outermost : Bool} {begun : Cache κ}
    (opened : (h.session.registry.cache.openCreation key).value = .started outermost begun)
    (asks : (family .factory factory).AsksFirst begun.pending next other)
    (fails : ∀ h' : History μ κ, h'.session.registry.cache = begun →
      RequestFails family bound next other cause h')
    (legal : cause.isIllegalState = false) : RequestFails family (bound + 1) key factory cause h := by
  have throws : ∃ fault u, callback family (bound + 1) .factory factory
      (h.moved (.call (.cache (.getOrCreate key (some factory))))
        (h.session.call (.cache (.getOrCreate key (some factory)))).value.1) =
          some (.threw fault, u) ∧ fault.cause = cause := by
    rw [callback_succ, h.session.call_of_started factory opened]
    exact asks.throws rfl rfl fails
  obtain ⟨fault, u, ran, rfl⟩ := throws
  exact requestFails_of_threw requests unexcluded opened legal ran

/-- The request that starts a row of factories fails like the one that the last of them makes. -/
theorem requestFails_of_chase (requests : RequestFamily family keys) {c : Cache κ}
    (held : h.session.registry.cache = c) (takes : c.Takes (key :: rest.map Prod.fst))
    (distinct : (key :: rest.map Prod.fst).Nodup) (absent : c.get goal = none)
    (running : goal ∈ c.tracker.inCreation ∨ goal = key)
    (chase : Chase family c.pending goal factory rest) (enough : rest.length < bound) :
    RequestFails family bound key factory (.inCreation goal) h := by
  induction rest generalizing h c key factory bound with
  | nil =>
      obtain ⟨any, asks⟩ := chase
      obtain ⟨outermost, begun, opened, takes', pending, finalized, creating⟩ :=
        takes.started distinct
      obtain ⟨bound, rfl⟩ := Nat.exists_eq_add_of_lt enough
      subst held
      rw [← pending] at asks
      refine requestFails_of_asks requests takes.unexcluded opened asks (fun h' same => ?_) rfl
      subst same
      exact requestFails_of_running takes'.isOpen takes'.unexcluded
        ((finalized goal).trans absent) ((creating goal).mpr running)
  | cons entry rest ih =>
      obtain ⟨asks, onward⟩ := chase
      obtain ⟨outermost, begun, opened, takes', pending, finalized, creating⟩ :=
        takes.started distinct
      obtain ⟨bound, rfl⟩ := Nat.exists_eq_add_of_lt enough
      subst held
      rw [← pending] at asks onward
      refine requestFails_of_asks requests takes.unexcluded opened asks (fun h' same => ?_) rfl
      exact ih same takes' (List.nodup_cons.mp distinct).2 ((finalized goal).trans absent)
        (.inl ((creating goal).mpr running)) onward (Nat.lt_add_right bound (Nat.lt_succ_self _))

/-- A family of factories that request instances of certain keys and look things up, catching what
is thrown or not, answers every request, and the answer is the same for every bound that is large
enough.  Whenever one looks, the creations that the request has led to and that are going on are no
more than the distinct keys that have been requested by then.  If the first requests of the factories
go from key to key and back to the first one, none of which is finalized or in creation, the request
fails because this key is in creation. -/
theorem requests_answered (requests : RequestFamily family keys)
    (unexcluded : h.session.registry.cache.tracker.excluded = ∅) (requested : key ∈ keys)
    (callback : Option κ) :
    ∃ result t made,
      (∀ bound, keys.length + h.session.registry.cache.pending.size ≤ bound →
        answerTo family bound (.cache (.getOrCreate key callback)) h = some (result, t)) ∧
      (t.moves = h.moves ++ made ∧ h.session.moves? made = some t.session ∧
        ∀ first u, first <+: made → h.session.moves? first = some u →
          ∃ above, u.stack = above ++ h.session.stack ∧
            (Frame.creations above).length ≤ (Move.requested first).toFinset.card) ∧
      ∀ factory rest, callback = some factory →
        Chase family h.session.registry.cache.pending key factory rest →
        (key :: rest.map Prod.fst).Nodup →
        h.session.registry.cache.Takes (key :: rest.map Prod.fst) →
        ∃ fault, result = .error fault ∧ fault.cause = .inCreation key := by
  have permitted : Call.Requests keys (.cache (.getOrCreate key callback)) := requested
  obtain ⟨⟨result, t⟩, answered⟩ := exists_answerTo requests
    (fun c h unexcluded room => exists_callback requests _ c unexcluded room) unexcluded
    (h.session.room_le keys) permitted
  obtain ⟨⟨made, moves, reached, along⟩, -⟩ :=
    restores_answerTo requests.confined permitted answered
  refine ⟨result, t, made, fun bound enough => answerTo_mono family enough answered,
    ⟨moves, reached, ?_⟩, ?_⟩
  · rintro first u ⟨later, rfl⟩ moved
    exact Session.nested_requested unexcluded ((Session.along_append_iff moved).mp along).1 moved
  · rintro factory rest rfl chase distinct takes
    obtain ⟨fault, u, failed, because⟩ := requestFails_of_chase requests rfl takes distinct
      (takes.absent key List.mem_cons_self) (.inr rfl) chase (Nat.lt_succ_self rest.length)
    -- Both bounds are large enough for what comes out of the larger one.
    have same := answerTo_mono family (Nat.le_max_left _ (rest.length + 1)) answered
    rw [answerTo_mono family (Nat.le_max_right _ _) failed] at same
    exact ⟨fault, (Prod.mk.inj (Option.some.inj same)).1.symm, because⟩

/-- Two factories that request each other never come to an end by themselves. -/
theorem mutual_requests_fail :
    let ask (key : Name) : Routine Unit Name :=
      .call (.cache (.getOrCreate key (some key))) fun
        | .ok _ => .ends (.returned (some ⟨"Object", 0⟩))
        | .error fault => .ends (.threw fault)
    let family : Role → Name → Routine Unit Name := fun _ name =>
      if name = "dao" then ask "service" else ask "dao"
    ∃ fault t, answerTo family 2 (.cache (.getOrCreate "dao" (some "dao"))) ⟨{}, (), [], []⟩ =
      some (.error fault, t) ∧ fault.cause = .inCreation "dao" := by
  intro ask family
  have requests : RequestFamily family ["dao", "service"] := by
    intro name
    have asks (key : Name) (listed : key ∈ ["dao", "service"]) :
        (ask key).Only (Call.Requests ["dao", "service"]) := by
      refine ⟨listed, ?_⟩
      rintro (fault | answer) <;> trivial
    by_cases same : name = "dao"
    · simpa [family, same] using asks "service" (by decide)
    · simpa [family, same] using asks "dao" (by decide)
  have chase : Chase family ∅ "dao" "dao" [("service", "service")] :=
    ⟨.asks fun _ => rfl, "dao", .asks fun _ => rfl⟩
  have takes : ({} : Cache Name).Takes ["dao", "service"] := by
    constructor <;> decide
  obtain ⟨result, t, made, answered, -, circles⟩ := requests_answered (h := ⟨{}, (), [], []⟩)
    requests rfl (by decide : "dao" ∈ ["dao", "service"]) (some "dao")
  obtain ⟨fault, rfl, because⟩ := circles "dao" [("service", "service")] rfl chase (by decide) takes
  exact ⟨fault, t, answered 2 (by decide), because⟩

end Routine

end Lifecycle
