import Lifecycle.Proofs.Creation.Exclusions
import Lifecycle.Proofs.Teardown.Closedown

/-!
# How a request comes back

A request for a key either comes back at once, with the finalized instance of the key or with a
refusal, or it enters its factory.  While the factory runs, user code may do anything; the request
comes back when the factory does (`Session.comes_back_with_factory`), and what it answers is decided
then, by what the factory came to, by whether the key has been finalized meanwhile, and by whether
the tracker still knows of the creation (`Session.Responds`).
-/

namespace Lifecycle

open Log

variable {κ : Type}

theorem eq_error_of_map {α β : Type} {f : α → β} {result : Except Fault α} {fault : Fault}
    (failed : result.map f = .error fault) : result = .error fault := by
  cases result with
  | ok a => simp [Except.map] at failed
  | error fault' => simpa [Except.map] using failed

/-- Why the tracker refuses to end the creation of a key.  A failure that the creation was to end
with is mentioned. -/
def Tracker.unknownCreation (key : Name) (failure : Option Fault) : Cause :=
  let message := "Instance '" ++ key ++ "' isn't currently in creation"
  .illegalState key <| failure.elim message fun fault =>
    Text.untilNul message ++ " (pending creation failure: " ++ fault.cause.mention ++ ")"

theorem Tracker.eq_of_finish_eq_error {t : Tracker} {key : Name} {cause : Cause}
    (refused : (t.finish key).value = .error cause) : cause = unknownCreation key none := by
  unfold finish at refused
  split at refused
  · contradiction
  · split at refused
    · contradiction
    · exact (Except.error.inj refused).symm

namespace Cache

/-! ## The beginning of a creation -/

/-- A key is looked up, its creation is refused, or its creation begins. -/
theorem openCreation_cases (c : Cache κ) (key : Name) :
    (∃ object, c.get key = some object ∧ (c.openCreation key).value = .found object) ∨
      (∃ cause, c.get key = none ∧
        (c.inDestruction = true ∧ cause = .notAllowed key teardownMessage ∨
          c.tracker.isCurrent key = true ∧ cause = .inCreation key) ∧
        (c.openCreation key).value = .refused cause) ∨
      ∃ outermost c', c.get key = none ∧ c.inDestruction = false ∧
        c.tracker.isCurrent key = false ∧
        (c.openCreation key).value = .started outermost c' := by
  cases found : c.get key with
  | some object => exact .inl ⟨object, rfl, by simp [openCreation, found]⟩
  | none =>
      right
      cases closed : c.inDestruction with
      | true => exact .inl ⟨_, rfl, .inl ⟨rfl, rfl⟩, by simp [openCreation, found, closed]⟩
      | false =>
          cases current : c.tracker.isCurrent key with
          | true =>
              have started := Tracker.start_of_isCurrent current
              have refused : (c.openCreation key).value = .refused (.inCreation key) := by
                simp [openCreation, found, closed, started]
              exact .inl ⟨_, rfl, .inr ⟨rfl, rfl⟩, refused⟩
          | false =>
              obtain ⟨tracker, started⟩ := Tracker.exists_start_of_not_isCurrent current
              have begun : (c.openCreation key).value = .started c.suppressed.isNone
                  { c with tracker, suppressed := some (c.suppressed.getD []) } := by
                simp [openCreation, found, closed, started]
              exact .inr ⟨_, _, rfl, rfl, rfl, begun⟩

/-! ## The end of a creation -/

variable {c : Cache κ} {ledger : Ledger} {key : Name} {outermost : Bool} {outcome : Outcome}

/-- A judgement raises new faults only, and no more than one. -/
theorem next_le_judge (c : Cache κ) (ledger : Ledger) (key : Name) (outcome : Outcome) :
    ledger.next ≤ (c.judge ledger key outcome).2.next := by
  rcases outcome with (_ | object) | fault
  · exact Nat.le_succ _
  · exact Nat.le_refl _
  · cases illegal : fault.cause.isIllegalState <;> cases found : c.get key <;>
      simp [judge, illegal, found]

/-- When the tracker knows of a creation, the creation ends as its factory has been judged. -/
theorem result_of_passed {tracker : Tracker} (passed : (c.tracker.finish key).value = .ok tracker) :
    (c.closeCreation ledger key outermost outcome).value.1 =
      match (c.judge ledger key outcome).1 with
      | .fresh object => .ok ((c.get key).getD object)
      | .adopted object => .ok object
      | .failed fault => .error fault := by
  unfold closeCreation
  generalize c.judge ledger key outcome = judged
  rcases judged with ⟨verdict, ledger'⟩
  rcases c.closeRecording_eq outermost verdict.failure? with ⟨suppressed, recorded⟩
  cases verdict with
  | fresh object | adopted object | failed fault =>
      simp only [Verdict.failure?] at recorded
      simp [Verdict.failure?, recorded, passed, kept_finalize, get]

/-- When the tracker does not know of a creation, the creation ends with a new fault that says so.
What the factory has left behind is removed only if the factory failed. -/
theorem closed_of_refused {cause : Cause} (refused : (c.tracker.finish key).value = .error cause)
    (ledger : Ledger) (outermost : Bool) (outcome : Outcome) :
    let failure := (c.judge ledger key outcome).1.failure?
    ∃ fault suppressed, ledger.next ≤ fault.serial ∧
      fault.cause = Tracker.unknownCreation key failure ∧
      (c.closeCreation ledger key outermost outcome).value.1 = .error fault ∧
      (c.closeCreation ledger key outermost outcome).value.2.1 =
        if failure.isSome then (discardPartial { c with suppressed } key).value
        else { c with suppressed } := by
  obtain rfl := Tracker.eq_of_finish_eq_error refused
  unfold closeCreation
  have next := c.next_le_judge ledger key outcome
  revert next
  generalize c.judge ledger key outcome = judged
  rcases judged with ⟨verdict, ledger'⟩
  intro next
  rcases c.closeRecording_eq outermost verdict.failure? with ⟨suppressed, recorded⟩
  cases verdict with
  | fresh object | adopted object =>
      simp only [Verdict.failure?] at recorded
      refine ⟨⟨ledger'.next, _⟩, suppressed, next, rfl, ?_⟩
      simp [Verdict.failure?, recorded, refused, Ledger.raise, Tracker.unknownCreation]
  | failed failure =>
      simp only [Verdict.failure?] at recorded
      refine ⟨⟨ledger'.next, _⟩, suppressed, next, rfl, ?_⟩
      simp [Verdict.failure?, recorded, refused, Ledger.raise, Tracker.unknownCreation,
        Cause.mention, Cause.message?, Cause.wording?]

/-- A request that comes back normally leaves its key finalized with what it answers. -/
theorem Closing.get_of_ok {c' : Cache κ} {object : Instance}
    (closing : c.Closing key outcome (.ok object) c') : c'.get key = some object := by
  cases closing with
  | fresh => exact (get_finalize _ _ _ _).trans (if_pos rfl)
  | adopted _ _ found => exact found

/-- A request fails with the fault that its factory threw, with a new one because the factory
returned nothing, or with a new one because the tracker does not know of the creation. -/
theorem failure_of_closeCreation {fault : Fault}
    (failed : (c.closeCreation ledger key outermost outcome).value.1 = .error fault) :
    (∃ tracker, (c.tracker.finish key).value = .ok tracker) ∧
        (outcome = .threw fault ∨ outcome = .returned none ∧
          fault.cause = nullInstance key ∧ ledger.next ≤ fault.serial) ∨
      (∃ cause, (c.tracker.finish key).value = .error cause) ∧
        fault.cause = Tracker.unknownCreation key (c.judge ledger key outcome).1.failure? ∧
        ledger.next ≤ fault.serial := by
  cases finished : (c.tracker.finish key).value with
  | error cause =>
      rcases closed_of_refused finished ledger outermost outcome with
        ⟨raised, _, new, cause_eq, result, _⟩
      obtain rfl := Except.error.inj (result.symm.trans failed)
      exact .inr ⟨⟨_, rfl⟩, cause_eq, new⟩
  | ok tracker =>
      refine .inl ⟨⟨tracker, rfl⟩, ?_⟩
      rw [result_of_passed finished] at failed
      rcases outcome with (_ | object) | thrown
      · obtain rfl := Except.error.inj failed
        exact .inr ⟨rfl, rfl, Nat.le_refl _⟩
      · simp [judge] at failed
      · left
        cases illegal : thrown.cause.isIllegalState <;> cases found : c.get key <;>
          simp_all [judge]

/-- When a factory takes the state of its key for an illegal one, its request comes back normally
exactly if the key is finalized by then and the tracker knows of the creation. -/
theorem swallows_iff (ledger : Ledger) (outermost : Bool) {thrown : Fault}
    (illegal : thrown.cause.isIllegalState = true) :
    (∃ object, (c.closeCreation ledger key outermost (.threw thrown)).value.1 = .ok object) ↔
      (c.get key).isSome = true ∧ ∃ tracker, (c.tracker.finish key).value = .ok tracker := by
  cases finished : (c.tracker.finish key).value with
  | error cause =>
      rcases closed_of_refused finished ledger outermost (.threw thrown) with ⟨_, _, _, _, result, _⟩
      simp [result]
  | ok tracker =>
      rw [result_of_passed finished]
      cases found : c.get key <;> simp [judge, illegal, found]

end Cache

/-! ## Requests in a session -/

namespace Session

variable {s t u v : Session κ} {move : Move κ} {moves : List (Move κ)} {key : Name}

/-- A waiting call stays where it is until it is the innermost one and its callback comes back. -/
theorem stays_or_finishes {above below : List (Frame κ)} {frame : Frame κ}
    (waiting : s.stack = above ++ frame :: below) (moved : s.move? move = some t) :
    (∃ above', t.stack = above' ++ frame :: below) ∨
      above = [] ∧ ∃ outcome, move = .finish outcome := by
  cases move with
  | call c =>
      obtain rfl := Option.some.inj moved
      left
      exact ⟨(s.registry.call c).value.2.frames ++ above, by simp [call, waiting]⟩
  | finish outcome =>
      cases above with
      | nil => exact .inr ⟨rfl, outcome, rfl⟩
      | cons innermost above =>
          rcases move?_finish_eq_some_iff.mp moved with ⟨frame', rest, running, rfl⟩
          rcases List.cons.inj (running.symm.trans waiting) with ⟨rfl, rfl⟩
          left
          exact ⟨(s.registry.resume outcome frame').value.2.frames ++ above, by simp⟩
  | raise cause | attach fault others =>
      obtain rfl := Option.some.inj moved
      exact .inl ⟨above, waiting⟩

/-- A request that has entered its factory comes back with the factory and not before, whatever is
done in between. -/
theorem comes_back_with_factory {above below : List (Frame κ)} {outermost : Bool}
    (waiting : u.stack = above ++ .creating key outermost :: below)
    (waits : u.Along (fun w _ => w.WaitsAbove below) moves) (moved : u.moves? moves = some v)
    (returned : v.stack = below) :
    ∃ during outcome t, moves = during ++ [.finish outcome] ∧ u.moves? during = some t ∧
      t.stack = .creating key outermost :: below ∧ t.move? (.finish outcome) = some v := by
  -- The request keeps its place under the calls that are made above it, up to the move after which
  -- it does not wait any more; this move is the last one.
  induction moves generalizing u above with
  | nil =>
      obtain rfl := Option.some.inj moved
      have longer := congrArg List.length (waiting.symm.trans returned)
      simp at longer
      omega
  | cons move rest ih =>
      obtain ⟨w, first, onward⟩ := Option.bind_eq_some_iff.mp moved
      rcases stays_or_finishes waiting first with ⟨above', waiting'⟩ | ⟨rfl, outcome, rfl⟩
      · rcases ih waiting' (waits.2 w first) onward with
          ⟨during, outcome, t, rfl, reached, running, last⟩
        exact ⟨move :: during, outcome, t, rfl, by simp [first, reached], running, last⟩
      · rw [List.nil_append] at waiting
        have below_eq : w.stack = below := by rw [move?_finish_of_creating waiting first]
        cases rest with
        | nil =>
            obtain rfl := Option.some.inj onward
            exact ⟨[], outcome, u, rfl, rfl, waiting, first⟩
        | cons next rest =>
            have waitsStill : w.WaitsAbove below := (waits.2 w first).1
            rw [WaitsAbove, below_eq] at waitsStill
            exact absurd waitsStill (Nat.lt_irrefl _)

/-- How a request for a key comes back when its factory does. -/
structure Responds (key : Name) (t : Session κ) (outcome : Outcome) (result : Except Fault Answer)
    (v : Session κ) : Prop where
  finished : (t.finish? outcome).map (·.value) = some (v, .answered result)
  /-- What it answers is the finalized instance of the key. -/
  answer : ∀ answer, result = .ok answer →
    ∃ object, answer = .handle (some object) ∧ v.registry.cache.get key = some object
  /-- It fails as its factory has failed, or because the tracker does not know of the creation. -/
  failure : ∀ fault, result = .error fault →
    outcome = .threw fault ∨
      t.registry.ledger.next ≤ fault.serial ∧
        (outcome = .returned none ∧ fault.cause = Cache.nullInstance key ∨
          (∃ cause, (t.registry.cache.tracker.finish key).value = .error cause) ∧
            fault.cause = Tracker.unknownCreation key
              (t.registry.cache.judge t.registry.ledger key outcome).1.failure?)
  /-- A factory that takes the state of the key for an illegal one is believed if the key is
  finalized. -/
  swallows_iff : ∀ fault, outcome = .threw fault → fault.cause.isIllegalState = true →
    ((∃ answer, result = .ok answer) ↔ (t.registry.cache.get key).isSome = true ∧
      ∃ tracker, (t.registry.cache.tracker.finish key).value = .ok tracker)

theorem responds_of_creating {outermost : Bool} {below : List (Frame κ)} {outcome : Outcome}
    (running : t.stack = .creating key outermost :: below)
    (finished : t.move? (.finish outcome) = some v) : ∃ result, Responds key t outcome result v := by
  obtain rfl := move?_finish_of_creating running finished
  refine ⟨_, finish?_of_creating running outcome, ?answer, ?failure, ?swallows⟩
  case answer =>
    intro answer answered
    have closing :=
      t.registry.cache.closing_closeCreation t.registry.ledger key outermost outcome
    cases made : (t.registry.cache.closeCreation t.registry.ledger key outermost outcome).value.1 with
    | error fault => simp [made, Except.map] at answered
    | ok object =>
        rw [made] at answered closing
        exact ⟨object, (Except.ok.inj answered).symm, closing.get_of_ok⟩
  case failure =>
    intro fault failed
    rcases Cache.failure_of_closeCreation (eq_error_of_map failed) with
      ⟨_, thrown | ⟨nothing, cause, new⟩⟩ | ⟨refused, cause, new⟩
    · exact .inl thrown
    · exact .inr ⟨new, .inl ⟨nothing, cause⟩⟩
    · exact .inr ⟨new, .inr ⟨refused, cause⟩⟩
  case swallows =>
    rintro fault rfl illegal
    rw [← Cache.swallows_iff t.registry.ledger outermost illegal]
    cases (t.registry.cache.closeCreation t.registry.ledger key outermost (.threw fault)).value.1 <;>
      simp [Except.map]

/-- Whatever a factory does, a request for its key comes to one of these ends.  It answers at once
with the finalized instance of the key; it is refused, because the registry is being destroyed or
the key is in creation, without any change to the cache or the tracker; or it enters its factory,
once, and comes back when the factory does.  Then it answers with an instance that is the finalized
one of the key at this moment, or it fails: with the fault that the factory threw, with a new one
because the factory returned nothing, or with a new one because the tracker does not know of the
creation.  A fault by which the factory says that the key is in an illegal state is swallowed
exactly if the key is finalized by then and the tracker knows of the creation. -/
theorem getOrCreate_comes_back (s : Session κ) (key : Name) (factory : κ) :
    let cache := s.registry.cache
    let begun := (s.call (.cache (.getOrCreate key (some factory)))).value
    (∃ object, cache.get key = some object ∧
        begun = (s, .answered (.ok (.handle (some object))))) ∨
      (∃ fault ledger, cache.get key = none ∧
        (cache.inDestruction = true ∧ fault.cause = .notAllowed key Cache.teardownMessage ∨
          cache.tracker.isCurrent key = true ∧ fault.cause = .inCreation key) ∧
        begun = (⟨{ s.registry with ledger }, s.stack⟩, .answered (.error fault))) ∨
      ∃ u outermost, cache.get key = none ∧ cache.inDestruction = false ∧
        cache.tracker.isCurrent key = false ∧ begun = (u, .entered .factory factory) ∧
        u.stack = .creating key outermost :: s.stack ∧
        (∀ t outcome, t.stack = u.stack →
          ∃ v result, v.stack = s.stack ∧ Responds key t outcome result v) ∧
        ∀ moves v, u.Along (fun w _ => w.WaitsAbove s.stack) moves → u.moves? moves = some v →
          v.stack = s.stack → ∃ during outcome t result, moves = during ++ [.finish outcome] ∧
            u.moves? during = some t ∧ t.stack = u.stack ∧ Responds key t outcome result v := by
  intro cache begun
  rcases cache.openCreation_cases key with ⟨object, found, opened⟩ | ⟨cause, absent, why, opened⟩ |
    ⟨outermost, c', absent, lasts, free, opened⟩
  · have answered : begun = (s, .answered (.ok (.handle (some object)))) := by
      apply call_eq_self
      simp [Registry.call, Registry.callCache, opened, cache, Registry.answer]
    exact .inl ⟨object, found, answered⟩
  · have refused : begun = (⟨{ s.registry with ledger := (s.registry.ledger.raise cause).2 },
        s.stack⟩, .answered (.error (s.registry.ledger.raise cause).1)) := by
      simp [begun, call, Registry.call, Registry.callCache, opened, cache, Registry.raise, after]
    exact .inr (.inl ⟨_, _, absent, why, refused⟩)
  · let u : Session κ := ⟨{ s.registry with cache := c' }, .creating key outermost :: s.stack⟩
    have entered : begun = (u, .entered .factory factory) := by
      simp [begun, u, call, Registry.call, Registry.callCache, opened, cache, after, Frame.role]
    refine .inr (.inr ⟨u, outermost, absent, lasts, free, entered, rfl, ?responds, ?comesBack⟩)
    case responds =>
      intro t outcome running
      obtain ⟨v, finished⟩ := Option.isSome_iff_exists.mp
        ((move?_finish_isSome_iff t outcome).mpr (by simp [running, u]))
      obtain ⟨result, responds⟩ := responds_of_creating running finished
      exact ⟨v, result, by rw [move?_finish_of_creating running finished], responds⟩
    case comesBack =>
      intro moves v waits moved returned
      have waiting : u.stack = [] ++ .creating key outermost :: s.stack := rfl
      rcases comes_back_with_factory waiting waits moved returned with
        ⟨during, outcome, t, rfl, reached, running, finished⟩
      obtain ⟨result, responds⟩ := responds_of_creating running finished
      exact ⟨during, outcome, t, result, rfl, reached, running, responds⟩

/-- A factory registers an instance under its own key and says that the key is in an illegal state:
its request answers with the registered instance. -/
theorem illegal_state_swallowed :
    let s : Session Unit := begin "default" true {}
    let during : List (Move Unit) := [.call (.cache (.registerFinalized "a" (some ⟨"Service", 1⟩))),
      .raise (.illegalState "a" "it is there")]
    let outcome : Outcome := .threw ⟨0, .illegalState "a" "it is there"⟩
    ∃ u t v, (s.call (.cache (.getOrCreate "a" (some ())))).value = (u, .entered .factory ()) ∧
      u.moves? during = some t ∧ t.move? (.finish outcome) = some v ∧ v.stack = s.stack ∧
      ∃ object, (t.finish? outcome).map (·.value) =
          some (v, .answered (.ok (.handle (some object)))) ∧
        v.registry.cache.get "a" = some object := by
  intro s during outcome
  have absent : s.registry.cache.get "a" = none := by decide +kernel
  have lasts : s.registry.cache.inDestruction = false := by decide +kernel
  have free : s.registry.cache.tracker.isCurrent "a" = false := by decide +kernel
  rcases s.getOrCreate_comes_back "a" () with ⟨_, found, _⟩ |
    ⟨_, _, _, ⟨closed, _⟩ | ⟨current, _⟩, _⟩ | ⟨u, _, _, _, _, entered, stack, responds, _⟩
  · exact absurd (absent.symm.trans found) (by simp)
  · exact absurd (lasts.symm.trans closed) (by simp)
  · exact absurd (free.symm.trans current) (by simp)
  · have begun : u = (s.call (.cache (.getOrCreate "a" (some ())))).value.1 := by rw [entered]
    have run : (u.moves? during).map (fun t => (t.stack, t.registry.cache.get "a",
        (t.registry.cache.tracker.finish "a").value.isOk)) =
          some (u.stack, some ⟨"Service", 1⟩, true) := by
      rw [begun]
      decide +kernel
    rcases Option.map_eq_some_iff.mp run with ⟨t, moved, facts⟩
    simp only [Prod.mk.injEq] at facts
    obtain ⟨running, finalized, passed⟩ := facts
    obtain ⟨v, result, returned, response⟩ := responds t outcome running
    have known : ∃ tracker, (t.registry.cache.tracker.finish "a").value = .ok tracker := by
      cases finished : (t.registry.cache.tracker.finish "a").value with
      | ok tracker => exact ⟨tracker, rfl⟩
      | error => simp [finished, Except.isOk, Except.toBool] at passed
    obtain ⟨answer, rfl⟩ := (response.swallows_iff _ rfl rfl).mpr ⟨by simp [finalized], known⟩
    obtain ⟨object, rfl, get⟩ := response.answer answer rfl
    have finished : t.move? (.finish outcome) = some v := by
      obtain ⟨logged, same, value⟩ := Option.map_eq_some_iff.mp response.finished
      simp [move?, same, value]
    exact ⟨u, t, v, entered, moved, finished, returned, object, response.finished, get⟩

end Session

end Lifecycle
