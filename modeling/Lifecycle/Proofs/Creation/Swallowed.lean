import Lifecycle.Proofs.Creation.Recording
import Lifecycle.Proofs.Creation.Response

/-!
# Swallowed failures

While a creation is going on, the cache records the failures of the creations inside it and the
faults that user code reports, up to a limit and in the order in which they occur.  A fault that
passes through several creations is recorded once for each of them.  When the outermost creation
fails, its fault gets what has been recorded as related faults, if it is of a kind that has any;
the fault itself is left out.
-/

namespace Lifecycle

open Log

variable {κ : Type}

namespace Cache

variable {c : Cache κ} {ledger : Ledger} {key : Name} {outermost : Bool} {outcome : Outcome}
  {all : List Fault}

/-- What is recorded of all swallowed failures are the first ones. -/
def Keeps (c : Cache κ) (all : List Fault) : Prop :=
  c.suppressed = some (all.take suppressedLimit)

theorem Keeps.suppress (keeps : c.Keeps all) (fault : Fault) :
    (c.suppress fault).Keeps (all ++ [fault]) := by
  unfold Keeps at keeps
  by_cases room : all.length < suppressedLimit
  · have whole : all.take suppressedLimit = all := List.take_of_length_le (Nat.le_of_lt room)
    have longer : (all ++ [fault]).take suppressedLimit = all ++ [fault] := by
      apply List.take_of_length_le
      simpa [Nat.succ_le_iff] using room
    simp [Keeps, Cache.suppress, keeps, whole, room, longer]
  · have full : suppressedLimit ≤ all.length := Nat.le_of_not_lt room
    have same : (all ++ [fault]).take suppressedLimit = all.take suppressedLimit :=
      List.take_append_of_le_length full
    simp [Keeps, Cache.suppress, keeps, same, Nat.min_eq_left full]

/-- The end of a creation inside another one records its failure, if there is one. -/
theorem Keeps.close (keeps : c.Keeps all) (ledger : Ledger) (key : Name) (outcome : Outcome) :
    (c.closeCreation ledger key false outcome).value.2.1.Keeps
      (all ++ (c.judge ledger key outcome).1.failure?.toList) := by
  rw [Keeps, suppressed_closeCreation]
  cases (c.judge ledger key outcome).1.failure? with
  | none => simpa [closeRecording, Keeps] using keeps
  | some fault => exact keeps.suppress fault

/-- When the tracker knows of a creation, the failure of its factory is the one of the request. -/
theorem failure?_judge_of_passed {tracker : Tracker}
    (passed : (c.tracker.finish key).value = .ok tracker) :
    (c.judge ledger key outcome).1.failure? =
      match (c.closeCreation ledger key outermost outcome).value.1 with
      | .ok _ => none
      | .error fault => some fault := by
  rw [result_of_passed passed]
  cases (c.judge ledger key outcome).1 <;> rfl

/-- What the end of a creation that the tracker knows of does to the faults: if it is the outermost
one, and fails with a fault that can have related ones, this fault gets those that were recorded. -/
theorem ledger_of_passed {tracker : Tracker}
    (passed : (c.tracker.finish key).value = .ok tracker) :
    (c.closeCreation ledger key true outcome).value.2.2 =
      let judged := (c.judge ledger key outcome).2
      match (c.judge ledger key outcome).1 with
      | .failed fault =>
          if fault.cause.isCreation then
            judged.attach fault <|
              (c.suppressed.getD []).filter fun other => other.serial != fault.serial
          else judged
      | _ => judged := by
  unfold closeCreation
  generalize c.judge ledger key outcome = judged
  rcases judged with ⟨verdict, ledger'⟩
  cases verdict <;> simp [Verdict.failure?, closeRecording, passed]

/-- A judgement on a factory that threw raises no fault. -/
theorem ledger_judge_of_threw (c : Cache κ) (ledger : Ledger) (key : Name) (thrown : Fault) :
    (c.judge ledger key (.threw thrown)).2 = ledger := by
  cases illegal : thrown.cause.isIllegalState <;> cases found : c.get key <;>
    simp [judge, illegal, found]

/-- The related faults of a fault are not touched by a judgement. -/
theorem related_judge (c : Cache κ) (ledger : Ledger) (key : Name) (outcome : Outcome)
    (fault : Fault) : (c.judge ledger key outcome).2.related fault = ledger.related fault := by
  rcases outcome with (_ | object) | thrown
  · rfl
  · rfl
  · rw [ledger_judge_of_threw]

/-- When the outermost creation, of which the tracker knows, ends with a fault of a failed creation,
this fault gets the recorded ones other than itself; when it ends with any other fault, its factory
threw it, and no fault gets any. -/
theorem ledger_of_failed {tracker : Tracker} {fault : Fault} {recorded : List Fault}
    (passed : (c.tracker.finish key).value = .ok tracker) (kept : c.suppressed = some recorded)
    (failed : (c.closeCreation ledger key true outcome).value.1 = .error fault) :
    (fault.cause.isCreation = true → ∀ other,
      (c.closeCreation ledger key true outcome).value.2.2.related other = ledger.related other ++
        if fault.serial = other.serial then recorded.filter (·.serial != fault.serial) else []) ∧
      (fault.cause.isCreation = false → outcome = .threw fault ∧
        (c.closeCreation ledger key true outcome).value.2.2 = ledger) := by
  have spec := c.judge_spec ledger key outcome
  rw [result_of_passed passed] at failed
  simp only [ledger_of_passed passed, kept, Option.getD_some]
  cases judged : (c.judge ledger key outcome).1 with
  | fresh object | adopted object => simp [judged] at failed
  | failed raised =>
      simp only [judged] at failed spec
      obtain rfl := Except.error.inj failed
      constructor
      · intro creation other
        simp only [creation, if_true, Ledger.related_attach, related_judge]
      · intro otherKind
        rcases spec with rfl | ⟨_, cause⟩
        · simp [otherKind, ledger_judge_of_threw]
        · simp [cause, nullInstance, Cause.isCreation] at otherKind

end Cache

namespace Session

/-- A factory is running. -/
def Running (s : Session κ) : Prop := Frame.creations s.stack ≠ []

/-- The fault with which the innermost call fails when its callback comes back. -/
def failure? (s : Session κ) (outcome : Outcome) : Option Fault :=
  (s.finish? outcome).bind fun finished =>
    match finished.value.2 with
    | .answered (.error fault) => some fault
    | _ => none

/-- What a move adds to the swallowed failures: a fault that user code reports, or the failure of a
creation inside another one. -/
def swallowed (s : Session κ) : Move κ → List Fault
  | .call (.cache (.suppress fault)) => fault.toList
  | .finish outcome =>
      match s.stack with
      | .creating _ _ :: rest =>
          if (Frame.creations rest).isEmpty then [] else (s.failure? outcome).toList
      | _ => []
  | _ => []

variable {s t u : Session κ} {key : Name} {outermost : Bool} {rest : List (Frame κ)}
  {move : Move κ} {moves : List (Move κ)} {all : List Fault}

theorem failure?_of_finished {result : Except Fault Answer} {outcome : Outcome}
    (finished : (s.finish? outcome).map (·.value) = some (t, .answered result)) :
    s.failure? outcome =
      match result with
      | .ok _ => none
      | .error fault => some fault := by
  rcases Option.map_eq_some_iff.mp finished with ⟨logged, same, value⟩
  cases result <;> simp [failure?, same, value]

theorem failure?_of_creating (running : s.stack = .creating key outermost :: rest)
    (outcome : Outcome) :
    s.failure? outcome =
      match (s.registry.cache.closeCreation s.registry.ledger key outermost outcome).value.1 with
      | .ok _ => none
      | .error fault => some fault := by
  cases made : (s.registry.cache.closeCreation s.registry.ledger key outermost outcome).value.1 <;>
    simp [failure?, finish?, running, Registry.resume, after, made, Except.map]

/-- A move leaves the record alone if it neither reports a fault nor ends a creation. -/
theorem suppressed_of_move? (adds : ¬ ∃ fault, move = .call (.cache (.suppress (some fault))))
    (closes : ¬ ∃ outcome key outermost rest, move = .finish outcome ∧
      s.stack = .creating key outermost :: rest)
    {recorded : List Fault} (kept : s.registry.cache.suppressed = some recorded)
    (moved : s.move? move = some t) : t.registry.cache.suppressed = some recorded := by
  apply of_effect (fun c _ => c.suppressed = some recorded) moved
  intro c' stack' effect
  cases effect with
  | idle | track | evict | setInDestruction | clear | expose | withhold => exact kept
  | take opened =>
      rcases Cache.eq_of_openEarly opened with ⟨_, _, _, _, rfl⟩
      exact kept
  | start opened =>
      rcases Cache.eq_of_openCreation opened with ⟨_, _, _, _, _, rfl⟩
      simp [kept]
  | register => simp [kept]
  | announce => simp [kept]
  | suppress => exact absurd ⟨_, rfl⟩ adds
  | tear _ torn | tearOn _ torn => rw [torn.suppressed_eq, kept]
  | close running => exact absurd ⟨_, _, _, _, rfl, running⟩ closes

/-- Such a move swallows nothing either. -/
theorem swallowed_eq_nil (adds : ¬ ∃ fault, move = .call (.cache (.suppress (some fault))))
    (closes : ¬ ∃ outcome key outermost rest, move = .finish outcome ∧
      s.stack = .creating key outermost :: rest) : s.swallowed move = [] := by
  unfold swallowed
  split
  · rename_i fault
    cases fault with
    | none => rfl
    | some fault => exact absurd ⟨fault, rfl⟩ adds
  · split
    · rename_i running
      exact absurd ⟨_, _, _, _, rfl, running⟩ closes
    · rfl
  · rfl

/-- While a creation goes on, each move adds to the record what is swallowed by it. -/
theorem keeps_of_move? (follows : s.registry.cache.tracker.Follows (Frame.creations s.stack))
    (records : s.registry.cache.Records s.stack) (keeps : s.registry.cache.Keeps all)
    (moved : s.move? move = some t) (running : t.Running) :
    t.registry.cache.Keeps (all ++ s.swallowed move) := by
  by_cases closes : ∃ outcome key outermost rest, move = .finish outcome ∧
      s.stack = .creating key outermost :: rest
  · -- The creation that ends is an inner one, because a factory is still running after it.
    obtain ⟨outcome, key, outermost, rest, rfl, waiting⟩ := closes
    obtain rfl := move?_finish_of_creating waiting moved
    have below : Frame.creations rest ≠ [] := running
    have inside : outermost = false := by
      rw [waiting] at records
      exact records.marked.1.trans (List.isEmpty_eq_false_iff.mpr below)
    subst inside
    obtain ⟨tracker, passed, _⟩ : ∃ tracker,
        (s.registry.cache.tracker.finish key).value = .ok tracker ∧ _ := by
      rw [waiting] at follows
      exact follows.finish
    have failure : s.swallowed (.finish outcome) =
        (s.registry.cache.judge s.registry.ledger key outcome).1.failure?.toList := by
      rw [Cache.failure?_judge_of_passed passed, ← failure?_of_creating waiting]
      simp [swallowed, waiting, below]
    rw [failure]
    exact keeps.close s.registry.ledger key outcome
  · by_cases adds : ∃ fault, move = .call (.cache (.suppress (some fault)))
    · obtain ⟨fault, rfl⟩ := adds
      obtain rfl := Option.some.inj moved
      exact keeps.suppress fault
    · rw [swallowed_eq_nil adds closes, List.append_nil]
      exact suppressed_of_move? adds closes keeps moved

/-- The first of a row of sessions in which a factory is running. -/
theorem running_of_along (along : u.Along (fun w _ => w.Running) moves)
    (moved : u.moves? moves = some t) (running : t.Running) : u.Running := by
  cases moves with
  | nil =>
      obtain rfl := Option.some.inj moved
      exact running
  | cons move rest => exact along.1

/-- What has been swallowed in a row of moves, all of them made while a factory is running, is added to
the record. -/
theorem keeps_of_moves? (follows : s.registry.cache.tracker.Follows (Frame.creations s.stack))
    (records : s.registry.cache.Records s.stack) (keeps : s.registry.cache.Keeps all)
    (undriven : s.Along Undriven moves) (along : s.Along (fun w _ => w.Running) moves)
    (moved : s.moves? moves = some t) (running : t.Running) :
    t.registry.cache.Keeps (all ++ s.gather swallowed moves) := by
  induction moves generalizing s all with
  | nil =>
      obtain rfl := Option.some.inj moved
      simpa using keeps
  | cons move rest ih =>
      obtain ⟨v, first, onward⟩ := Option.bind_eq_some_iff.mp moved
      have next := running_of_along (along.2 v first) onward running
      have kept := keeps_of_move? follows records keeps first next
      rw [gather_cons first, ← List.append_assoc]
      exact ih (follows_of_move? follows undriven.1 first) (records_of_move? records first) kept
        (undriven.2 v first) (along.2 v first) onward

/-- When a factory is running at the end of a row of moves, then one has been running all along, or
there is a last move that began the outermost creation. -/
theorem running_or_begins (moved : s.moves? moves = some t) (running : t.Running) :
    s.Along (fun w _ => w.Running) moves ∧ s.Running ∨
      ∃ before move within v u, moves = before ++ move :: within ∧ s.moves? before = some v ∧
        Frame.creations v.stack = [] ∧ v.move? move = some u ∧ u.Running ∧
        u.Along (fun w _ => w.Running) within ∧ u.moves? within = some t := by
  induction moves generalizing s with
  | nil =>
      obtain rfl := Option.some.inj moved
      exact .inl ⟨trivial, running⟩
  | cons move rest ih =>
      obtain ⟨u, first, onward⟩ := Option.bind_eq_some_iff.mp moved
      -- If a factory runs all along from the second session on, it is the first one that decides.
      rcases ih onward with ⟨along, next⟩ |
        ⟨before, move', within, v, u', rfl, reached, idle, began, now, along, last⟩
      · by_cases idle : Frame.creations s.stack = []
        · exact .inr ⟨[], move, rest, s, u, rfl, rfl, idle, first, next, along, onward⟩
        · refine .inl ⟨⟨idle, fun u' first' => ?_⟩, idle⟩
          obtain rfl := Option.some.inj (first.symm.trans first')
          exact along
      · exact .inr ⟨move :: before, move', within, v, u', rfl, by simp [first, reached], idle, began,
          now, along, last⟩

/-- The record is empty when the outermost creation begins. -/
theorem keeps_of_begins (unrecorded : s.registry.cache.suppressed = none)
    (idle : Frame.creations s.stack = []) (began : s.move? move = some t) (running : t.Running) :
    t.registry.cache.Keeps [] := by
  revert running
  apply of_effect (fun c stack => Frame.creations stack ≠ [] → c.Keeps []) began
  intro c' stack' effect running
  cases effect with
  | idle | track | register | announce | evict | suppress | setInDestruction | clear =>
      exact absurd idle running
  | take opened =>
      rw [Frame.creations_exposing] at running
      exact absurd idle running
  | start opened =>
      rcases Cache.eq_of_openCreation opened with ⟨_, _, _, _, _, rfl⟩
      simp [Cache.Keeps, unrecorded]
  | tear _ _ disposing =>
      rw [Frame.creations_append_of_disposing disposing] at running
      exact absurd idle running
  | close waiting => simp [waiting] at idle
  | expose waiting | withhold waiting =>
      rw [waiting, Frame.creations_exposing] at idle
      exact absurd idle running
  | tearOn waiting _ disposing =>
      rw [waiting, Frame.creations_disposing] at idle
      rw [Frame.creations_append_of_disposing disposing] at running
      exact absurd idle running

/-- How the failure of an outermost request is told of what was swallowed on the way to it. -/
theorem finish?_of_outermost
    (follows : s.registry.cache.tracker.Follows (Frame.creations s.stack))
    (records : s.registry.cache.Records s.stack) {recorded : List Fault}
    (kept : s.registry.cache.suppressed = some recorded)
    (waiting : s.stack = .creating key outermost :: rest) (last : Frame.creations rest = [])
    (outcome : Outcome) :
    ∃ v result, (s.finish? outcome).map (·.value) = some (v, .answered result) ∧
      ∀ fault, result = .error fault →
        (fault.cause.isCreation = true → ∀ other, v.registry.ledger.related other =
          s.registry.ledger.related other ++
            if fault.serial = other.serial then recorded.filter (·.serial != fault.serial)
            else []) ∧
        (fault.cause.isCreation = false → outcome = .threw fault ∧
          v.registry.ledger = s.registry.ledger) := by
  rw [waiting] at follows records
  have outermost_eq : outermost = true := by
    rw [records.marked.1, last]
    rfl
  subst outermost_eq
  obtain ⟨tracker, passed, _⟩ := follows.finish
  refine ⟨_, _, finish?_of_creating waiting outcome, ?_⟩
  intro fault failed
  exact Cache.ledger_of_failed passed kept (eq_error_of_map failed)

/-- As long as nobody drives the tracker, and watched keys change only while no factory is running,
a record of failures is kept exactly while one is running.  It holds what has been swallowed since
the outermost creation began, the failures of the creations inside it and the faults that user code
reported, in the order in which this happened, up to the limit.  When the outermost creation comes
back with a fault of a failed creation, the related faults of this fault are those it had, followed
by the recorded ones other than itself, and no other fault is touched; when it comes back with any
other fault, this is the one that its factory threw, and nothing is attached to any fault. -/
theorem recorded_since_outermost_began {t : Session κ} {moves : List (Move κ)} {name : Name}
    {allowOverriding : Bool} {ledger : Ledger}
    (undriven : (begin name allowOverriding ledger).Along Undriven moves)
    (moved : (begin name allowOverriding ledger).moves? moves = some t) :
    (t.registry.cache.suppressed.isSome ↔ t.Running) ∧
      (t.Running → ∃ before move within s u, moves = before ++ move :: within ∧
        (begin name allowOverriding ledger).moves? before = some s ∧
        Frame.creations s.stack = [] ∧ s.move? move = some u ∧
        u.Running ∧ u.Along (fun w _ => w.Running) within ∧
        let recorded := (u.gather swallowed within).take Cache.suppressedLimit
        t.registry.cache.suppressed = some recorded ∧
        ∀ key outermost rest outcome, t.stack = .creating key outermost :: rest →
          Frame.creations rest = [] →
          ∃ v result, (t.finish? outcome).map (·.value) = some (v, .answered result) ∧
            ∀ fault, result = .error fault →
              (fault.cause.isCreation = true → ∀ other, v.registry.ledger.related other =
                t.registry.ledger.related other ++
                  if fault.serial = other.serial then recorded.filter (·.serial != fault.serial)
                  else []) ∧
              (fault.cause.isCreation = false → outcome = .threw fault ∧
                v.registry.ledger = t.registry.ledger)) := by
  have records := records_of_reaches ⟨moves, moved⟩
  have follows : t.registry.cache.tracker.Follows (Frame.creations t.stack) :=
    undriven.invariant (fun _ _ _ held undriven moved => follows_of_move? held undriven moved)
      Tracker.Follows.new moved
  constructor
  · rw [Running, ← List.isEmpty_eq_false_iff, ← records.isNone_eq]
    simp
  · intro running
    rcases running_or_begins moved running with ⟨_, new⟩ |
      ⟨before, move, within, s, u, rfl, reached, idle, began, now, along, onward⟩
    · exact absurd rfl new
    · obtain ⟨undrivenBefore, undrivenAfter⟩ := (along_append_iff reached).mp undriven
      have followsBefore : s.registry.cache.tracker.Follows (Frame.creations s.stack) :=
        undrivenBefore.invariant
          (fun _ _ _ held undriven moved => follows_of_move? held undriven moved)
          Tracker.Follows.new reached
      have empty : u.registry.cache.Keeps [] :=
        keeps_of_begins (suppressed_eq_none_of_idle ⟨before, reached⟩ idle) idle began now
      have keeps := keeps_of_moves? (follows_of_move? followsBefore undrivenAfter.1 began)
        (records_of_move? (records_of_reaches ⟨before, reached⟩) began) empty
        (undrivenAfter.2 u began) along onward running
      rw [List.nil_append] at keeps
      refine ⟨before, move, within, s, u, rfl, reached, idle, began, now, along, keeps, ?_⟩
      intro key outermost rest outcome waiting last
      exact finish?_of_outermost follows records keeps waiting last outcome

/-- The factory of one key requests another key, whose factory returns nothing, reports a fault of
its own, and throws the failure of the other request: this failure is recorded before the reported
fault, and it gets the reported fault only. -/
theorem own_fault_left_out :
    let boom : Fault := ⟨0, .runtime "boom"⟩
    let failure : Fault := ⟨1, Cache.nullInstance "b"⟩
    let moves : List (Move Unit) := [.call (.cache (.getOrCreate "a" (some ()))),
      .call (.cache (.getOrCreate "b" (some ()))), .raise boom.cause, .finish (.returned none),
      .call (.cache (.suppress (some boom)))]
    ∃ t v, (begin "default" true {}).moves? moves = some t ∧
      t.registry.cache.suppressed = some [failure, boom] ∧
      (t.finish? (.threw failure)).map (·.value) = some (v, .answered (.error failure)) ∧
      v.registry.ledger.related failure = [boom] := by
  intro boom failure moves
  have run : ((begin "default" true {}).moves? moves).map (fun t => (t.stack,
      t.registry.cache.suppressed, t.failure? (.threw failure), t.registry.ledger.related failure)) =
        some ([.creating "a" true], some [failure, boom], some failure, []) := by
    decide +kernel
  rcases Option.map_eq_some_iff.mp run with ⟨t, moved, facts⟩
  simp only [Prod.mk.injEq] at facts
  obtain ⟨waiting, kept, fails, related⟩ := facts
  have undriven : (begin "default" true {}).Along Undriven moves :=
    ⟨trivial, fun _ _ => ⟨trivial, fun _ _ => ⟨trivial, fun _ _ => ⟨trivial, fun _ _ =>
      ⟨trivial, fun _ _ => trivial⟩⟩⟩⟩⟩
  have running : t.Running := by simp [Running, waiting]
  obtain ⟨_, _, _, _, _, _, _, _, _, _, _, recorded, ends⟩ :=
    (recorded_since_outermost_began undriven moved).2 running
  rw [← Option.some.inj (kept.symm.trans recorded)] at ends
  obtain ⟨v, result, finished, told⟩ := ends "a" true [] (.threw failure) waiting rfl
  rw [failure?_of_finished finished] at fails
  cases result with
  | ok answer => simp at fails
  | error fault =>
      obtain rfl := Option.some.inj fails
      have gets := (told _ rfl).1 rfl failure
      rw [related] at gets
      exact ⟨t, v, moved, kept, finished, gets⟩

end Session

end Lifecycle
