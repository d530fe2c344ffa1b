import Lifecycle.Proofs.Pool.Orderly
import Mathlib.Data.Nat.Init

/-!
# One creation for all callers

However the moves of the callers interleave, a factory that makes an instance is run once and every
caller gets that instance, and a factory that fails is run once for every caller and leaves the key
as it was (`Pool.one_creation_for_all`).  The callers come to an end whenever each of them gets to
move again and again: as long as somebody has not finished somebody is able to move, and every move
brings the pool nearer to the end (`Pool.Orderly.exists_settled`).
-/

namespace Lifecycle

open Log

variable {κ : Type}

/-- The moves that a caller has ahead of it, at most. -/
def Caller.ahead : Caller → Nat
  | .arrived => 6
  | .missed => 5
  | .holding => 4
  | .creating _ => 3
  | .produced _ _ => 2
  | .closing _ => 1
  | .finished _ => 0

namespace Pool

variable {key : Name} {factory : Factory} {start : Ledger} {p q : Pool κ} {outcome : Outcome}

/-! ## Schedules without end -/

theorem value_run_append (p : Pool κ) (first second : List Nat) :
    (p.run key factory (first ++ second)).value =
      ((p.run key factory first).value.run key factory second).value := by
  induction first generalizing p with
  | nil => rfl
  | cons i first ih => exact ih _

/-- The pool after the first moves of a schedule without end. -/
def after (p : Pool κ) (key : Name) (factory : Factory) (schedule : Nat → Nat) (moves : Nat) :
    Pool κ :=
  (p.run key factory ((List.range moves).map schedule)).value

theorem after_succ (p : Pool κ) (key : Name) (factory : Factory) (schedule : Nat → Nat)
    (moves : Nat) :
    p.after key factory schedule (moves + 1) =
      ((p.after key factory schedule moves).step key factory (schedule moves)).value := by
  rw [after, List.range_succ, List.map_append, value_run_append]
  rfl

/-- Each of a number of callers gets to move again and again. -/
def Fair (count : Nat) (schedule : Nat → Nat) : Prop :=
  ∀ i < count, ∀ moves, ∃ later ≥ moves, schedule later = i

/-- The factory makes an instance in every run. -/
def Makes (factory : Factory) : Prop :=
  ∀ run ledger, ∃ object, (factory run ledger).1 = .returned (some object)

/-- The factory fails in every run. -/
def Throws (factory : Factory) : Prop :=
  ∀ run ledger, ∃ fault, (factory run ledger).1 = .threw fault

/-- Every caller has finished. -/
def Settled (p : Pool κ) : Prop := ∀ caller ∈ p.callers, ∃ result, caller = .finished result

theorem Orderly.after (orderly : p.Orderly key factory start) (schedule : Nat → Nat)
    (moves : Nat) : (p.after key factory schedule moves).Orderly key factory start := by
  induction moves with
  | zero => exact orderly
  | succ moves ih =>
      rw [after_succ]
      exact ih.step (schedule moves)

theorem Orderly.kept_after (orderly : p.Orderly key factory start) (schedule : Nat → Nat)
    {moves later : Nat} (order : moves ≤ later) :
    Kept key (p.after key factory schedule moves) (p.after key factory schedule later) := by
  induction later, order using Nat.le_induction with
  | base => exact .refl key _
  | succ later _ ih =>
      have now := orderly.after schedule later
      rw [after_succ]
      exact ih.trans (now.kept (now.moves (schedule later)))

/-! ## The way to the end -/

/-- The moves that a pool has ahead of it, at most. -/
def ahead (p : Pool κ) : Nat := total Caller.ahead p.callers

theorem ahead_place_lt {i : Nat} {old new : Caller} (placed : p.callers[i]? = some old)
    (less : new.ahead < old.ahead) : (p.place i new).ahead < p.ahead := by
  have changed := total_set placed new Caller.ahead
  simp only [ahead, place]
  omega

/-- A caller that is able to move comes nearer to its end, and one that is not changes nothing. -/
theorem Moves.ahead_lt_or_eq {i : Nat} (moves : Moves key factory p i q) :
    p.Able i ∧ q.ahead < p.ahead ∨ ¬ p.Able i ∧ q = p := by
  cases moves with
  | rests stuck => exact .inr ⟨stuck, rfl⟩
  | finds placed | misses placed | findsInside placed | begins placed | runs placed | ends placed
  | leaves placed =>
      exact .inl ⟨⟨_, placed, nofun, nofun⟩, ahead_place_lt placed (by simp [Caller.ahead])⟩
  | enters placed free =>
      exact .inl ⟨⟨_, placed, fun _ => free, nofun⟩, ahead_place_lt placed (by simp [Caller.ahead])⟩

theorem Moves.length_callers {i : Nat} (moves : Moves key factory p i q) :
    q.callers.length = p.callers.length := by
  cases moves with
  | rests => rfl
  | finds | misses | enters | findsInside | begins | runs | ends | leaves =>
      exact List.length_set

theorem Orderly.length_after (orderly : p.Orderly key factory start) (schedule : Nat → Nat)
    (moves : Nat) : (p.after key factory schedule moves).callers.length = p.callers.length := by
  induction moves with
  | zero => rfl
  | succ moves ih =>
      rw [after_succ, ((orderly.after schedule moves).moves (schedule moves)).length_callers, ih]

/-- As long as somebody has not finished somebody is able to move. -/
theorem Orderly.exists_able (orderly : p.Orderly key factory start) (unsettled : ¬ p.Settled) :
    ∃ i < p.callers.length, p.Able i := by
  cases holds : p.holder with
  | some i =>
      rcases orderly.inside holds with ⟨caller, placed, inside⟩
      have entered : caller ≠ .missed := by
        rintro rfl
        cases inside
      have unfinished : ∀ result, caller ≠ .finished result := by
        rintro result rfl
        cases inside
      exact ⟨i, (List.getElem?_eq_some_iff.mp placed).1, caller, placed,
        fun missed => absurd missed entered, unfinished⟩
  | none =>
      simp only [Settled, not_forall] at unsettled
      rcases unsettled with ⟨caller, member, unfinished⟩
      rcases List.getElem?_of_mem member with ⟨i, placed⟩
      exact ⟨i, (List.getElem?_eq_some_iff.mp placed).1, caller, placed, fun _ => holds,
        fun result finished => unfinished ⟨result, finished⟩⟩

/-- Under a fair schedule a pool that is not at its end comes nearer to it. -/
theorem Orderly.exists_ahead_lt (orderly : p.Orderly key factory start) {schedule : Nat → Nat}
    (fair : Fair p.callers.length schedule) {moves : Nat}
    (unsettled : ¬ (p.after key factory schedule moves).Settled) :
    ∃ later ≥ moves,
      (p.after key factory schedule later).ahead < (p.after key factory schedule moves).ahead := by
  rcases (orderly.after schedule moves).exists_able unsettled with ⟨i, within, able⟩
  rw [orderly.length_after] at within
  rcases fair i within moves with ⟨turn, order, scheduled⟩
  -- Until the turn of the able caller, either a move has counted or nothing has changed.
  have waiting : ∀ later ≥ moves,
      p.after key factory schedule later = p.after key factory schedule moves ∨
        ∃ earlier ≥ moves, (p.after key factory schedule earlier).ahead <
          (p.after key factory schedule moves).ahead := by
    intro later order
    induction later, order using Nat.le_induction with
    | base => exact .inl rfl
    | succ later order ih =>
        rcases ih with same | nearer
        · have moved := (orderly.after schedule later).moves (schedule later)
          rw [← after_succ] at moved
          rcases moved.ahead_lt_or_eq with ⟨_, less⟩ | ⟨_, still⟩
          · exact .inr ⟨later + 1, Nat.le_succ_of_le order, same ▸ less⟩
          · exact .inl (still.trans same)
        · exact .inr nearer
  rcases waiting turn order with same | nearer
  · have moved := (orderly.after schedule turn).moves (schedule turn)
    rw [← after_succ, same, scheduled] at moved
    rcases moved.ahead_lt_or_eq with ⟨_, less⟩ | ⟨stuck, _⟩
    · exact ⟨turn + 1, Nat.le_succ_of_le order, less⟩
    · exact absurd able stuck
  · exact nearer

/-- Under a fair schedule all callers finish. -/
theorem Orderly.exists_settled (orderly : p.Orderly key factory start) {schedule : Nat → Nat}
    (fair : Fair p.callers.length schedule) (moves : Nat) :
    ∃ later ≥ moves, (p.after key factory schedule later).Settled := by
  generalize distance : (p.after key factory schedule moves).ahead = d
  induction d using Nat.strong_induction_on generalizing moves with
  | _ d ih =>
      by_cases settled : (p.after key factory schedule moves).Settled
      · exact ⟨moves, Nat.le_refl _, settled⟩
      · rcases orderly.exists_ahead_lt fair settled with ⟨nearer, order, less⟩
        rcases ih _ (distance ▸ less) nearer rfl with ⟨later, order', settled⟩
        exact ⟨later, Nat.le_trans order order', settled⟩

/-- A pool at its end stays there. -/
theorem Orderly.settled_after (orderly : p.Orderly key factory start) {schedule : Nat → Nat}
    {moves : Nat} (settled : (p.after key factory schedule moves).Settled) {later : Nat}
    (order : moves ≤ later) : (p.after key factory schedule later).Settled := by
  induction later, order using Nat.le_induction with
  | base => exact settled
  | succ later _ ih =>
      have moved := (orderly.after schedule later).moves (schedule later)
      rw [← after_succ] at moved
      rcases moved.ahead_lt_or_eq with ⟨⟨caller, placed, _, unfinished⟩, _⟩ | ⟨_, still⟩
      · rcases ih caller (List.mem_of_getElem? placed) with ⟨result, finished⟩
        exact absurd finished (unfinished result)
      · rwa [still]

theorem Orderly.eventually_settled (orderly : p.Orderly key factory start) {schedule : Nat → Nat}
    (fair : Fair p.callers.length schedule) :
    ∃ moves, ∀ later ≥ moves, (p.after key factory schedule later).Settled := by
  rcases orderly.exists_settled fair 0 with ⟨moves, _, settled⟩
  exact ⟨moves, fun later order => orderly.settled_after settled order⟩

/-- In a pool at its end the lock is free. -/
theorem Orderly.holder_of_settled (orderly : p.Orderly key factory start) (settled : p.Settled) :
    p.holder = none := by
  cases holds : p.holder with
  | none => rfl
  | some i =>
      rcases orderly.inside holds with ⟨caller, placed, inside⟩
      rcases settled caller (List.mem_of_getElem? placed) with ⟨result, rfl⟩
      cases inside

theorem Orderly.warrants (orderly : p.Orderly key factory start) {result : Except Fault Instance}
    (member : .finished result ∈ p.callers) : p.Warrants key factory start result := by
  rcases List.getElem?_of_mem member with ⟨i, placed⟩
  have elsewhere : p.holder ≠ some i := by
    intro holds
    cases orderly.inside_of_holds placed holds
  cases orderly.outside placed elsewhere with
  | finished warrants => exact warrants

/-! ## A factory that makes an instance -/

theorem Yields.returned (yields : p.Yields factory start outcome) (makes : Makes factory) :
    ∃ object, outcome = .returned (some object) := by
  rcases yields with ⟨run, _, ledger, _, rfl⟩
  exact makes run ledger

theorem Warrants.ok {result : Except Fault Instance}
    (warrants : p.Warrants key factory start result) (makes : Makes factory) :
    ∃ object, result = .ok object ∧ p.cache.get key = some object := by
  cases result with
  | ok object => exact ⟨object, rfl, warrants⟩
  | error fault =>
      rcases warrants with threw | returned
      · rcases threw.returned makes with ⟨object, made⟩
        cases made
      · rcases returned.returned makes with ⟨object, made⟩
        cases made

/-- Only a creation that has not ended has spent a run that has not led to the instance. -/
theorem Orderly.spent_eq_zero_or (orderly : p.Orderly key factory start) (makes : Makes factory)
    {i : Nat} {caller : Caller} (placed : p.callers[i]? = some caller) :
    caller.spent = 0 ∨ p.holder = some i ∧ p.cache.get key = none ∧ caller.spent = 1 := by
  by_cases holds : p.holder = some i
  · cases orderly.inside_of_holds placed holds with
    | holding | creating => exact .inl rfl
    | produced _ absent => exact .inr ⟨holds, absent, rfl⟩
    | closing _ warrants =>
        rcases warrants.ok makes with ⟨object, rfl, _⟩
        exact .inl rfl
  · cases orderly.outside placed holds with
    | arrived | missed => exact .inl rfl
    | finished warrants =>
        rcases warrants.ok makes with ⟨object, rfl, _⟩
        exact .inl rfl

theorem total_spent_eq_zero {callers : List Caller}
    (unspent : ∀ (i : Nat) caller, callers[i]? = some caller → caller.spent = 0) :
    total Caller.spent callers = 0 := by
  have each : ∀ caller ∈ callers, caller.spent = 0 := by
    intro caller member
    rcases List.getElem?_of_mem member with ⟨i, placed⟩
    exact unspent i caller placed
  exact total_eq_of_forall each

theorem total_spent_eq_of_only {callers : List Caller} {i : Nat} {caller : Caller}
    (placed : callers[i]? = some caller)
    (others : ∀ (j : Nat) other, j ≠ i → callers[j]? = some other → other.spent = 0) :
    total Caller.spent callers = caller.spent := by
  have unspent : total Caller.spent (callers.set i .arrived) = 0 := by
    apply total_spent_eq_zero
    intro j other placed'
    by_cases same : j = i
    · subst same
      rw [List.getElem?_set_self (List.getElem?_eq_some_iff.mp placed).1] at placed'
      obtain rfl := Option.some.inj placed'
      rfl
    · rw [List.getElem?_set_ne (Ne.symm same)] at placed'
      exact others j other same placed'
  have moved := total_set placed .arrived Caller.spent
  have fresh : Caller.spent .arrived = 0 := rfl
  omega

/-- The factory has been run once when the key has an instance. -/
theorem Orderly.runs_eq_one (orderly : p.Orderly key factory start) (makes : Makes factory)
    {object : Instance} (found : p.cache.get key = some object) : p.runs = 1 := by
  have unspent : total Caller.spent p.callers = 0 := by
    apply total_spent_eq_zero
    intro i caller placed
    rcases orderly.spent_eq_zero_or makes placed with unspent | ⟨_, absent, _⟩
    · exact unspent
    · simp [found] at absent
  rw [orderly.accounted, unspent, found]
  rfl

theorem Orderly.runs_le_one (orderly : p.Orderly key factory start) (makes : Makes factory) :
    p.runs ≤ 1 := by
  cases found : p.cache.get key with
  | some object => exact Nat.le_of_eq (orderly.runs_eq_one makes found)
  | none =>
      have accounted : p.runs = total Caller.spent p.callers := by
        simpa [found] using orderly.accounted
      rw [accounted]
      cases holds : p.holder with
      | none =>
          have unspent : total Caller.spent p.callers = 0 := by
            apply total_spent_eq_zero
            intro i caller placed
            exact (orderly.spent_eq_zero_or makes placed).resolve_right (by simp [holds])
          rw [unspent]
          exact Nat.zero_le 1
      | some i =>
          rcases orderly.inside holds with ⟨caller, placed, _⟩
          have only : total Caller.spent p.callers = caller.spent := by
            apply total_spent_eq_of_only placed
            intro j other differ placed'
            apply (orderly.spent_eq_zero_or makes placed').resolve_right
            rintro ⟨holds', _⟩
            exact differ (Option.some.inj (holds'.symm.trans holds))
          rw [only]
          rcases orderly.spent_eq_zero_or makes placed with unspent | ⟨_, _, spent⟩ <;> omega

/-- The instance is the one that the factory makes when it is run first. -/
theorem Orderly.eq_first (orderly : p.Orderly key factory start) (makes : Makes factory)
    {object first : Instance} (run : (factory 0 start).1 = .returned (some first))
    (found : p.cache.get key = some object) : object = first := by
  rcases orderly.made found with ⟨n, less, ledger, begun, made⟩
  have once := orderly.runs_le_one makes
  obtain rfl : n = 0 := by omega
  rw [begun rfl, run] at made
  exact (Option.some.inj (Outcome.returned.inj made)).symm

/-- Whoever has finished has the instance. -/
theorem Orderly.ok_of_makes (orderly : p.Orderly key factory start) (makes : Makes factory)
    {first : Instance} (run : (factory 0 start).1 = .returned (some first))
    {result : Except Fault Instance} (member : .finished result ∈ p.callers) :
    result = .ok first ∧ p.cache.get key = some first := by
  rcases (orderly.warrants member).ok makes with ⟨object, rfl, found⟩
  obtain rfl := orderly.eq_first makes run found
  exact ⟨rfl, found⟩

/-- At the end all callers share the instance from the one run of the factory. -/
theorem Orderly.shared_of_settled (orderly : p.Orderly key factory start) (makes : Makes factory)
    {first : Instance} (run : (factory 0 start).1 = .returned (some first)) (settled : p.Settled)
    (someone : 0 < p.callers.length) :
    p.runs = 1 ∧ p.callers = List.replicate p.callers.length (.finished (.ok first)) := by
  have finished : ∀ caller ∈ p.callers,
      caller = .finished (.ok first) ∧ p.cache.get key = some first := by
    intro caller member
    rcases settled caller member with ⟨result, rfl⟩
    rcases orderly.ok_of_makes makes run member with ⟨rfl, found⟩
    exact ⟨rfl, found⟩
  have found := (finished _ (List.getElem_mem someone)).2
  constructor
  · exact orderly.runs_eq_one makes found
  · exact List.eq_replicate_iff.mpr ⟨rfl, fun caller member => (finished caller member).1⟩

/-! ## A factory that fails -/

/-- Where the factory only fails the key stays absent. -/
theorem Orderly.absent_of_throws (orderly : p.Orderly key factory start)
    (throws : Throws factory) : p.cache.get key = none := by
  cases found : p.cache.get key with
  | none => rfl
  | some object =>
      rcases orderly.made found with ⟨run, _, ledger, _, made⟩
      rcases throws run ledger with ⟨fault, threw⟩
      rw [made] at threw
      contradiction

/-- Whoever comes back comes back with a failure of the factory. -/
theorem Orderly.failed_of_throws (orderly : p.Orderly key factory start) (throws : Throws factory)
    {result : Except Fault Instance} (member : .finished result ∈ p.callers) :
    ∃ fault, result = .error fault ∧ p.Yields factory start (.threw fault) := by
  have warrants := orderly.warrants member
  cases result with
  | ok object =>
      have absent := orderly.absent_of_throws throws
      rw [Warrants, absent] at warrants
      contradiction
  | error fault =>
      rcases warrants with threw | ⟨run, _, ledger, _, returned⟩
      · exact ⟨fault, rfl, threw⟩
      · rcases throws run ledger with ⟨fault, threw⟩
        rw [returned] at threw
        contradiction

/-- At the end the factory has failed every caller once. -/
theorem Orderly.runs_of_throws (orderly : p.Orderly key factory start) (throws : Throws factory)
    (settled : p.Settled) : p.runs = p.callers.length := by
  have spent : ∀ caller ∈ p.callers, caller.spent = 1 := by
    intro caller member
    rcases settled caller member with ⟨result, rfl⟩
    rcases orderly.failed_of_throws throws member with ⟨fault, rfl, _⟩
    rfl
  rw [orderly.accounted, orderly.absent_of_throws throws, total_eq_of_forall spent]
  exact Nat.mul_one _

/-! ## All callers -/

/-- A number of callers request a key that is absent, watched and not in creation, and their moves
interleave in any way.  If each of them gets to move again and again, all of them finish.  A factory
that makes an instance every time is run at most once; the key has nothing, or the instance from
that run, and does not lose it again; and when all have finished the factory has been run once and
every caller has that instance.  A factory that fails every time never gives the key an instance,
and when all have finished it has been run once for every caller, each of them has failed with a
fault of the factory, and the key is not in creation. -/
theorem one_creation_for_all {cache : Cache κ} (absent : cache.get key = none)
    (watched : key ∉ cache.tracker.excluded) (idle : key ∉ cache.tracker.inCreation)
    (allowed : cache.inDestruction = false) {count : Nat} (someone : 0 < count)
    (ledger : Ledger) (factory : Factory) (schedule : Nat → Nat) :
    let pool := (arrive cache ledger count).after key factory schedule
    (Fair count schedule → ∃ moves, ∀ later ≥ moves, (pool later).Settled) ∧
      (Makes factory →
        ∃ object, (factory 0 ledger).1 = .returned (some object) ∧ ∀ moves,
          (pool moves).runs ≤ 1 ∧
          ((pool moves).cache.get key = none ∨
            ∀ later ≥ moves, (pool later).cache.get key = some object) ∧
          (∀ result, .finished result ∈ (pool moves).callers → result = .ok object) ∧
          ((pool moves).Settled → (pool moves).runs = 1 ∧
            (pool moves).callers = List.replicate count (.finished (.ok object)))) ∧
      (Throws factory → ∀ moves,
          (pool moves).cache.get key = none ∧
          (∀ result, .finished result ∈ (pool moves).callers →
            ∃ fault, result = .error fault ∧ (pool moves).Yields factory ledger (.threw fault)) ∧
          ((pool moves).Settled → (pool moves).runs = count ∧
            (pool moves).callers.length = count ∧
            key ∉ (pool moves).cache.tracker.inCreation)) := by
  intro pool
  have arrived : (arrive cache ledger count).Orderly key factory ledger :=
    .arrive absent watched idle allowed count
  have orderly : ∀ moves, (pool moves).Orderly key factory ledger := arrived.after schedule
  have length : ∀ moves, (pool moves).callers.length = count := by
    intro moves
    rw [arrived.length_after schedule moves]
    exact List.length_replicate
  have ends : Fair count schedule → ∃ moves, ∀ later ≥ moves, (pool later).Settled := by
    intro fair
    apply arrived.eventually_settled
    rwa [arrive, List.length_replicate]
  refine ⟨ends, ?makes, ?throws⟩
  case makes =>
    intro makes
    rcases makes 0 ledger with ⟨object, run⟩
    refine ⟨object, run, fun moves => ⟨(orderly moves).runs_le_one makes, ?get, ?result, ?settled⟩⟩
    case get =>
      cases found : (pool moves).cache.get key with
      | none => exact .inl rfl
      | some other =>
          obtain rfl := (orderly moves).eq_first makes run found
          exact .inr fun later order => (arrived.kept_after schedule order).get found
    case result =>
      intro result member
      exact ((orderly moves).ok_of_makes makes run member).1
    case settled =>
      intro settled
      have shared := (orderly moves).shared_of_settled makes run settled
      rw [length] at shared
      exact shared someone
  case throws =>
    intro throws moves
    have order := orderly moves
    refine ⟨order.absent_of_throws throws, ?failed, ?settled⟩
    case failed =>
      intro result member
      exact order.failed_of_throws throws member
    case settled =>
      intro settled
      have runs := order.runs_of_throws throws settled
      rw [length] at runs
      exact ⟨runs, length moves, order.idle (order.holder_of_settled settled)⟩

/-- Two callers take turns.  With a factory that makes a new instance in each run both end with the
instance of the first run; with one that raises a fault in each run it is run twice, and the key is
left as it was. -/
theorem two_callers_in_turn :
    (let made : Factory := fun run ledger => (.returned (some ⟨"Service", run⟩), ledger)
      let pool := (arrive ({} : Cache Unit) {} 2).after "a" made (· % 2)
      ∃ moves, (pool moves).runs = 1 ∧
        (pool moves).callers = List.replicate 2 (.finished (.ok ⟨"Service", 0⟩))) ∧
    (let failed : Factory := fun _ ledger =>
        (.threw (ledger.raise (.runtime "refused")).1, (ledger.raise (.runtime "refused")).2)
      let pool := (arrive ({} : Cache Unit) {} 2).after "a" failed (· % 2)
      ∃ moves, (pool moves).runs = 2 ∧ (pool moves).cache.get "a" = none ∧
        "a" ∉ (pool moves).cache.tracker.inCreation) := by
  have absent : ({} : Cache Unit).get "a" = none := rfl
  have watched : "a" ∉ ({} : Cache Unit).tracker.excluded := NameMap.not_mem_empty "a"
  have idle : "a" ∉ ({} : Cache Unit).tracker.inCreation := NameMap.not_mem_empty "a"
  have fair : Fair 2 (· % 2) := by
    intro i less moves
    have turn : (2 * moves + i) % 2 = i := by omega
    exact ⟨2 * moves + i, by omega, turn⟩
  constructor
  · intro made pool
    rcases one_creation_for_all absent watched idle rfl Nat.two_pos {} made (· % 2) with
      ⟨ends, makes, _⟩
    rcases ends fair with ⟨moves, settled⟩
    rcases makes (fun run ledger => ⟨⟨"Service", run⟩, rfl⟩) with ⟨object, first, pools⟩
    obtain rfl : (⟨"Service", 0⟩ : Instance) = object :=
      Option.some.inj (Outcome.returned.inj first)
    exact ⟨moves, (pools moves).2.2.2 (settled moves (Nat.le_refl _))⟩
  · intro failed pool
    rcases one_creation_for_all absent watched idle rfl Nat.two_pos {} failed (· % 2) with
      ⟨ends, _, throws⟩
    rcases ends fair with ⟨moves, settled⟩
    rcases throws (fun run ledger => ⟨_, rfl⟩) moves with ⟨absent, _, pools⟩
    rcases pools (settled moves (Nat.le_refl _)) with ⟨runs, _, idle⟩
    exact ⟨moves, runs, absent, idle⟩

end Pool

end Lifecycle
