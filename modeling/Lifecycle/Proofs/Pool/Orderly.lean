import Lifecycle.Pool
import Lifecycle.Proofs.Creation.Stores
import Mathlib.Tactic.ByContra

/-!
# The order among the callers of a pool

Whoever holds the lock is between its second look and its release, and everybody else is not
(`Pool.Orderly`).  The key is in creation from the moment at which the holder begins the creation
to the moment at which it ends it, and until then nobody has an instance.  Every run of the factory
is accounted for: it has made the instance, or it has failed a caller, or it is the holder's, whose
creation has not ended yet.

No move of a caller disturbs this (`Pool.Orderly.step`), whatever the factory comes to.
-/

namespace Lifecycle

open Log

variable {κ : Type}

/-! ## One creation, undisturbed -/

namespace Cache

/-- The creation of an absent key begins if the key is watched and not being created. -/
theorem openCreation_of_absent {c : Cache κ} {key : Name} (absent : c.get key = none)
    (allowed : c.inDestruction = false) (watched : key ∉ c.tracker.excluded)
    (idle : key ∉ c.tracker.inCreation) :
    (c.openCreation key).value = .started c.suppressed.isNone
      { c with
        tracker := { c.tracker with inCreation := c.tracker.inCreation.add key }
        suppressed := some (c.suppressed.getD []) } := by
  simp [openCreation, absent, allowed, Tracker.start, watched, idle]

/-- How the creation of a key ends that is absent until the end: with the instance the factory has
made, or with a failure that leaves the key absent. -/
structure Ending (c : Cache κ) (key : Name) (outcome : Outcome) (result : Except Fault Instance)
    (c' : Cache κ) : Prop where
  idle : key ∉ c'.tracker.inCreation
  excluded : c'.tracker.excluded = c.tracker.excluded
  inDestruction : c'.inDestruction = c.inDestruction
  result : (∃ object, outcome = .returned (some object) ∧ result = .ok object ∧
      c'.get key = some object) ∨
    ∃ fault, (outcome = .threw fault ∨ outcome = .returned none) ∧ result = .error fault ∧
      c'.get key = none

theorem ending_closeCreation {c : Cache κ} {key : Name} (absent : c.get key = none)
    (watched : key ∉ c.tracker.excluded) (running : key ∈ c.tracker.inCreation) (ledger : Ledger)
    (outermost : Bool) (outcome : Outcome) :
    Ending c key outcome (c.closeCreation ledger key outermost outcome).value.1
      (c.closeCreation ledger key outermost outcome).value.2.1 := by
  have closing := c.closing_closeCreation ledger key outermost outcome
  have ends : (c.tracker.finish key).value =
      .ok { c.tracker with inCreation := c.tracker.inCreation.erase key } := by
    simp [Tracker.finish, watched, running]
  have tracker := closing.tracker_eq ends
  revert closing tracker
  generalize (c.closeCreation ledger key outermost outcome).value.1 = result
  generalize (c.closeCreation ledger key outermost outcome).value.2.1 = c'
  intro closing tracker
  constructor
  case idle => simp [tracker]
  case excluded => rw [tracker]
  case inDestruction =>
    cases closing with
    | fresh => rw [inDestruction_finalize]
    | adopted => rfl
    | failed => exact inDestruction_discardPartial _ key
    | unknown refused => exact absurd (refused.symm.trans ends) (by simp)
  case result =>
    cases closing with
    | @fresh object tracker' suppressed =>
        have kept : (c.get key).getD object = object := by rw [absent, Option.getD_none]
        have finalized := get_finalize { c with suppressed, tracker := tracker' } key object key
        rw [if_pos rfl] at finalized
        exact .inl ⟨object, rfl, by rw [kept], finalized.trans (congrArg some kept)⟩
    | adopted _ _ found => exact absurd (absent.symm.trans found) (by simp)
    | @failed _ fault _ suppressed _ failure =>
        have left : ({ c with suppressed }.discardPartial key).value.get key = none := by
          rw [get, finalized_discardPartial]
          exact absent
        exact .inr ⟨fault, failure.imp_right And.left, rfl, left⟩
    | unknown refused => exact absurd (refused.symm.trans ends) (by simp)

end Cache

/-! ## Where callers stand -/

/-- The runs of the factory that a caller has made and from which no instance has come as yet. -/
def Caller.spent : Caller → Nat
  | .produced _ _ | .closing (.error _) | .finished (.error _) => 1
  | _ => 0

namespace Pool

/-- What callers count for together. -/
def total (weight : Caller → Nat) : List Caller → Nat
  | [] => 0
  | caller :: rest => weight caller + total weight rest

/-- When one caller moves, a total changes by what this caller counts for. -/
theorem total_set {callers : List Caller} {i : Nat} {old : Caller}
    (placed : callers[i]? = some old) (new : Caller) (weight : Caller → Nat) :
    total weight (callers.set i new) + weight old = total weight callers + weight new := by
  induction callers generalizing i with
  | nil => simp at placed
  | cons first rest ih =>
      cases i with
      | zero =>
          obtain rfl := Option.some.inj placed
          simp only [List.set_cons_zero, total]
          omega
      | succ i =>
          have changed := ih placed
          simp only [List.set_cons_succ, total]
          omega

/-- Where all callers count for the same, so do they together. -/
theorem total_eq_of_forall {weight : Caller → Nat} {share : Nat} {callers : List Caller}
    (each : ∀ caller ∈ callers, weight caller = share) :
    total weight callers = callers.length * share := by
  induction callers with
  | nil => simp [total]
  | cons caller rest ih =>
      have others := ih fun other member => each other (List.mem_cons_of_mem _ member)
      rw [total, others, each caller List.mem_cons_self, List.length_cons, Nat.succ_mul,
        Nat.add_comm]

section

variable (key : Name) (factory : Factory) (start : Ledger) (p : Pool κ)

/-- The factory has come to an outcome in one of its runs so far, the first of which began with a
given ledger. -/
def Yields (outcome : Outcome) : Prop :=
  ∃ run < p.runs, ∃ ledger, (run = 0 → ledger = start) ∧ (factory run ledger).1 = outcome

/-- A caller has reason to come back with a result: the key has the instance, or the factory has
failed. -/
def Warrants : Except Fault Instance → Prop
  | .ok object => p.cache.get key = some object
  | .error fault => p.Yields factory start (.threw fault) ∨ p.Yields factory start (.returned none)

/-- Where a caller may stand that does not hold the lock. -/
inductive Outside : Caller → Prop where
  | arrived : Outside .arrived
  | missed : Outside .missed
  | finished {result : Except Fault Instance} (warrants : p.Warrants key factory start result) :
      Outside (.finished result)

/-- Where the caller may stand that holds the lock. -/
inductive Inside : Caller → Prop where
  | holding (idle : key ∉ p.cache.tracker.inCreation) : Inside .holding
  | creating {outermost : Bool} (running : key ∈ p.cache.tracker.inCreation)
      (absent : p.cache.get key = none) : Inside (.creating outermost)
  | produced {outermost : Bool} {outcome : Outcome} (running : key ∈ p.cache.tracker.inCreation)
      (absent : p.cache.get key = none) (yields : p.Yields factory start outcome) :
      Inside (.produced outermost outcome)
  | closing {result : Except Fault Instance} (idle : key ∉ p.cache.tracker.inCreation)
      (warrants : p.Warrants key factory start result) : Inside (.closing result)

/-- The order among callers that request a key of a cache in which it is watched. -/
structure Orderly : Prop where
  outside {i : Nat} {caller : Caller} (placed : p.callers[i]? = some caller)
    (elsewhere : p.holder ≠ some i) : p.Outside key factory start caller
  inside {i : Nat} (holds : p.holder = some i) :
    ∃ caller, p.callers[i]? = some caller ∧ p.Inside key factory start caller
  idle (free : p.holder = none) : key ∉ p.cache.tracker.inCreation
  watched : key ∉ p.cache.tracker.excluded
  allowed : p.cache.inDestruction = false
  /-- Every run of the factory has made the instance, or belongs to a caller. -/
  accounted : p.runs = total Caller.spent p.callers + (p.cache.get key).toList.length
  made {object : Instance} (found : p.cache.get key = some object) :
    p.Yields factory start (.returned (some object))
  untouched (unused : p.runs = 0) : p.ledger = start

end

variable {key : Name} {factory : Factory} {start : Ledger} {p q r : Pool κ}

/-- What no move of a caller undoes. -/
structure Kept (key : Name) (p q : Pool κ) : Prop where
  runs : p.runs ≤ q.runs
  get {object : Instance} (found : p.cache.get key = some object) : q.cache.get key = some object
  excluded : q.cache.tracker.excluded = p.cache.tracker.excluded
  inDestruction : q.cache.inDestruction = p.cache.inDestruction

theorem Kept.refl (key : Name) (p : Pool κ) : Kept key p p :=
  ⟨Nat.le_refl _, id, rfl, rfl⟩

theorem Kept.trans (first : Kept key p q) (second : Kept key q r) : Kept key p r :=
  ⟨Nat.le_trans first.runs second.runs, fun found => second.get (first.get found),
    second.excluded.trans first.excluded, second.inDestruction.trans first.inDestruction⟩

theorem Yields.mono {outcome : Outcome} (yields : p.Yields factory start outcome)
    (grows : p.runs ≤ q.runs) : q.Yields factory start outcome := by
  rcases yields with ⟨run, less, made⟩
  exact ⟨run, Nat.lt_of_lt_of_le less grows, made⟩

theorem Warrants.mono {result : Except Fault Instance}
    (warrants : p.Warrants key factory start result) (kept : Kept key p q) :
    q.Warrants key factory start result := by
  cases result with
  | ok object => exact kept.get warrants
  | error fault => exact warrants.imp (·.mono kept.runs) (·.mono kept.runs)

theorem Outside.mono {caller : Caller} (outside : p.Outside key factory start caller)
    (kept : Kept key p q) : q.Outside key factory start caller := by
  cases outside with
  | arrived => exact .arrived
  | missed => exact .missed
  | finished warrants => exact .finished (warrants.mono kept)

theorem Inside.mono {caller : Caller} (inside : p.Inside key factory start caller)
    (kept : Kept key p q) (cache : q.cache = p.cache) : q.Inside key factory start caller := by
  cases inside with
  | holding idle => exact .holding (cache ▸ idle)
  | creating running absent => exact .creating (cache ▸ running) (cache ▸ absent)
  | produced running absent yields =>
      exact .produced (cache ▸ running) (cache ▸ absent) (yields.mono kept.runs)
  | closing idle warrants => exact .closing (cache ▸ idle) (warrants.mono kept)

/-! ## What a move does -/

/-- A caller can go on: it has not finished, and it does not wait for a lock that somebody holds. -/
def Able (p : Pool κ) (i : Nat) : Prop :=
  ∃ caller, p.callers[i]? = some caller ∧ (caller = .missed → p.holder = none) ∧
    ∀ result, caller ≠ .finished result

/-- What the move of a caller makes of a pool, when the key is watched and may be created. -/
inductive Moves (key : Name) (factory : Factory) (p : Pool κ) (i : Nat) : Pool κ → Prop where
  | rests (stuck : ¬ p.Able i) : Moves key factory p i p
  | finds {object : Instance} (placed : p.callers[i]? = some .arrived)
      (found : p.cache.get key = some object) :
      Moves key factory p i (p.place i (.finished (.ok object)))
  | misses (placed : p.callers[i]? = some .arrived) (absent : p.cache.get key = none) :
      Moves key factory p i (p.place i .missed)
  | enters (placed : p.callers[i]? = some .missed) (free : p.holder = none) :
      Moves key factory p i { p.place i .holding with holder := some i }
  | findsInside {object : Instance} (placed : p.callers[i]? = some .holding)
      (found : p.cache.get key = some object) :
      Moves key factory p i (p.place i (.closing (.ok object)))
  | begins {outermost : Bool} {suppressed : Option (List Fault)}
      (placed : p.callers[i]? = some .holding) (absent : p.cache.get key = none) :
      Moves key factory p i
        { p.place i (.creating outermost) with
          cache :=
            { p.cache with
              tracker :=
                { p.cache.tracker with inCreation := p.cache.tracker.inCreation.add key }
              suppressed } }
  | runs {outermost : Bool} (placed : p.callers[i]? = some (.creating outermost)) :
      Moves key factory p i
        { p.place i (.produced outermost (factory p.runs p.ledger).1) with
          ledger := (factory p.runs p.ledger).2, runs := p.runs + 1 }
  | ends {outermost : Bool} {outcome : Outcome} {result : Except Fault Instance} {cache : Cache κ}
      {ledger : Ledger} (placed : p.callers[i]? = some (.produced outermost outcome))
      (ending : p.cache.Ending key outcome result cache) :
      Moves key factory p i { p.place i (.closing result) with cache, ledger }
  | leaves {result : Except Fault Instance} (placed : p.callers[i]? = some (.closing result)) :
      Moves key factory p i { p.place i (.finished result) with holder := none }

/-- The holder stands inside. -/
theorem Orderly.inside_of_holds (orderly : p.Orderly key factory start) {i : Nat} {caller : Caller}
    (placed : p.callers[i]? = some caller) (holds : p.holder = some i) :
    p.Inside key factory start caller := by
  rcases orderly.inside holds with ⟨caller', placed', inside⟩
  rw [placed] at placed'
  exact Option.some.inj placed' ▸ inside

/-- Who stands where only the holder may stand holds the lock. -/
theorem Orderly.holds (orderly : p.Orderly key factory start) {i : Nat} {caller : Caller}
    (placed : p.callers[i]? = some caller) (inside : ¬ p.Outside key factory start caller) :
    p.holder = some i := by
  by_contra elsewhere
  exact inside (orderly.outside placed elsewhere)

theorem Orderly.moves (orderly : p.Orderly key factory start) (i : Nat) :
    Moves key factory p i (p.step key factory i).value := by
  cases placed : p.callers[i]? with
  | none =>
      rw [step, placed]
      exact .rests (by simp [Able, placed])
  | some caller =>
      by_cases holds : p.holder = some i
      · cases orderly.inside_of_holds placed holds with
        | holding idle =>
            cases found : p.cache.get key with
            | some object =>
                have moves : Moves key factory p i (p.place i (.closing (.ok object))) :=
                  .findsInside placed found
                simpa [step, placed, Cache.openCreation, found] using moves
            | none =>
                have opened :=
                  Cache.openCreation_of_absent found orderly.allowed orderly.watched idle
                simpa [step, placed, opened] using Moves.begins placed found
        | creating running absent => simpa [step, placed] using Moves.runs placed
        | @produced outermost outcome running absent yields =>
            have ending := Cache.ending_closeCreation absent orderly.watched running p.ledger
              outermost outcome
            simpa [step, placed] using Moves.ends placed ending
        | closing idle warrants => simpa [step, placed] using Moves.leaves placed
      · cases orderly.outside placed holds with
        | arrived =>
            cases found : p.cache.get key with
            | some object => simpa [step, placed, found] using Moves.finds placed found
            | none => simpa [step, placed, found] using Moves.misses placed found
        | missed =>
            cases free : p.holder with
            | some other =>
                have stays : Moves key factory p i p := .rests (by simp [Able, placed, free])
                simpa [step, placed, free] using stays
            | none => simpa [step, placed, free] using Moves.enters placed free
        | @finished result warrants =>
            have stays : Moves key factory p i p := .rests (by simp [Able, placed])
            simpa [step, placed] using stays

/-! ## The order is kept -/

theorem Orderly.arrive {cache : Cache κ} {ledger : Ledger} (absent : cache.get key = none)
    (watched : key ∉ cache.tracker.excluded) (idle : key ∉ cache.tracker.inCreation)
    (allowed : cache.inDestruction = false) (count : Nat) :
    (Pool.arrive cache ledger count).Orderly key factory ledger where
  outside placed _ := by
    have arrived := List.mem_of_getElem? placed
    obtain rfl := List.eq_of_mem_replicate arrived
    exact .arrived
  inside holds := by contradiction
  idle _ := idle
  watched := watched
  allowed := allowed
  accounted := by
    have unspent : ∀ caller ∈ List.replicate count Caller.arrived, caller.spent = 0 := by
      intro caller member
      rw [List.eq_of_mem_replicate member]
      rfl
    simp [Pool.arrive, total_eq_of_forall unspent, absent]
  made found := by
    rw [Pool.arrive, absent] at found
    contradiction
  untouched _ := rfl

theorem Orderly.kept (orderly : p.Orderly key factory start) {i : Nat}
    (moves : Moves key factory p i q) : Kept key p q := by
  cases moves with
  | rests => exact .refl key p
  | finds | misses | enters | findsInside | begins | leaves => exact ⟨Nat.le_refl _, id, rfl, rfl⟩
  | runs => exact ⟨Nat.le_succ _, id, rfl, rfl⟩
  | ends placed ending =>
      cases orderly.inside_of_holds placed (orderly.holds placed nofun) with
      | produced _ absent =>
          exact ⟨Nat.le_refl _, fun found => absurd (absent.symm.trans found) nofun,
            ending.excluded, ending.inDestruction⟩

theorem Moves.callers_of_ne {i j : Nat} (moves : Moves key factory p i q) (other : j ≠ i) :
    q.callers[j]? = p.callers[j]? := by
  cases moves with
  | rests => rfl
  | finds | misses | enters | findsInside | begins | runs | ends | leaves =>
      exact List.getElem?_set_ne (Ne.symm other)

/-- A caller that moves is somewhere else afterwards, in the same row. -/
theorem getElem?_place {i : Nat} {old : Caller} (placed : p.callers[i]? = some old)
    (caller : Caller) : (p.place i caller).callers[i]? = some caller := by
  have within := (List.getElem?_eq_some_iff.mp placed).1
  exact List.getElem?_set_self within

theorem Orderly.holder_of_ne (orderly : p.Orderly key factory start) {i j : Nat}
    (moves : Moves key factory p i q) (other : j ≠ i) :
    q.holder = some j ↔ p.holder = some j := by
  cases moves with
  | rests | finds | misses | findsInside | begins | runs | ends => rfl
  | enters placed free => simp [free, Ne.symm other]
  | leaves placed => simp [orderly.holds placed nofun, Ne.symm other]

/-- Nobody but the holder changes the cache. -/
theorem Orderly.cache_of_ne (orderly : p.Orderly key factory start) {i j : Nat}
    (moves : Moves key factory p i q) (other : j ≠ i) (holds : p.holder = some j) :
    q.cache = p.cache := by
  have elsewhere : p.holder ≠ some i := by simp [holds, other]
  cases moves with
  | rests | finds | misses | enters | findsInside | runs | leaves => rfl
  | begins placed => exact absurd (orderly.holds placed nofun) elsewhere
  | ends placed => exact absurd (orderly.holds placed nofun) elsewhere

theorem Orderly.outside_of_moves (orderly : p.Orderly key factory start) {i j : Nat}
    (moves : Moves key factory p i q) {caller : Caller} (placed : q.callers[j]? = some caller)
    (elsewhere : q.holder ≠ some j) : q.Outside key factory start caller := by
  by_cases mover : j = i
  · subst mover
    cases moves with
    | rests => exact orderly.outside placed elsewhere
    | finds before found =>
        obtain rfl := Option.some.inj ((getElem?_place before _).symm.trans placed)
        exact .finished found
    | misses before =>
        obtain rfl := Option.some.inj ((getElem?_place before _).symm.trans placed)
        exact .missed
    | enters => exact absurd rfl elsewhere
    | findsInside before => exact absurd (orderly.holds before nofun) elsewhere
    | begins before => exact absurd (orderly.holds before nofun) elsewhere
    | runs before => exact absurd (orderly.holds before nofun) elsewhere
    | ends before => exact absurd (orderly.holds before nofun) elsewhere
    | leaves before =>
        obtain rfl := Option.some.inj ((getElem?_place before _).symm.trans placed)
        cases orderly.inside_of_holds before (orderly.holds before nofun) with
        | closing idle warrants => exact .finished warrants
  · rw [moves.callers_of_ne mover] at placed
    rw [ne_eq, orderly.holder_of_ne moves mover] at elsewhere
    exact (orderly.outside placed elsewhere).mono (orderly.kept moves)

theorem Orderly.inside_of_moves (orderly : p.Orderly key factory start) {i j : Nat}
    (moves : Moves key factory p i q) (holds : q.holder = some j) :
    ∃ caller, q.callers[j]? = some caller ∧ q.Inside key factory start caller := by
  by_cases mover : j = i
  · subst mover
    cases moves with
    | rests => exact orderly.inside holds
    | finds before =>
        cases orderly.inside_of_holds before holds
    | misses before =>
        cases orderly.inside_of_holds before holds
    | enters before free => exact ⟨_, getElem?_place before _, .holding (orderly.idle free)⟩
    | findsInside before found =>
        cases orderly.inside_of_holds before holds with
        | holding idle => exact ⟨_, getElem?_place before _, .closing idle found⟩
    | begins before absent =>
        exact ⟨_, getElem?_place before _, .creating (by simp) absent⟩
    | runs before =>
        cases orderly.inside_of_holds before holds with
        | creating running absent =>
            exact ⟨_, getElem?_place before _, .produced running absent
              ⟨p.runs, Nat.lt_succ_self _, p.ledger, orderly.untouched, rfl⟩⟩
    | ends before ending =>
        cases orderly.inside_of_holds before holds with
        | produced _ _ yields =>
            rcases ending.result with ⟨object, _, rfl, found⟩ | ⟨fault, rfl | rfl, rfl, _⟩
            · exact ⟨_, getElem?_place before _, .closing ending.idle found⟩
            · exact ⟨_, getElem?_place before _, .closing ending.idle (.inl yields)⟩
            · exact ⟨_, getElem?_place before _, .closing ending.idle (.inr yields)⟩
    | leaves => contradiction
  · rw [orderly.holder_of_ne moves mover] at holds
    rcases orderly.inside holds with ⟨caller, placed, inside⟩
    rw [moves.callers_of_ne mover]
    exact ⟨caller, placed,
      inside.mono (orderly.kept moves) (orderly.cache_of_ne moves mover holds)⟩

/-- The key is not in creation while nobody holds the lock. -/
theorem Orderly.idle_of_moves (orderly : p.Orderly key factory start) {i : Nat}
    (moves : Moves key factory p i q) (free : q.holder = none) :
    key ∉ q.cache.tracker.inCreation := by
  cases moves with
  | rests | finds | misses | findsInside => exact orderly.idle free
  | enters => contradiction
  | begins placed => exact absurd ((orderly.holds placed nofun).symm.trans free) (by simp)
  | runs placed => exact absurd ((orderly.holds placed nofun).symm.trans free) (by simp)
  | ends placed => exact absurd ((orderly.holds placed nofun).symm.trans free) (by simp)
  | leaves placed =>
      cases orderly.inside_of_holds placed (orderly.holds placed nofun) with
      | closing idle => exact idle

/-- The account still holds when one caller moves and the balance does. -/
theorem Orderly.accounted_place (orderly : p.Orderly key factory start) {i : Nat} {old new : Caller}
    (placed : p.callers[i]? = some old) {runs : Nat} {handle : Handle}
    (balance : runs + old.spent + (p.cache.get key).toList.length =
      p.runs + new.spent + handle.toList.length) :
    runs = total Caller.spent (p.place i new).callers + handle.toList.length := by
  have accounted := orderly.accounted
  have moved := total_set placed new Caller.spent
  simp only [place]
  omega

theorem Orderly.accounted_of_moves (orderly : p.Orderly key factory start) {i : Nat}
    (moves : Moves key factory p i q) :
    q.runs = total Caller.spent q.callers + (q.cache.get key).toList.length := by
  cases moves with
  | rests => exact orderly.accounted
  | finds placed | misses placed | enters placed | findsInside placed | begins placed
  | runs placed => exact orderly.accounted_place placed rfl
  | ends placed ending =>
      apply orderly.accounted_place placed
      cases orderly.inside_of_holds placed (orderly.holds placed nofun) with
      | produced _ absent =>
          rcases ending.result with ⟨object, _, rfl, found⟩ | ⟨fault, _, rfl, absent'⟩
          · simp [place, Caller.spent, absent, found]
          · simp [place, Caller.spent, absent, absent']
  | @leaves result placed =>
      apply orderly.accounted_place placed
      cases result <;> rfl

theorem Orderly.made_of_moves (orderly : p.Orderly key factory start) {i : Nat}
    (moves : Moves key factory p i q) {object : Instance}
    (found : q.cache.get key = some object) :
    q.Yields factory start (.returned (some object)) := by
  have kept := orderly.kept moves
  cases moves with
  | rests | finds | misses | enters | findsInside | begins | runs | leaves =>
      exact (orderly.made found).mono kept.runs
  | ends placed ending =>
      rcases ending.result with ⟨made, rfl, _, found'⟩ | ⟨_, _, _, absent⟩
      · obtain rfl := Option.some.inj (found'.symm.trans found)
        cases orderly.inside_of_holds placed (orderly.holds placed nofun) with
        | produced _ _ yields => exact yields
      · exact absurd (absent.symm.trans found) (by simp)

theorem Orderly.untouched_of_moves (orderly : p.Orderly key factory start) {i : Nat}
    (moves : Moves key factory p i q) (unused : q.runs = 0) : q.ledger = start := by
  cases moves with
  | rests | finds | misses | enters | findsInside | begins | leaves =>
      exact orderly.untouched unused
  | runs => contradiction
  | ends placed =>
      cases orderly.inside_of_holds placed (orderly.holds placed nofun) with
      | produced _ _ yields =>
          rcases yields with ⟨run, less, _⟩
          exact absurd (unused ▸ less) (Nat.not_lt_zero run)

/-- Whatever the factory comes to, the move of a caller keeps the order. -/
theorem Orderly.step (orderly : p.Orderly key factory start) (i : Nat) :
    (p.step key factory i).value.Orderly key factory start where
  outside placed elsewhere := orderly.outside_of_moves (orderly.moves i) placed elsewhere
  inside holds := orderly.inside_of_moves (orderly.moves i) holds
  idle free := orderly.idle_of_moves (orderly.moves i) free
  watched := by
    rw [(orderly.kept (orderly.moves i)).excluded]
    exact orderly.watched
  allowed := by
    rw [(orderly.kept (orderly.moves i)).inDestruction]
    exact orderly.allowed
  accounted := orderly.accounted_of_moves (orderly.moves i)
  made found := orderly.made_of_moves (orderly.moves i) found
  untouched unused := orderly.untouched_of_moves (orderly.moves i) unused

end Pool

end Lifecycle
