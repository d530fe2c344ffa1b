import Lifecycle.Proofs.Creation.InCreation

/-!
# The record of failures

The cache keeps a record of swallowed failures from the moment at which a creation begins while no
other is going on to the moment at which that creation ends, whatever is done in between.  A
creation is told at its beginning whether it is this outermost one, and nothing that happens later
makes that wrong, because the creations below it on the stack cannot end before it does.
-/

namespace Lifecycle

open Log

variable {κ : Type}

namespace Frame

/-- A creation is marked as the outermost one exactly if it waits above no other. -/
def Marked : List (Frame κ) → Prop
  | [] => True
  | creating _ outermost :: rest => outermost = (creations rest).isEmpty ∧ Marked rest
  | _ :: rest => Marked rest

theorem marked_append_of_disposing {above stack : List (Frame κ)} (marked : Marked stack)
    (disposing : ∀ frame ∈ above, ∃ key rest, frame = .disposing key rest) :
    Marked (above ++ stack) := by
  induction above with
  | nil => exact marked
  | cons frame above ih =>
      rcases disposing frame List.mem_cons_self with ⟨key, tasks, rfl⟩
      exact ih fun frame member => disposing frame (List.mem_cons_of_mem _ member)

end Frame

theorem Cache.Torn.suppressed_eq {c c' : Cache κ} (torn : c.Torn c') :
    c'.suppressed = c.suppressed := by
  induction torn with
  | refl => rfl
  | evict _ _ ih | clear _ ih | shut _ ih => exact ih

/-- A record is kept exactly while a factory is running, and the creation that ends it is marked. -/
structure Cache.Records (c : Cache κ) (stack : List (Frame κ)) : Prop where
  isNone_eq : c.suppressed.isNone = (Frame.creations stack).isEmpty
  marked : Frame.Marked stack

namespace Cache.Records

variable {c c' : Cache κ} {stack : List (Frame κ)}

theorem of_eq (records : c.Records stack) (same : c'.suppressed.isNone = c.suppressed.isNone) :
    c'.Records stack where
  isNone_eq := same.trans records.isNone_eq
  marked := records.marked

/-- A teardown neither begins nor ends a record. -/
theorem torn {above : List (Frame κ)} (records : c.Records stack) (torn : c.Torn c')
    (disposing : ∀ frame ∈ above, ∃ key rest, frame = .disposing key rest) :
    c'.Records (above ++ stack) where
  isNone_eq := by
    rw [torn.suppressed_eq, Frame.creations_append_of_disposing disposing]
    exact records.isNone_eq
  marked := Frame.marked_append_of_disposing records.marked disposing

theorem start {key : Name} {outermost : Bool} (records : c.Records stack)
    (opened : (c.openCreation key).value = .started outermost c') :
    c'.Records (.creating key outermost :: stack) := by
  rcases eq_of_openCreation opened with ⟨_, _, rfl, tracker, _, rfl⟩
  constructor
  · rfl
  · exact ⟨records.isNone_eq, records.marked⟩

theorem close {key : Name} {outermost : Bool}
    (records : c.Records (.creating key outermost :: stack)) (ledger : Ledger)
    (outcome : Outcome) :
    (c.closeCreation ledger key outermost outcome).value.2.1.Records stack where
  isNone_eq := by
    have kept : c.suppressed.isNone = false := records.isNone_eq
    rw [isNone_suppressed_closeCreation, kept, Bool.or_false]
    exact records.marked.1
  marked := records.marked.2

end Cache.Records

/-! ## Runs -/

namespace Session

theorem records_of_move? {s t : Session κ} {move : Move κ}
    (records : s.registry.cache.Records s.stack) (moved : s.move? move = some t) :
    t.registry.cache.Records t.stack := by
  -- The end of a creation is looked at itself: its effect on the cache does not tell which creation
  -- was the outermost one.
  by_cases closes : ∃ outcome key outermost rest,
      move = .finish outcome ∧ s.stack = .creating key outermost :: rest
  · rcases closes with ⟨outcome, key, outermost, rest, rfl, running⟩
    obtain rfl := move?_finish_of_creating running moved
    rw [running] at records
    exact records.close s.registry.ledger outcome
  · apply of_effect (fun c stack => c.Records stack) moved
    intro c' stack' effect
    cases effect with
    | idle => exact records
    | track | evict | setInDestruction | clear => exact records.of_eq rfl
    | take opened =>
        rcases Cache.eq_of_openEarly opened with ⟨_, _, _, _, rfl⟩
        exact ⟨records.isNone_eq, records.marked⟩
    | start opened => exact records.start opened
    | register => exact records.of_eq (congrArg _ (Cache.suppressed_finalize _ _ _))
    | announce => exact records.of_eq (congrArg _ (Cache.suppressed_registerPending _ _ _))
    | suppress => exact records.of_eq (Cache.isNone_suppressed_suppress _ _)
    | tear _ torn disposing => exact records.torn torn disposing
    | close running => exact absurd ⟨_, _, _, _, rfl, running⟩ closes
    | expose running | withhold running =>
        rw [running] at records
        exact ⟨records.isNone_eq, records.marked⟩
    | @tearOn _ _ _ rest _ _ running torn disposing =>
        rw [running] at records
        have below : s.registry.cache.Records rest := ⟨records.isNone_eq, records.marked⟩
        exact below.torn torn disposing

/-- Whatever has been done to a new registry, a record is kept exactly while a factory is running.
-/
theorem records_of_reaches {s : Session κ} {name : Name} {allowOverriding : Bool} {ledger : Ledger}
    (reached : (begin name allowOverriding ledger).Reaches s) :
    s.registry.cache.Records s.stack := by
  rcases reached with ⟨moves, moved⟩
  have new : (begin (κ := κ) name allowOverriding ledger).registry.cache.Records [] :=
    ⟨rfl, trivial⟩
  exact invariant (fun _ _ _ records moved => records_of_move? records moved) new moved

/-- No record is kept while no factory is running. -/
theorem suppressed_eq_none_of_idle {s : Session κ} {name : Name} {allowOverriding : Bool}
    {ledger : Ledger} (reached : (begin name allowOverriding ledger).Reaches s)
    (idle : Frame.creations s.stack = []) : s.registry.cache.suppressed = none := by
  have records := (records_of_reaches reached).isNone_eq
  rw [idle] at records
  exact Option.isNone_iff_eq_none.mp records

end Session

end Lifecycle
