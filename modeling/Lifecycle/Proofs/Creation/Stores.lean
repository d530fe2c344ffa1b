import Lifecycle.Creation.Request

/-!
# The operations of the cache, store by store

What each operation does to the three stores of the cache and to its tracker, and the ways in which
a creation can end (`Cache.Closing`).  Statements about runs are put together from these and do not
open the operations again.
-/

namespace Lifecycle.Tracker

open Log

variable {t t' : Tracker} {key k : Name}

/-- The beginning of a creation adds its own key, if that is watched, and no other one. -/
theorem mem_start_iff (started : t.start key = .ok t') :
    k ∈ t'.inCreation ↔ k ∈ t.inCreation ∨ k = key ∧ key ∉ t.excluded := by
  unfold start at started
  split at started
  · rename_i excluded
    obtain rfl := Except.ok.inj started
    simp [excluded]
  · rename_i watched
    split at started
    · contradiction
    · obtain rfl := Except.ok.inj started
      simp [watched, or_comm]

/-- The end of a creation strikes out its own key, unless the key is excluded, and no other one. -/
theorem mem_finish_iff (finished : (t.finish key).value = .ok t') :
    k ∈ t'.inCreation ↔ k ∈ t.inCreation ∧ (k = key → key ∈ t.excluded) := by
  unfold finish at finished
  split at finished
  · rename_i excluded
    obtain rfl := Except.ok.inj finished
    simp [excluded]
  · rename_i watched
    split at finished
    · obtain rfl := Except.ok.inj finished
      simp [watched, and_comm]
    · contradiction

/-- The end of a creation is refused only if the tracker does not hold the key. -/
theorem not_mem_of_finish {cause : Cause} (refused : (t.finish key).value = .error cause) :
    key ∉ t.inCreation := by
  intro present
  by_cases excluded : key ∈ t.excluded <;> simp [finish, excluded, present] at refused

end Lifecycle.Tracker

namespace Lifecycle.Cache

open Log

variable {κ : Type}

theorem mem_finalized_iff {c : Cache κ} {key : Name} :
    key ∈ c.finalized ↔ (c.get key).isSome :=
  Iff.rfl

theorem not_mem_finalized_iff {c : Cache κ} {key : Name} :
    key ∉ c.finalized ↔ c.get key = none := by
  rw [mem_finalized_iff, Option.not_isSome_iff_eq_none]

/-! ## The list of registered names -/

section list

variable (c : Cache κ) (key : Name)

@[simp]
theorem finalized_list : (c.list key).finalized = c.finalized := by
  unfold list
  split <;> rfl

@[simp]
theorem early_list : (c.list key).early = c.early := by
  unfold list
  split <;> rfl

@[simp]
theorem pending_list : (c.list key).pending = c.pending := by
  unfold list
  split <;> rfl

@[simp]
theorem tracker_list : (c.list key).tracker = c.tracker := by
  unfold list
  split <;> rfl

@[simp]
theorem finalized_unlist : (c.unlist key).finalized = c.finalized :=
  rfl

@[simp]
theorem early_unlist : (c.unlist key).early = c.early :=
  rfl

@[simp]
theorem pending_unlist : (c.unlist key).pending = c.pending :=
  rfl

@[simp]
theorem tracker_unlist : (c.unlist key).tracker = c.tracker :=
  rfl

@[simp]
theorem suppressed_list : (c.list key).suppressed = c.suppressed := by
  unfold list
  split <;> rfl

theorem registered_list :
    (c.list key).registered =
      if key ∈ c.registered then c.registered else c.registered ++ [key] := by
  unfold list
  split <;> rfl

@[simp]
theorem mem_registered_list {c : Cache κ} {key k : Name} :
    k ∈ (c.list key).registered ↔ k = key ∨ k ∈ c.registered := by
  rw [registered_list]
  split
  · rename_i listed
    constructor
    · exact .inr
    · rintro (rfl | member)
      · exact listed
      · exact member
  · simp [or_comm]

@[simp]
theorem mem_registered_unlist {c : Cache κ} {key k : Name} :
    k ∈ (c.unlist key).registered ↔ k ≠ key ∧ k ∈ c.registered := by
  simp [unlist, and_comm]

end list

/-! ## Partial objects -/

section partial_objects

variable (c : Cache κ) (key : Name)

@[simp]
theorem finalized_dropPartial : (c.dropPartial key).finalized = c.finalized :=
  rfl

@[simp]
theorem early_dropPartial : (c.dropPartial key).early = c.early.erase key :=
  rfl

@[simp]
theorem pending_dropPartial : (c.dropPartial key).pending = c.pending.erase key :=
  rfl

@[simp]
theorem tracker_dropPartial : (c.dropPartial key).tracker = c.tracker :=
  rfl

theorem value_discardPartial :
    (c.discardPartial key).value =
      if (c.get key).isSome then c else (c.dropPartial key).unlist key := by
  unfold discardPartial
  split
  · rfl
  · by_cases held : c.early.contains key <;> simp [held]

theorem registered_discardPartial :
    (c.discardPartial key).value.registered =
      if (c.get key).isSome then c.registered else (c.unlist key).registered := by
  rw [value_discardPartial]
  split <;> rfl

@[simp]
theorem finalized_discardPartial : (c.discardPartial key).value.finalized = c.finalized := by
  rw [value_discardPartial]
  split <;> rfl

@[simp]
theorem tracker_discardPartial : (c.discardPartial key).value.tracker = c.tracker := by
  rw [value_discardPartial]
  split <;> rfl

@[simp]
theorem inDestruction_discardPartial :
    (c.discardPartial key).value.inDestruction = c.inDestruction := by
  rw [value_discardPartial]
  split <;> rfl

@[simp]
theorem suppressed_discardPartial : (c.discardPartial key).value.suppressed = c.suppressed := by
  rw [value_discardPartial]
  split <;> rfl

/-- What a failed creation has left behind is removed whatever the tracker holds. -/
theorem discardPartial_withTracker (tracker : Tracker) :
    (discardPartial { c with tracker } key).value =
      { (c.discardPartial key).value with tracker } := by
  simp only [value_discardPartial, get]
  by_cases finalized : (c.finalized.find? key).isSome
  · simp only [finalized, if_true]
  · simp only [finalized]
    rfl

end partial_objects

/-! ## Finalized instances -/

section finalized

variable (c : Cache κ) (key : Name) (object : Instance)

/-- A finalized instance is kept; the one that is offered beside it is not. -/
theorem kept_finalize :
    (c.finalize key object).value.1 = (c.get key).getD object := by
  unfold finalize
  split <;> rename_i found <;> simp [found]

@[simp]
theorem get_finalize (k : Name) :
    (c.finalize key object).value.2.get k =
      if k = key then some ((c.get key).getD object) else c.get k := by
  unfold finalize
  split <;> rename_i found
  · by_cases same : k = key <;> simp_all [get]
  · simp [get, NameMap.find?_insert] at found ⊢
    simp [found]

@[simp]
theorem mem_finalized_finalize {c : Cache κ} {key k : Name} {object : Instance} :
    k ∈ (c.finalize key object).value.2.finalized ↔ k = key ∨ k ∈ c.finalized := by
  rw [mem_finalized_iff, get_finalize]
  split
  · simp_all
  · simp_all [mem_finalized_iff]

theorem registered_finalize :
    (c.finalize key object).value.2.registered =
      if (c.get key).isSome then c.registered else (c.list key).registered := by
  unfold finalize
  split <;> rename_i found
  · simp [found, dropPartial]
  · simp [found, registered_list, dropPartial]

@[simp]
theorem early_finalize : (c.finalize key object).value.2.early = c.early.erase key := by
  unfold finalize
  split <;> simp

@[simp]
theorem pending_finalize : (c.finalize key object).value.2.pending = c.pending.erase key := by
  unfold finalize
  split <;> simp

@[simp]
theorem tracker_finalize : (c.finalize key object).value.2.tracker = c.tracker := by
  unfold finalize
  split <;> simp

@[simp]
theorem inDestruction_finalize :
    (c.finalize key object).value.2.inDestruction = c.inDestruction := by
  unfold finalize
  split
  · rfl
  · simp only [list]
    split <;> rfl

@[simp]
theorem suppressed_finalize : (c.finalize key object).value.2.suppressed = c.suppressed := by
  unfold finalize
  split
  · rfl
  · exact suppressed_list _ key

@[simp]
theorem get_registerPending (factory : κ) (k : Name) :
    (c.registerPending key factory).get k = c.get k := by
  unfold registerPending
  split <;> simp [get]

theorem registered_registerPending (factory : κ) :
    (c.registerPending key factory).registered =
      if (c.get key).isSome then c.registered else (c.list key).registered := by
  unfold registerPending
  split <;> simp [registered_list]

theorem pending_registerPending (factory : κ) :
    (c.registerPending key factory).pending =
      if (c.get key).isSome then c.pending else c.pending.insert key factory := by
  unfold registerPending
  split <;> simp

@[simp]
theorem tracker_registerPending (factory : κ) :
    (c.registerPending key factory).tracker = c.tracker := by
  unfold registerPending
  split <;> simp

@[simp]
theorem inDestruction_registerPending (factory : κ) :
    (c.registerPending key factory).inDestruction = c.inDestruction := by
  unfold registerPending
  split
  · rfl
  · simp only [list]
    split <;> rfl

@[simp]
theorem suppressed_registerPending (factory : κ) :
    (c.registerPending key factory).suppressed = c.suppressed := by
  unfold registerPending
  split <;> simp

theorem get_evict (k : Name) : (c.evict key).get k = if k = key then none else c.get k :=
  NameMap.find?_erase c.finalized key k

@[simp]
theorem early_evict : (c.evict key).early = c.early.erase key :=
  rfl

@[simp]
theorem pending_evict : (c.evict key).pending = c.pending.erase key :=
  rfl

end finalized

/-! ## The first half of a request -/

theorem eq_of_openCreation {c c' : Cache κ} {key : Name} {outermost : Bool}
    (opened : (c.openCreation key).value = .started outermost c') :
    c.get key = none ∧ c.inDestruction = false ∧ outermost = c.suppressed.isNone ∧
      ∃ tracker, c.tracker.start key = .ok tracker ∧
        c' = { c with tracker, suppressed := some (c.suppressed.getD []) } := by
  unfold openCreation at opened
  cases found : c.get key with
  | some object => simp [found] at opened
  | none =>
      cases closed : c.inDestruction with
      | true => simp [found, closed] at opened
      | false =>
          cases started : c.tracker.start key with
          | error cause => simp [found, closed, started] at opened
          | ok tracker =>
              simp [found, closed, started] at opened
              exact ⟨rfl, rfl, opened.1.symm, tracker, rfl, opened.2.symm⟩

theorem eq_of_openEarly {c c' : Cache κ} {key : Name} {factory : κ}
    (opened : c.openEarly key = .taken factory c') :
    c.get key = none ∧ c.tracker.isActual key = true ∧ c.early.find? key = none ∧
      c.pending.find? key = some factory ∧ c' = { c with pending := c.pending.erase key } := by
  unfold openEarly at opened
  cases found : c.get key with
  | some object => simp [found] at opened
  | none =>
      cases actual : c.tracker.isActual key with
      | false => simp [found, actual] at opened
      | true =>
          cases early : c.early.find? key with
          | some object => simp [found, actual, early] at opened
          | none =>
              cases pending : c.pending.find? key with
              | none => simp [found, actual, early, pending] at opened
              | some factory' =>
                  simp [found, actual, early, pending] at opened
                  rcases opened with ⟨rfl, rfl⟩
                  exact ⟨rfl, rfl, rfl, rfl, rfl⟩

/-! ## Registering a finished instance -/

theorem registerFinalized_of_absent (c : Cache κ) {key : Name} (object : Instance)
    (keyNe : key ≠ "") (absent : c.get key = none) :
    (c.registerFinalized key (some object)).value =
      (.added, (c.finalize key object).value.2) := by
  simp [registerFinalized, keyNe, absent]

theorem registerFinalized_of_get (c : Cache κ) {key : Name} {existing : Instance}
    (object : Instance) (keyNe : key ≠ "") (found : c.get key = some existing) :
    (c.registerFinalized key (some object)).value =
      (if existing = object then .duplicate key else .occupied key object existing, c) := by
  by_cases same : existing = object <;> simp [registerFinalized, keyNe, found, same]

/-- Nothing is registered without a key and an instance. -/
theorem registerFinalized_of_empty (c : Cache κ) {key : Name} {handle : Handle}
    (missing : key = "" ∨ handle = none) : (c.registerFinalized key handle).value.2 = c := by
  by_cases keyEmpty : key = ""
  · simp [registerFinalized, keyEmpty]
  · obtain rfl := missing.resolve_left keyEmpty
    simp [registerFinalized, keyEmpty]

/-! ## The record of failures -/

/-- Recording a failure changes the record only. -/
theorem suppress_eq (c : Cache κ) (fault : Fault) :
    c.suppress fault = { c with suppressed := (c.suppress fault).suppressed } := by
  unfold suppress
  split
  · rfl
  · split <;> rfl

/-- Recording a failure begins and ends no record. -/
@[simp]
theorem isNone_suppressed_suppress (c : Cache κ) (fault : Fault) :
    (c.suppress fault).suppressed.isNone = c.suppressed.isNone := by
  unfold suppress
  split
  · rfl
  · rename_i recorded kept
    split <;> simp [kept]

theorem isNone_suppressed_closeRecording (c : Cache κ) (outermost : Bool)
    (failure : Option Fault) :
    (c.closeRecording outermost failure).2.suppressed.isNone =
      (outermost || c.suppressed.isNone) := by
  cases outermost with
  | true => rfl
  | false => cases failure <;> simp [closeRecording]

theorem closeRecording_eq (c : Cache κ) (outermost : Bool) (failure : Option Fault) :
    ∃ suppressed, (c.closeRecording outermost failure).2 = { c with suppressed } := by
  unfold closeRecording
  split
  · exact ⟨none, rfl⟩
  · cases failure with
    | none => exact ⟨c.suppressed, rfl⟩
    | some fault => exact ⟨_, c.suppress_eq fault⟩

/-! ## The end of a creation -/

/-- The cause of the failure of a creation whose factory returns nothing. -/
def nullInstance (key : Name) : Cause :=
  .creation key "factory returned a null instance" none

/-- How the creation of a key ends, by what its factory came to: what the request answers and what
becomes of the cache, whatever is recorded in it by then. -/
inductive Closing (c : Cache κ) (key : Name) : Outcome → Except Fault Instance → Cache κ → Prop where
  /-- The factory made an instance, and the key is finalized. -/
  | fresh {object : Instance} {tracker : Tracker} {suppressed : Option (List Fault)}
      (finished : (c.tracker.finish key).value = .ok tracker) :
      Closing c key (.returned (some object)) (.ok ((c.get key).getD object))
        ({ c with suppressed, tracker }.finalize key object).value.2
  /-- The factory gave up because the key was finalized meanwhile. -/
  | adopted {fault : Fault} {object : Instance} {tracker : Tracker}
      {suppressed : Option (List Fault)} (finished : (c.tracker.finish key).value = .ok tracker)
      (illegal : fault.cause.isIllegalState = true) (found : c.get key = some object) :
      Closing c key (.threw fault) (.ok object) { c with suppressed, tracker }
  /-- The factory failed, and what the creation has left behind is removed. -/
  | failed {outcome : Outcome} {fault : Fault} {tracker : Tracker}
      {suppressed : Option (List Fault)} (finished : (c.tracker.finish key).value = .ok tracker)
      (failure : outcome = .threw fault ∨
        outcome = .returned none ∧ fault.cause = nullInstance key) :
      Closing c key outcome (.error fault)
        { ({ c with suppressed }.discardPartial key).value with tracker }
  /-- The tracker does not know of the creation, and nothing is finalized. -/
  | unknown {outcome : Outcome} {fault : Fault} {cause : Cause} {c' : Cache κ}
      {suppressed : Option (List Fault)} (refused : (c.tracker.finish key).value = .error cause)
      (left : c' = { c with suppressed } ∨ c' = ({ c with suppressed }.discardPartial key).value) :
      Closing c key outcome (.error fault) c'

/-- What the verdict on a factory says about what the factory came to. -/
theorem judge_spec (c : Cache κ) (ledger : Ledger) (key : Name) (outcome : Outcome) :
    match (c.judge ledger key outcome).1 with
    | .fresh object => outcome = .returned (some object)
    | .adopted object => c.get key = some object ∧
        ∃ fault, outcome = .threw fault ∧ fault.cause.isIllegalState = true
    | .failed fault => outcome = .threw fault ∨
        outcome = .returned none ∧ fault.cause = nullInstance key := by
  cases outcome with
  | returned handle =>
      cases handle with
      | none => exact .inr ⟨rfl, rfl⟩
      | some object => rfl
  | threw fault =>
      cases illegal : fault.cause.isIllegalState <;> cases found : c.get key <;>
        simp [judge, illegal, found]

theorem closing_closeCreation (c : Cache κ) (ledger : Ledger) (key : Name) (outermost : Bool)
    (outcome : Outcome) :
    Closing c key outcome (c.closeCreation ledger key outermost outcome).value.1
      (c.closeCreation ledger key outermost outcome).value.2.1 := by
  have spec := c.judge_spec ledger key outcome
  unfold closeCreation
  revert spec
  generalize c.judge ledger key outcome = judged
  rcases judged with ⟨verdict, ledger'⟩
  intro spec
  rcases c.closeRecording_eq outermost verdict.failure? with ⟨suppressed, recorded⟩
  cases verdict with
  | fresh object =>
      subst spec
      simp only [Verdict.failure?] at recorded
      cases finished : (c.tracker.finish key).value with
      | error cause =>
          simp [Verdict.failure?, recorded, finished]
          exact Closing.unknown finished (.inl rfl)
      | ok tracker =>
          simp [Verdict.failure?, recorded, finished, kept_finalize]
          exact Closing.fresh finished
  | adopted object =>
      rcases spec with ⟨found, fault, rfl, illegal⟩
      simp only [Verdict.failure?] at recorded
      cases finished : (c.tracker.finish key).value with
      | error cause =>
          simp [Verdict.failure?, recorded, finished]
          exact Closing.unknown finished (.inl rfl)
      | ok tracker =>
          simp [Verdict.failure?, recorded, finished]
          exact Closing.adopted finished illegal found
  | failed fault =>
      simp only [Verdict.failure?] at recorded
      cases finished : (c.tracker.finish key).value with
      | error cause =>
          simp [Verdict.failure?, recorded, finished]
          exact Closing.unknown finished (.inr rfl)
      | ok tracker =>
          have closing : Closing c key outcome (.error fault)
              { ({ c with suppressed }.discardPartial key).value with tracker } :=
            Closing.failed finished spec
          simpa [Verdict.failure?, recorded, finished] using closing

/-- The end of a creation leaves the record of failures as its judgement has left it. -/
theorem suppressed_closeCreation (c : Cache κ) (ledger : Ledger) (key : Name) (outermost : Bool)
    (outcome : Outcome) :
    (c.closeCreation ledger key outermost outcome).value.2.1.suppressed =
      (c.closeRecording outermost (c.judge ledger key outcome).1.failure?).2.suppressed := by
  unfold closeCreation
  generalize c.judge ledger key outcome = judged
  rcases judged with ⟨verdict, ledger'⟩
  cases verdict with
  | fresh object | adopted object =>
      cases finished : ((c.closeRecording outermost none).2.tracker.finish key).value <;>
        simp [Verdict.failure?, finished]
  | failed fault =>
      cases finished : ((c.closeRecording outermost (some fault)).2.tracker.finish key).value <;>
        simp [Verdict.failure?, finished]

/-- The end of the outermost creation ends the record of failures, and no other end does. -/
theorem isNone_suppressed_closeCreation (c : Cache κ) (ledger : Ledger) (key : Name)
    (outermost : Bool) (outcome : Outcome) :
    (c.closeCreation ledger key outermost outcome).value.2.1.suppressed.isNone =
      (outermost || c.suppressed.isNone) := by
  rw [suppressed_closeCreation, isNone_suppressed_closeRecording]

theorem Closing.tracker_eq {c c' : Cache κ} {key : Name} {outcome : Outcome}
    {result : Except Fault Instance} {tracker : Tracker}
    (closing : Closing c key outcome result c')
    (finished : (c.tracker.finish key).value = .ok tracker) : c'.tracker = tracker := by
  cases closing with
  | fresh finished' =>
      rw [tracker_finalize]
      exact Except.ok.inj (finished'.symm.trans finished)
  | adopted finished' | failed finished' =>
      exact Except.ok.inj (finished'.symm.trans finished)
  | unknown refused => exact absurd (refused.symm.trans finished) (by simp)

/-- When the tracker knows of the creation of an absent key, and its factory makes an instance, the
request is answered with it and the key is finalized. -/
theorem Closing.of_returned {c c' : Cache κ} {key : Name} {object : Instance}
    {result : Except Fault Instance} {tracker : Tracker}
    (closing : c.Closing key (.returned (some object)) result c') (absent : c.get key = none)
    (finished : (c.tracker.finish key).value = .ok tracker) :
    result = .ok object ∧
      ∃ suppressed, c' = ({ c with suppressed, tracker }.finalize key object).value.2 := by
  cases closing with
  | @fresh _ _ suppressed finished' =>
      obtain rfl := Except.ok.inj (finished'.symm.trans finished)
      constructor
      · rw [absent, Option.getD_none]
      · exact ⟨suppressed, rfl⟩
  | failed _ failure => rcases failure with contrary | ⟨contrary, _⟩ <;> simp at contrary
  | unknown refused => exact absurd (refused.symm.trans finished) (by simp)

/-- When the tracker knows of the creation of an absent key, and its factory makes nothing, the
request fails and what the creation has left behind is removed. -/
theorem Closing.of_nothing {c c' : Cache κ} {key : Name} {outcome : Outcome}
    {result : Except Fault Instance} {tracker : Tracker}
    (closing : c.Closing key outcome result c')
    (nothing : ∀ object, outcome ≠ .returned (some object)) (absent : c.get key = none)
    (finished : (c.tracker.finish key).value = .ok tracker) :
    (∃ fault, result = .error fault) ∧
      ∃ suppressed, c' = (dropPartial { c with suppressed, tracker } key).unlist key := by
  cases closing with
  | fresh => exact absurd rfl (nothing _)
  | adopted _ _ found => exact absurd (absent.symm.trans found) (by simp)
  | @failed _ fault _ suppressed finished' =>
      obtain rfl := Except.ok.inj (finished'.symm.trans finished)
      have absent' : Cache.get { c with suppressed } key = none := absent
      constructor
      · exact ⟨fault, rfl⟩
      · rw [value_discardPartial, if_neg (by simp [absent'])]
        exact ⟨suppressed, rfl⟩
  | unknown refused => exact absurd (refused.symm.trans finished) (by simp)

/-- When the tracker knows of the creation, a request fails for the reason for which its factory
failed. -/
theorem Closing.failure_of_finish {c c' : Cache κ} {key : Name} {outcome : Outcome}
    {fault : Fault} {tracker : Tracker} (closing : Closing c key outcome (.error fault) c')
    (finished : (c.tracker.finish key).value = .ok tracker) :
    outcome = .threw fault ∨ outcome = .returned none ∧ fault.cause = nullInstance key := by
  cases closing with
  | failed _ failure => exact failure
  | unknown refused => exact absurd (refused.symm.trans finished) (by simp)

end Lifecycle.Cache
