import Lifecycle.Proofs.Creation.Finalized
import Lifecycle.Proofs.Creation.HeldOnce
import Lifecycle.Proofs.Creation.Response

/-!
# What a failed creation leaves behind

A creation that fails because its factory failed takes away what was put under its key for it: the
early reference, the pending factory and the name on the list.  A creation can fail in one other
way.  Its factory has made an instance, but the tracker does not know of the creation any more, or
never did; then nothing is taken away, and what is there stays there
(`Session.blank_iff_of_failed`).  A later attempt comes upon it.
-/

namespace Lifecycle

open Log

variable {κ : Type}

namespace Cache

/-- No early reference of a key is held or could be made. -/
structure Bare (c : Cache κ) (key : Name) : Prop where
  early : key ∉ c.early
  pending : key ∉ c.pending

/-- No early reference of a key is held or could be made, and the key is not listed. -/
structure Blank (c : Cache κ) (key : Name) : Prop extends c.Bare key where
  registered : key ∉ c.registered

variable {c c' : Cache κ} {key : Name}

theorem blank_iff_of_stores (early : c'.early = c.early) (pending : c'.pending = c.pending)
    (registered : c'.registered = c.registered) : c'.Blank key ↔ c.Blank key := by
  constructor
  · intro blank
    exact ⟨⟨early ▸ blank.early, pending ▸ blank.pending⟩, registered ▸ blank.registered⟩
  · intro blank
    exact ⟨⟨early ▸ blank.early, pending ▸ blank.pending⟩, registered ▸ blank.registered⟩

theorem blank_discardPartial (absent : c.get key = none) :
    (c.discardPartial key).value.Blank key := by
  rw [value_discardPartial, if_neg (by simp [absent])]
  constructor
  · constructor <;> simp
  · simp

/-- A key that has neither an early reference nor a pending factory answers a request for an early
reference with its finalized instance, if it has one. -/
theorem Bare.openEarly (bare : c.Bare key) : c.openEarly key = .known (c.get key) := by
  have early : c.early.find? key = none := by
    simpa [NameMap.mem_iff_isSome] using bare.early
  have pending : c.pending.find? key = none := by
    simpa [NameMap.mem_iff_isSome] using bare.pending
  unfold Cache.openEarly
  cases found : c.get key with
  | some object => rfl
  | none => simp [early, pending]

/-! ## The end of a failed creation -/

section failed

variable {ledger : Ledger} {outermost : Bool} {outcome : Outcome} {fault : Fault}

/-- No end of a creation makes a key pending. -/
theorem Closing.not_mem_pending {result : Except Fault Instance} {k : Name}
    (closing : c.Closing key outcome result c') (absent : k ∉ c.pending) : k ∉ c'.pending := by
  cases closing with
  | fresh => simp [absent]
  | adopted => exact absent
  | failed => exact absent ∘ (fades_discardPartial _ key k).pending
  | unknown _ left =>
      rcases left with rfl | rfl
      · exact absent
      · exact absent ∘ (fades_discardPartial _ key k).pending

/-- A judgement on the factory of an absent key finds no failure exactly if the factory made an
instance. -/
theorem failure?_judge_eq_none_iff (ledger : Ledger) (outcome : Outcome)
    (absent : c.get key = none) :
    (c.judge ledger key outcome).1.failure? = none ↔
      ∃ object, outcome = .returned (some object) := by
  rcases outcome with (_ | object) | fault <;> simp [judge, Verdict.failure?, absent]

/-- When the tracker knows of a creation that fails, its factory has made nothing and nothing is
left. -/
theorem Closing.blank_of_passed {tracker : Tracker}
    (closing : c.Closing key outcome (.error fault) c') (absent : c'.get key = none)
    (passed : (c.tracker.finish key).value = .ok tracker) :
    c'.Blank key ∧ ∀ object, outcome ≠ .returned (some object) := by
  cases closing with
  | @failed _ _ _ suppressed finished failure =>
      have absentBefore : Cache.get { c with suppressed } key = none := by
        rw [get] at absent ⊢
        simpa using absent
      have blank := blank_discardPartial absentBefore
      constructor
      · exact ⟨⟨blank.early, blank.pending⟩, blank.registered⟩
      · rintro object rfl
        simp at failure
  | unknown refused => exact absurd (refused.symm.trans passed) (by simp)

/-- When the tracker does not know of a creation, the creation takes away what is left under its
absent key unless its factory made an instance. -/
theorem blank_of_refused_iff {cause : Cause}
    (refused : (c.tracker.finish key).value = .error cause) (absent : c.get key = none) :
    (c.closeCreation ledger key outermost outcome).value.2.1.Blank key ↔
      (∀ object, outcome ≠ .returned (some object)) ∨ c.Blank key := by
  rcases closed_of_refused refused ledger outermost outcome with ⟨_, suppressed, _, _, _, left⟩
  have judged := failure?_judge_eq_none_iff ledger outcome absent
  rw [left]
  cases failure : (c.judge ledger key outcome).1.failure? with
  | none =>
      obtain ⟨object, rfl⟩ := judged.mp failure
      have makes : ¬ ∀ object', Outcome.returned (some object) ≠ .returned (some object') :=
        fun nothing => nothing object rfl
      rw [or_iff_right makes]
      exact blank_iff_of_stores rfl rfl rfl
  | some fault =>
      have nothing : ∀ object, outcome ≠ .returned (some object) := fun object made => by
        simp [judged.mpr ⟨object, made⟩] at failure
      exact iff_of_true (blank_discardPartial absent) (.inl nothing)

/-- When a creation has failed and its key is not finalized, nothing is left under the key exactly
if the factory made no instance, or nothing was there before. -/
theorem blank_closeCreation_iff
    (failed : (c.closeCreation ledger key outermost outcome).value.1 = .error fault)
    (absent : (c.closeCreation ledger key outermost outcome).value.2.1.get key = none) :
    (c.closeCreation ledger key outermost outcome).value.2.1.Blank key ↔
      (∀ object, outcome ≠ .returned (some object)) ∨ c.Blank key := by
  have closing := c.closing_closeCreation ledger key outermost outcome
  cases finished : (c.tracker.finish key).value with
  | ok tracker =>
      rw [failed] at closing
      rcases closing.blank_of_passed absent finished with ⟨blank, nothing⟩
      exact iff_of_true blank (.inl nothing)
  | error cause =>
      have absentBefore : c.get key = none := by
        cases found : c.get key with
        | none => rfl
        | some object => exact absurd (absent.symm.trans (closing.get_eq_some found)) (by simp)
      exact blank_of_refused_iff finished absentBefore

end failed

end Cache

namespace Session

/-! ## The next attempt -/

/-- A pending factory of a key is registered, or one comes back with an early reference. -/
def Offers (s : Session κ) (key : Name) : Move κ → Prop
  | .call (.cache (.registerPending other (some _))) => other = key
  | .finish (.returned (some _)) => ∃ rest, s.stack = .exposing key :: rest
  | _ => False

variable {s t v : Session κ} {key : Name} {move : Move κ}

/-- A key without a pending factory has none after a move that registers none. -/
theorem not_mem_pending_of_move? (absent : key ∉ s.registry.cache.pending)
    (withheld : ¬ s.Offers key move) (moved : s.move? move = some t) :
    key ∉ t.registry.cache.pending := by
  apply of_effect (fun c _ => key ∉ c.pending) moved
  intro c' stack' effect
  cases effect with
  | idle | track | setInDestruction | expose | withhold => exact absent
  | take opened =>
      rcases Cache.eq_of_openEarly opened with ⟨_, _, _, _, rfl⟩
      simp [absent]
  | start opened =>
      rcases Cache.eq_of_openCreation opened with ⟨_, _, _, _, _, rfl⟩
      exact absent
  | register => simp [absent]
  | @announce other factory =>
      have differ : key ≠ other := fun same => withheld same.symm
      rw [Cache.pending_registerPending]
      split <;> simp [absent, differ]
  | @evict other => exact absent ∘ (Cache.fades_evict _ other key).pending
  | suppress =>
      rw [Cache.suppress_eq]
      exact absent
  | clear => exact absent ∘ (Cache.fades_clear _ key).pending
  | tear _ torn | tearOn _ torn => exact absent ∘ (torn.fades key).pending
  | close _ closing => exact closing.not_mem_pending absent

theorem Offers.of_exposes (exposes : s.Exposes key move) : s.Offers key move := by
  unfold Exposes at exposes
  split at exposes
  · exact exposes
  · exact absurd exposes id

/-- A key that has neither an early reference nor a pending factory gets none but by an offer. -/
theorem bare_of_move? (bare : s.registry.cache.Bare key) (withheld : ¬ s.Offers key move)
    (moved : s.move? move = some t) : t.registry.cache.Bare key where
  early := by
    cases passes_of_not_exposes (withheld ∘ .of_exposes) moved with
    | fades fades => exact bare.early ∘ fades.early
    | settled early | announced _ early => exact early
  pending := not_mem_pending_of_move? bare.pending withheld moved

/-- When a creation ends without an instance, the request that waits for it fails. -/
theorem exists_failed_of_creating {outermost : Bool} {below : List (Frame κ)} {outcome : Outcome}
    (running : t.stack = .creating key outermost :: below)
    (nothing : (t.registry.cache.closeCreation t.registry.ledger key outermost
      outcome).value.1.toOption = none) :
    ∃ v fault, (t.finish? outcome).map (·.value) = some (v, .answered (.error fault)) ∧
      t.move? (.finish outcome) = some v := by
  have finished := finish?_of_creating running outcome
  cases made : (t.registry.cache.closeCreation t.registry.ledger key outermost outcome).value.1 with
  | ok object => simp [made, Except.toOption] at nothing
  | error fault =>
      simp only [made] at finished
      refine ⟨_, fault, finished, ?_⟩
      rw [move?]
      exact (Option.map_map ..).symm.trans (congrArg (Option.map Prod.fst) finished)

/-- A creation that has run its factory fails, and its key is not finalized.  Nothing is left under
the key exactly if the factory made no instance or nothing was there before; and a creation whose
factory made an instance fails only because the tracker does not know of it.  If nothing is left,
then nobody comes upon a part of an unfinished instance: until another pending factory is registered
for the key, or one that was running then comes back, a request for an early reference answers with
the finalized instance of the key, if there is one by then. -/
theorem blank_iff_of_failed {outermost : Bool} {below : List (Frame κ)} {outcome : Outcome}
    {fault : Fault} (running : t.stack = .creating key outermost :: below)
    (failed : (t.finish? outcome).map (·.value) = some (v, .answered (.error fault)))
    (absent : v.registry.cache.get key = none) :
    (v.registry.cache.Blank key ↔
        (∀ object, outcome ≠ .returned (some object)) ∨ t.registry.cache.Blank key) ∧
      ((∃ object, outcome = .returned (some object)) →
        ∃ cause, (t.registry.cache.tracker.finish key).value = .error cause) ∧
      (v.registry.cache.Blank key → ∀ moves w,
        v.Along (fun u move => ¬ u.Offers key move) moves → v.moves? moves = some w →
          (w.call (.cache (.getEarly key))).value =
            (w, .answered (.ok (.handle (w.registry.cache.get key))))) := by
  rw [finish?_of_creating running outcome] at failed
  rcases Prod.mk.inj (Option.some.inj failed) with ⟨rfl, answered⟩
  have made := eq_error_of_map (Reply.answered.inj answered)
  refine ⟨Cache.blank_closeCreation_iff made absent, ?refused, ?next⟩
  case refused =>
    rintro ⟨object, makes⟩
    cases finished : (t.registry.cache.tracker.finish key).value with
    | error cause => exact ⟨cause, rfl⟩
    | ok tracker =>
        have closing :=
          t.registry.cache.closing_closeCreation t.registry.ledger key outermost outcome
        rw [made] at closing
        exact absurd makes ((closing.blank_of_passed absent finished).2 object)
  case next =>
    intro blank moves w withheld moved
    have bare : w.registry.cache.Bare key :=
      withheld.invariant (fun _ _ _ bare withheld moved => bare_of_move? bare withheld moved)
        blank.toBare moved
    apply call_eq_self
    simp [Registry.call, Registry.callCache, bare.openEarly, Registry.answer]

/-- A factory announces its key, gives out an early reference and throws: nothing of this is left,
and the next attempt finds no early reference. -/
theorem next_attempt_finds_nothing :
    let before : List (Move Unit) := [.call (.cache (.getOrCreate "a" (some ()))),
      .call (.cache (.registerPending "a" (some ()))), .call (.cache (.getEarly "a")),
      .finish (.returned (some ⟨"Repository", 1⟩))]
    let retry : List (Move Unit) := [.call (.cache (.getOrCreate "a" (some ())))]
    ∃ t v w fault, (begin "default" true {}).moves? before = some t ∧
      t.registry.cache.early.find? "a" = some ⟨"Repository", 1⟩ ∧
      (t.finish? (.threw ⟨0, .foreign⟩)).map (·.value) = some (v, .answered (.error fault)) ∧
      v.registry.cache.Blank "a" ∧ v.moves? retry = some w ∧
      (w.call (.cache (.getEarly "a"))).value = (w, .answered (.ok (.handle none))) := by
  intro before retry
  let outcome : Outcome := .threw ⟨0, .foreign⟩
  have run : ((begin (κ := Unit) "default" true {}).moves? before).map (fun t => (t.stack,
      t.registry.cache.early.find? "a", (t.registry.cache.closeCreation t.registry.ledger "a" true
        outcome).value.1.toOption)) =
          some ([.creating "a" true], some ⟨"Repository", 1⟩, none) := by
    decide +kernel
  have onward : ((begin (κ := Unit) "default" true {}).moves? before).map (fun t =>
      (t.move? (.finish outcome)).map fun v => (v.registry.cache.get "a",
        (v.moves? retry).map fun w => w.registry.cache.get "a")) =
          some (some (none, some none)) := by
    decide +kernel
  rcases Option.map_eq_some_iff.mp run with ⟨t, reached, facts⟩
  simp only [Prod.mk.injEq] at facts
  obtain ⟨running, early, nothing⟩ := facts
  obtain ⟨v, fault, failed, finished⟩ := exists_failed_of_creating running nothing
  simp only [reached, finished, Option.map_some, Option.some.injEq, Prod.mk.injEq] at onward
  rcases Option.map_eq_some_iff.mp onward.2 with ⟨w, moved, still⟩
  obtain ⟨left, _, next⟩ := blank_iff_of_failed running failed onward.1
  have blank := left.mpr (.inl (by simp [outcome]))
  have answered := next blank retry w ⟨id, fun _ _ => trivial⟩ moved
  rw [still] at answered
  exact ⟨t, v, w, fault, reached, early, failed, blank, moved, answered⟩

/-- A factory announces its key and makes an instance, but the key was not watched when its creation
began and is watched when it ends: the request fails, the key is not finalized, its pending factory
and its name stay, and the next attempt comes upon the pending factory of the failed one. -/
theorem next_attempt_finds_old_factory :
    let before : List (Move Nat) := [.call (.tracker (.watch "a" false)),
      .call (.cache (.getOrCreate "a" (some 0))), .call (.cache (.registerPending "a" (some 1))),
      .call (.tracker (.watch "a" true))]
    let outcome : Outcome := .returned (some ⟨"Service", 1⟩)
    let retry : List (Move Nat) := [.call (.cache (.getOrCreate "a" (some 2)))]
    ∃ t v w u fault, (begin "default" true {}).moves? before = some t ∧
      t.stack = [.creating "a" true] ∧
      (t.finish? outcome).map (·.value) = some (v, .answered (.error fault)) ∧
      v.registry.cache.get "a" = none ∧ ¬ v.registry.cache.Blank "a" ∧
      v.moves? retry = some w ∧
      (w.call (.cache (.getEarly "a"))).value = (u, .entered .factory 1) := by
  intro before outcome retry
  have run : ((begin "default" true {}).moves? before).map (fun t => (t.stack,
      (t.registry.cache.closeCreation t.registry.ledger "a" true outcome).value.1.toOption)) =
        some ([.creating "a" true], none) := by
    decide +kernel
  have onward : ((begin "default" true {}).moves? before).map (fun t =>
      (t.move? (.finish outcome)).map fun v => (v.registry.cache.get "a",
        v.registry.cache.registered)) = some (some (none, ["a"])) := by
    decide +kernel
  have again : ((begin "default" true {}).moves? (before ++ .finish outcome :: retry)).map (fun w =>
      (w.registry.cache.get "a", w.registry.cache.tracker.isActual "a",
        w.registry.cache.early.find? "a", w.registry.cache.pending.find? "a")) =
      some (none, true, none, some 1) := by
    decide +kernel
  rcases Option.map_eq_some_iff.mp run with ⟨t, reached, facts⟩
  rcases Prod.mk.inj facts with ⟨running, nothing⟩
  obtain ⟨v, fault, failed, finished⟩ := exists_failed_of_creating running nothing
  simp only [reached, finished, Option.map_some, Option.some.injEq, Prod.mk.injEq] at onward
  obtain ⟨absent, listed⟩ := onward
  rw [moves?_append, reached, Option.bind_some, moves?_cons, finished, Option.bind_some] at again
  rcases Option.map_eq_some_iff.mp again with ⟨w, moved, found⟩
  simp only [Prod.mk.injEq] at found
  obtain ⟨absentStill, actual, early, pending⟩ := found
  have left : ¬ v.registry.cache.Blank "a" := fun blank => blank.registered (by simp [listed])
  have taken : w.registry.cache.openEarly "a" = .taken 1
      { w.registry.cache with pending := w.registry.cache.pending.erase "a" } := by
    simp [Cache.openEarly, absentStill, actual, early, pending]
  obtain ⟨u, entered⟩ : ∃ u, (w.call (.cache (.getEarly "a"))).value = (u, .entered .factory 1) := by
    simp [call, Registry.call, Registry.callCache, taken, after, Frame.role]
  exact ⟨t, v, w, u, fault, reached, running, failed, absent, left, moved, entered⟩

end Session

end Lifecycle
