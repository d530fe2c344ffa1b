import Lifecycle.Proofs.Session.Effect

/-!
# One store at a time

A key is meant to be in one of the three stores of the cache at most.  Finalizing a key and
registering a pending factory for it see to that themselves.  Exposing an early reference does not:
the pending factory is taken out before it runs, and what it makes is stored when it has come back,
without another look at the key.  A pending factory that finalizes its own key, or registers another
pending factory for it, and then returns an instance, leaves the key in two stores.  Nothing else
does, and no key is ever both finalized and pending.
-/

namespace Lifecycle

variable {κ : Type}

/-- A key is in one of the three stores at most. -/
structure Cache.HeldOnce (c : Cache κ) (key : Name) : Prop where
  finalized_not_early : key ∈ c.finalized → key ∉ c.early
  finalized_not_pending : key ∈ c.finalized → key ∉ c.pending
  early_not_pending : key ∈ c.early → key ∉ c.pending

/-! ## One key through one move -/

namespace Cache

/-- A key is in no store in which it was not. -/
structure Fades (key : Name) (c c' : Cache κ) : Prop where
  finalized : key ∈ c'.finalized → key ∈ c.finalized
  early : key ∈ c'.early → key ∈ c.early
  pending : key ∈ c'.pending → key ∈ c.pending

/-- What an operation other than an exposure can do to a key: the key fades, or it is finalized
and nothing else, or it is pending and nothing else. -/
inductive Passes (key : Name) (c c' : Cache κ) : Prop where
  | fades (fades : Fades key c c')
  | settled (early : key ∉ c'.early) (pending : key ∉ c'.pending)
  | announced (finalized : key ∉ c'.finalized) (early : key ∉ c'.early)

variable {c c' c'' : Cache κ} {key : Name}

/-- A key fades where none of the stores is touched. -/
theorem Fades.of_stores (finalized : c'.finalized = c.finalized) (early : c'.early = c.early)
    (pending : c'.pending = c.pending) : Fades key c c' where
  finalized member := finalized ▸ member
  early member := early ▸ member
  pending member := pending ▸ member

theorem Fades.refl (key : Name) (c : Cache κ) : Fades key c c :=
  .of_stores rfl rfl rfl

theorem Fades.trans (first : Fades key c c') (second : Fades key c' c'') : Fades key c c'' where
  finalized := first.finalized ∘ second.finalized
  early := first.early ∘ second.early
  pending := first.pending ∘ second.pending

theorem Fades.passes (first : Fades key c c') (second : Passes key c' c'') : Passes key c c'' := by
  cases second with
  | fades second => exact .fades (first.trans second)
  | settled early pending => exact .settled early pending
  | announced finalized early => exact .announced finalized early

theorem fades_evict (c : Cache κ) (key k : Name) : Fades k c (c.evict key) where
  finalized := by simp [evict, dropPartial, unlist]
  early := by simp
  pending := by simp

theorem fades_clear (c : Cache κ) (key : Name) : Fades key c c.clear where
  finalized := by simp [clear]
  early := by simp [clear]
  pending := by simp [clear]

theorem fades_discardPartial (c : Cache κ) (key k : Name) :
    Fades k c (c.discardPartial key).value := by
  rw [value_discardPartial]
  split
  · exact Fades.refl k c
  · constructor <;> simp

theorem Torn.fades (torn : c.Torn c') (key : Name) : Fades key c c' := by
  induction torn with
  | refl => exact Fades.refl key c
  | evict _ other ih => exact ih.trans (fades_evict _ other key)
  | clear _ ih => exact ih.trans (fades_clear _ key)
  | shut _ ih => exact ih.trans (.of_stores rfl rfl rfl)

theorem passes_finalize (c : Cache κ) (key k : Name) (object : Instance) :
    Passes k c (c.finalize key object).value.2 := by
  by_cases same : k = key
  · subst same
    apply Passes.settled
    · simp
    · simp
  · apply Passes.fades
    constructor
    · intro member
      rw [mem_finalized_iff, get_finalize, if_neg same] at member
      exact member
    · simp [same]
    · simp [same]

theorem passes_registerPending (c : Cache κ) (key k : Name) (factory : κ) :
    Passes k c (c.registerPending key factory) := by
  unfold registerPending
  split
  · exact .fades (Fades.refl k c)
  · rename_i absent
    by_cases same : k = key
    · subst same
      apply Passes.announced
      · simpa [mem_finalized_iff] using absent
      · simp
    · apply Passes.fades
      constructor <;> simp [same]

theorem Closing.passes {outcome : Outcome} {result : Except Fault Instance}
    (closing : c.Closing key outcome result c') (k : Name) : Passes k c c' := by
  -- The record of failures and the tracker are written on the way, which no store shows.
  cases closing with
  | @fresh object tracker suppressed =>
      have fades : Fades k c { c with suppressed, tracker } := .of_stores rfl rfl rfl
      exact fades.passes (passes_finalize _ key k object)
  | adopted => exact .fades (.of_stores rfl rfl rfl)
  | @failed _ _ _ suppressed =>
      have discarded := fades_discardPartial { c with suppressed } key k
      exact .fades ⟨discarded.finalized, discarded.early, discarded.pending⟩
  | @unknown _ _ _ _ suppressed refused left =>
      rcases left with rfl | rfl
      · exact .fades (.of_stores rfl rfl rfl)
      · have discarded := fades_discardPartial { c with suppressed } key k
        exact .fades ⟨discarded.finalized, discarded.early, discarded.pending⟩

namespace HeldOnce

theorem fades (once : c.HeldOnce key) (fades : Fades key c c') : c'.HeldOnce key where
  finalized_not_early finalized early :=
    once.finalized_not_early (fades.finalized finalized) (fades.early early)
  finalized_not_pending finalized pending :=
    once.finalized_not_pending (fades.finalized finalized) (fades.pending pending)
  early_not_pending early pending :=
    once.early_not_pending (fades.early early) (fades.pending pending)

theorem passes (once : c.HeldOnce key) (passes : Passes key c c') : c'.HeldOnce key := by
  cases passes with
  | fades fades => exact once.fades fades
  | settled early pending =>
      constructor
      · intro _
        exact early
      · intro _
        exact pending
      · intro _
        exact pending
  | announced finalized early =>
      constructor
      · intro member
        exact absurd member finalized
      · intro member
        exact absurd member finalized
      · intro member
        exact absurd member early

end HeldOnce

end Cache

namespace Session

/-! ## Exposures -/

/-- A pending factory of a key comes back with an early reference. -/
def Exposes (s : Session κ) (key : Name) : Move κ → Prop
  | .finish (.returned (some _)) => ∃ rest, s.stack = .exposing key :: rest
  | _ => False

/-- A pending factory comes back with an early reference of a key that is finalized, or has another
pending factory, by then. -/
def Overtaken (s : Session κ) (key : Name) (move : Move κ) : Prop :=
  s.Exposes key move ∧
    (key ∈ s.registry.cache.finalized ∨ key ∈ s.registry.cache.pending)

/-- To a move that does not expose an early reference of a key, the key passes. -/
theorem passes_of_not_exposes {s t : Session κ} {move : Move κ} {key : Name}
    (hidden : ¬ s.Exposes key move) (moved : s.move? move = some t) :
    s.registry.cache.Passes key t.registry.cache := by
  apply of_effect (fun c _ => s.registry.cache.Passes key c) moved
  intro c' stack' effect
  cases effect with
  | idle | withhold => exact .fades (Cache.Fades.refl key _)
  | track | setInDestruction => exact .fades (.of_stores rfl rfl rfl)
  | take opened =>
      rcases Cache.eq_of_openEarly opened with ⟨_, _, _, _, rfl⟩
      exact .fades ⟨id, id, by simp⟩
  | start opened =>
      rcases Cache.eq_of_openCreation opened with ⟨_, _, _, _, _, rfl⟩
      exact .fades (.of_stores rfl rfl rfl)
  | @register other offered => exact Cache.passes_finalize _ other key offered
  | @announce other factory => exact Cache.passes_registerPending _ other key factory
  | @evict other => exact .fades (Cache.fades_evict _ other key)
  | suppress =>
      rw [Cache.suppress_eq]
      exact .fades (.of_stores rfl rfl rfl)
  | clear => exact .fades (Cache.fades_clear _ key)
  | tear _ torn => exact .fades (torn.fades key)
  | close _ closing => exact closing.passes key
  | tearOn _ torn => exact .fades (torn.fades key)
  | @expose object other rest running =>
      have differ : key ≠ other := by
        rintro rfl
        exact hidden ⟨_, running⟩
      exact .fades ⟨id, by simp [differ], id⟩

/-- An exposure adds the early reference, whatever the other stores hold of the key. -/
theorem stores_of_exposes {s t : Session κ} {move : Move κ} {key : Name}
    (exposes : s.Exposes key move) (moved : s.move? move = some t) :
    t.registry.cache.finalized = s.registry.cache.finalized ∧
      t.registry.cache.pending = s.registry.cache.pending ∧ key ∈ t.registry.cache.early := by
  unfold Exposes at exposes
  split at exposes
  · rcases exposes with ⟨rest, running⟩
    rcases move?_finish_eq_some_iff.mp moved with ⟨frame, below, waiting, rfl⟩
    rcases List.cons.inj (running.symm.trans waiting) with ⟨rfl, rfl⟩
    simp [Registry.resume, Cache.exposeEarly, Registry.answer]
  · exact absurd exposes id

theorem move?_isSome_of_exposes {s : Session κ} {move : Move κ} {key : Name}
    (exposes : s.Exposes key move) : (s.move? move).isSome := by
  unfold Exposes at exposes
  split at exposes
  · rcases exposes with ⟨rest, running⟩
    rw [move?_finish_isSome_iff, running]
    exact List.cons_ne_nil _ _
  · exact absurd exposes id

/-- A key in one store at most is in one at most after a move as well, unless the move is an
exposure that has been overtaken. -/
theorem heldOnce_iff_not_overtaken {s t : Session κ} {move : Move κ} {key : Name}
    (once : s.registry.cache.HeldOnce key) (moved : s.move? move = some t) :
    t.registry.cache.HeldOnce key ↔ ¬ s.Overtaken key move := by
  by_cases exposes : s.Exposes key move
  · rcases stores_of_exposes exposes moved with ⟨finalized, pending, early⟩
    constructor
    · rintro once' ⟨_, overtaken | overtaken⟩
      · rw [← finalized] at overtaken
        exact once'.finalized_not_early overtaken early
      · rw [← pending] at overtaken
        exact once'.early_not_pending early overtaken
    · intro intime
      have absent : key ∉ t.registry.cache.finalized := by
        rw [finalized]
        exact fun member => intime ⟨exposes, .inl member⟩
      constructor
      · exact fun member => absurd member absent
      · exact fun member => absurd member absent
      · intro _
        rw [pending]
        exact fun member => intime ⟨exposes, .inr member⟩
  · constructor
    · rintro _ ⟨exposes', _⟩
      exact exposes exposes'
    · intro _
      exact once.passes (passes_of_not_exposes exposes moved)

theorem finalized_not_pending_of_move? {s t : Session κ} {move : Move κ} {key : Name}
    (apart : key ∈ s.registry.cache.finalized → key ∉ s.registry.cache.pending)
    (moved : s.move? move = some t) :
    key ∈ t.registry.cache.finalized → key ∉ t.registry.cache.pending := by
  by_cases exposes : s.Exposes key move
  · rcases stores_of_exposes exposes moved with ⟨finalized, pending, _⟩
    rw [finalized, pending]
    exact apart
  · cases passes_of_not_exposes exposes moved with
    | fades fades =>
        intro finalized pending
        exact apart (fades.finalized finalized) (fades.pending pending)
    | settled _ pending => exact fun _ => pending
    | announced finalized => exact fun member => absurd member finalized

/-! ## Runs -/

/-- In every run no key is both finalized and pending; and a key is in one store at most all along
the run exactly if no exposure of an early reference of the key has been overtaken. -/
theorem heldOnce_throughout_iff_never_overtaken (name : Name) (allowOverriding : Bool)
    (ledger : Ledger) (moves : List (Move κ)) (key : Name) :
    (∀ t, (begin name allowOverriding ledger).moves? moves = some t →
        key ∈ t.registry.cache.finalized → key ∉ t.registry.cache.pending) ∧
      ((∀ first, first <+: moves → ∀ t,
          (begin name allowOverriding ledger).moves? first = some t →
            t.registry.cache.HeldOnce key) ↔
        (begin name allowOverriding ledger).Along (fun s move => ¬ s.Overtaken key move) moves) := by
  constructor
  · intro t moved
    apply invariant (fun _ _ _ apart moved => finalized_not_pending_of_move? apart moved) ?_ moved
    exact fun finalized => absurd finalized (NameMap.not_mem_empty key)
  · apply throughout_iff_along
    · intro s move t once moved
      exact heldOnce_iff_not_overtaken once moved
    · intro s move overtaken
      exact move?_isSome_of_exposes (Classical.not_not.mp overtaken).1
    · exact ⟨fun finalized => absurd finalized (NameMap.not_mem_empty key),
        fun finalized => absurd finalized (NameMap.not_mem_empty key),
        fun early => absurd early (NameMap.not_mem_empty key)⟩

/-- A pending factory that registers another pending factory for its own key, and one that finalizes
its own key, leave the key in two stores when they come back with an instance.  In the first case
the key goes on to answer with what the old pending factory made, and the new one is not called. -/
theorem key_in_two_stores :
    (∃ t : Session Unit,
      (begin "default" true {}).moves? [.call (.cache (.getOrCreate "a" (some ()))),
        .call (.cache (.registerPending "a" (some ()))), .call (.cache (.getEarly "a")),
        .call (.cache (.registerPending "a" (some ()))),
        .finish (.returned (some ⟨"Service", 1⟩))] = some t ∧
      "a" ∈ t.registry.cache.early ∧ "a" ∈ t.registry.cache.pending ∧
      (t.call (.cache (.getEarly "a"))).value =
        (t, .answered (.ok (.handle (some ⟨"Service", 1⟩))))) ∧
    ∃ t : Session Unit,
      (begin "default" true {}).moves? [.call (.cache (.getOrCreate "a" (some ()))),
        .call (.cache (.registerPending "a" (some ()))), .call (.cache (.getEarly "a")),
        .call (.cache (.registerFinalized "a" (some ⟨"Service", 1⟩))),
        .finish (.returned (some ⟨"Service", 2⟩))] = some t ∧
      "a" ∈ t.registry.cache.finalized ∧ "a" ∈ t.registry.cache.early := by
  constructor
  · have run : ((begin (κ := Unit) "default" true {}).moves? [
          .call (.cache (.getOrCreate "a" (some ()))),
          .call (.cache (.registerPending "a" (some ()))), .call (.cache (.getEarly "a")),
          .call (.cache (.registerPending "a" (some ()))),
          .finish (.returned (some ⟨"Service", 1⟩))]).map (fun t =>
            (t.registry.cache.get "a", t.registry.cache.tracker.isActual "a",
              t.registry.cache.early.find? "a", t.registry.cache.pending.find? "a")) =
        some (none, true, some ⟨"Service", 1⟩, some ()) := by
      decide +kernel
    rcases Option.map_eq_some_iff.mp run with ⟨t, moved, facts⟩
    simp only [Prod.mk.injEq] at facts
    rcases facts with ⟨absent, actual, early, pending⟩
    have answered : (t.call (.cache (.getEarly "a"))).value =
        (t, .answered (.ok (.handle (some ⟨"Service", 1⟩)))) := by
      apply call_eq_self
      simp [Registry.call, Registry.callCache, Cache.openEarly, absent, actual, early,
        Registry.answer]
    exact ⟨t, moved, by simp [NameMap.mem_iff_isSome, early],
      by simp [NameMap.mem_iff_isSome, pending], answered⟩
  · have run : ((begin (κ := Unit) "default" true {}).moves? [
          .call (.cache (.getOrCreate "a" (some ()))),
          .call (.cache (.registerPending "a" (some ()))), .call (.cache (.getEarly "a")),
          .call (.cache (.registerFinalized "a" (some ⟨"Service", 1⟩))),
          .finish (.returned (some ⟨"Service", 2⟩))]).map (fun t =>
            (decide ("a" ∈ t.registry.cache.finalized), decide ("a" ∈ t.registry.cache.early))) =
        some (true, true) := by
      decide +kernel
    rcases Option.map_eq_some_iff.mp run with ⟨t, moved, facts⟩
    simp only [Prod.mk.injEq, decide_eq_true_eq] at facts
    exact ⟨t, moved, facts⟩

end Session

end Lifecycle
