import Lifecycle.Proofs.Creation.InCreation

/-!
# The list of registered names

The cache keeps the names of its keys in a list of their own, beside the stores.  The list has every
finalized key and every key with a pending factory, once; a change of it adds a name at the end or
takes names off, and never moves one.  While a key is being created it may be listed without being
in either store, because its pending factory has been taken; the end of the creation makes good for
that, so that nothing else is listed when no factory is running.
-/

namespace Lifecycle

variable {κ : Type}

namespace Cache

/-! ## Changes of the list -/

/-- A change of the list: a new name is added at its end, or names are taken off it. -/
inductive Relisted (before : List Name) : List Name → Prop where
  | appended (key : Name) (absent : key ∉ before) : Relisted before (before ++ [key])
  | thinned {after : List Name} (kept : after.Sublist before) : Relisted before after

theorem Relisted.refl (names : List Name) : Relisted names names :=
  .thinned (List.Sublist.refl names)

theorem Relisted.nodup {before after : List Name} (relisted : Relisted before after)
    (distinct : before.Nodup) : after.Nodup := by
  cases relisted with
  | appended key absent =>
      apply List.nodup_append.mpr
      constructor
      · exact distinct
      · constructor
        · simp
        · rintro name member _ last rfl
          exact absent (List.mem_singleton.mp last ▸ member)
  | thinned kept => exact distinct.sublist kept

section relisted

variable (c : Cache κ) (key : Name)

theorem relisted_list : Relisted c.registered (c.list key).registered := by
  rw [registered_list]
  split
  · exact .refl c.registered
  · rename_i absent
    exact .appended key absent

theorem relisted_unlist : Relisted c.registered (c.unlist key).registered :=
  .thinned List.filter_sublist

theorem relisted_finalize (object : Instance) :
    Relisted c.registered (c.finalize key object).value.2.registered := by
  rw [registered_finalize]
  split
  · exact .refl c.registered
  · exact c.relisted_list key

theorem relisted_registerPending (factory : κ) :
    Relisted c.registered (c.registerPending key factory).registered := by
  rw [registered_registerPending]
  split
  · exact .refl c.registered
  · exact c.relisted_list key

theorem relisted_discardPartial :
    Relisted c.registered (c.discardPartial key).value.registered := by
  rw [registered_discardPartial]
  split
  · exact .refl c.registered
  · exact c.relisted_unlist key

end relisted

/-- A teardown takes names off the list. -/
theorem Torn.registered_sublist {c c' : Cache κ} (torn : c.Torn c') :
    c'.registered.Sublist c.registered := by
  induction torn with
  | refl => exact List.Sublist.refl _
  | evict _ key ih => exact List.filter_sublist.trans ih
  | clear _ ih => exact List.nil_sublist _
  | shut _ ih => exact ih

theorem Closing.relisted {c c' : Cache κ} {key : Name} {outcome : Outcome}
    {result : Except Fault Instance} (closing : c.Closing key outcome result c') :
    Relisted c.registered c'.registered := by
  cases closing with
  | @fresh object tracker suppressed =>
      exact relisted_finalize { c with suppressed, tracker } key object
  | adopted => exact .refl c.registered
  | @failed _ _ _ suppressed => exact relisted_discardPartial { c with suppressed } key
  | @unknown _ _ _ _ suppressed _ left =>
      rcases left with rfl | rfl
      · exact .refl c.registered
      · exact relisted_discardPartial { c with suppressed } key

/-! ## What has to be listed -/

/-- Every finalized key and every key with a pending factory is listed. -/
def Lists (c : Cache κ) : Prop :=
  ∀ key, key ∈ c.finalized ∨ key ∈ c.pending → key ∈ c.registered

namespace Lists

variable {c c' : Cache κ} (lists : c.Lists) (key : Name)

include lists

theorem of_eq (finalized : c'.finalized = c.finalized)
    (pending : ∀ k, k ∈ c'.pending → k ∈ c.pending) (registered : c'.registered = c.registered) :
    c'.Lists := by
  intro k held
  rw [registered]
  rw [finalized] at held
  exact lists k (held.imp_right (pending k))

theorem finalize (object : Instance) : (c.finalize key object).value.2.Lists := by
  intro k held
  rw [mem_finalized_finalize, pending_finalize, NameMap.mem_erase] at held
  rw [registered_finalize]
  have listed : k = key ∨ k ∈ c.registered := by
    rcases held with (same | finalized) | ⟨_, pending⟩
    · exact .inl same
    · exact .inr (lists k (.inl finalized))
    · exact .inr (lists k (.inr pending))
  split
  · rename_i finalized
    rcases listed with rfl | listed
    · exact lists k (.inl finalized)
    · exact listed
  · exact mem_registered_list.mpr listed

theorem registerPending (factory : κ) : (c.registerPending key factory).Lists := by
  intro k held
  rw [mem_finalized_iff, get_registerPending, pending_registerPending] at held
  rw [registered_registerPending]
  split
  · rename_i finalized
    rw [if_pos finalized] at held
    exact lists k held
  · rename_i absent
    rw [if_neg absent, NameMap.mem_insert] at held
    rw [mem_registered_list]
    rcases held with finalized | same | pending
    · exact .inr (lists k (.inl finalized))
    · exact .inl same
    · exact .inr (lists k (.inr pending))

theorem evict : (c.evict key).Lists := by
  intro k held
  have kept : k ≠ key ∧ (k ∈ c.finalized ∨ k ∈ c.pending) := by
    rw [pending_evict, NameMap.mem_erase] at held
    rcases held with finalized | pending
    · have erased : k ∈ c.finalized.erase key := finalized
      rw [NameMap.mem_erase] at erased
      exact ⟨erased.1, .inl erased.2⟩
    · exact ⟨pending.1, .inr pending.2⟩
  exact mem_registered_unlist.mpr ⟨kept.1, lists k kept.2⟩

omit lists in
theorem clear (c : Cache κ) : c.clear.Lists := by
  intro k held
  rcases held with finalized | pending
  · exact absurd finalized (NameMap.not_mem_empty k)
  · exact absurd pending (NameMap.not_mem_empty k)

theorem discardPartial : (c.discardPartial key).value.Lists := by
  rw [value_discardPartial]
  split
  · exact lists
  · rename_i absent
    intro k held
    rw [finalized_unlist, finalized_dropPartial, pending_unlist, pending_dropPartial,
      NameMap.mem_erase] at held
    rw [mem_registered_unlist]
    rcases held with finalized | ⟨differ, pending⟩
    · constructor
      · rintro rfl
        exact absent finalized
      · exact lists k (.inl finalized)
    · exact ⟨differ, lists k (.inr pending)⟩

theorem torn (torn : c.Torn c') : c'.Lists := by
  induction torn with
  | refl => exact lists
  | evict _ key ih => exact ih.evict key
  | clear => exact clear _
  | shut _ ih => exact ih

theorem closing {key : Name} {outcome : Outcome} {result : Except Fault Instance}
    (closing : c.Closing key outcome result c') : c'.Lists := by
  cases closing with
  | @fresh object tracker suppressed =>
      have recorded : Lists { c with suppressed, tracker } := lists
      exact recorded.finalize key object
  | adopted => exact lists.of_eq rfl (fun _ => id) rfl
  | @failed _ _ _ suppressed =>
      have recorded : Lists { c with suppressed } := lists
      exact (recorded.discardPartial key).of_eq rfl (fun _ => id) rfl
  | @unknown _ _ _ _ suppressed _ left =>
      have recorded : Lists { c with suppressed } := lists
      rcases left with rfl | rfl
      · exact recorded
      · exact recorded.discardPartial key

end Lists

/-! ## What may be listed -/

/-- A key has a reason to be listed: it is finalized, has a pending factory, or is in creation. -/
def Backs (c : Cache κ) (key : Name) : Prop :=
  key ∈ c.finalized ∨ key ∈ c.pending ∨ key ∈ c.tracker.inCreation

/-- Every listed key has a reason to be listed. -/
def Backed (c : Cache κ) : Prop := ∀ key ∈ c.registered, c.Backs key

namespace Backed

variable {c c' : Cache κ} {key : Name}

/-- When a key is finalized, it needs no other reason to be listed. -/
theorem finalize (backed : ∀ k ∈ c.registered, k ≠ key → c.Backs k) (object : Instance) :
    (c.finalize key object).value.2.Backed := by
  intro k listed
  by_cases same : k = key
  · exact .inl (mem_finalized_finalize.mpr (.inl same))
  · have before : k ∈ c.registered := by
      rw [registered_finalize] at listed
      split at listed
      · exact listed
      · exact (mem_registered_list.mp listed).resolve_left same
    rcases backed k before same with finalized | pending | inCreation
    · exact .inl (mem_finalized_finalize.mpr (.inr finalized))
    · right
      left
      rw [pending_finalize]
      exact NameMap.mem_erase.mpr ⟨same, pending⟩
    · right
      right
      rw [tracker_finalize]
      exact inCreation

/-- When the creation of a key has failed, the key is not listed, or it is finalized. -/
theorem discardPartial (backed : ∀ k ∈ c.registered, k ≠ key → c.Backs k) :
    (c.discardPartial key).value.Backed := by
  rw [value_discardPartial]
  split
  · rename_i finalized
    intro k listed
    by_cases same : k = key
    · exact .inl (same ▸ finalized)
    · exact backed k listed same
  · intro k listed
    rcases mem_registered_unlist.mp listed with ⟨differ, before⟩
    rcases backed k before differ with finalized | pending | inCreation
    · exact .inl finalized
    · exact .inr (.inl (NameMap.mem_erase.mpr ⟨differ, pending⟩))
    · exact .inr (.inr inCreation)

theorem registerPending (backed : c.Backed) (key : Name) (factory : κ) :
    (c.registerPending key factory).Backed := by
  intro k listed
  rw [registered_registerPending] at listed
  rw [Backs, mem_finalized_iff, get_registerPending, pending_registerPending,
    tracker_registerPending]
  split at listed
  · rename_i finalized
    rw [if_pos finalized]
    exact backed k listed
  · rename_i absent
    rw [if_neg absent, NameMap.mem_insert]
    rcases mem_registered_list.mp listed with same | before
    · exact .inr (.inl (.inl same))
    · rcases backed k before with finalized | pending | inCreation
      · exact .inl finalized
      · exact .inr (.inl (.inr pending))
      · exact .inr (.inr inCreation)

theorem evict (backed : c.Backed) (key : Name) : (c.evict key).Backed := by
  intro k listed
  rcases mem_registered_unlist.mp listed with ⟨differ, before⟩
  rcases backed k before with finalized | pending | inCreation
  · exact .inl (NameMap.mem_erase.mpr ⟨differ, finalized⟩)
  · exact .inr (.inl (NameMap.mem_erase.mpr ⟨differ, pending⟩))
  · exact .inr (.inr inCreation)

theorem clear (c : Cache κ) : c.clear.Backed := by
  intro k listed
  exact absurd listed List.not_mem_nil

theorem torn (backed : c.Backed) (torn : c.Torn c') : c'.Backed := by
  induction torn with
  | refl => exact backed
  | evict _ key ih => exact ih.evict key
  | clear => exact clear _
  | shut _ ih => exact ih

/-- A tracker that holds every key that was in creation. -/
theorem track {tracker : Tracker} (backed : c.Backed)
    (more : ∀ k ∈ c.tracker.inCreation, k ∈ tracker.inCreation) :
    Backed { c with tracker } := by
  intro k listed
  rcases backed k listed with finalized | pending | inCreation
  · exact .inl finalized
  · exact .inr (.inl pending)
  · exact .inr (.inr (more k inCreation))

end Backed

end Cache

theorem Cache.Backed.closing {c c' : Cache κ} {key : Name} {outcome : Outcome}
    {result : Except Fault Instance} (backed : c.Backed)
    (closing : c.Closing key outcome result c') : c'.Backed := by
  -- The end of the creation takes the key out of creation; all other keys keep their reason.
  have others : ∀ {tracker : Tracker}, (c.tracker.finish key).value = .ok tracker →
      ∀ suppressed, ∀ k ∈ c.registered, k ≠ key → Cache.Backs { c with suppressed, tracker } k := by
    intro tracker finished suppressed k listed differ
    rcases backed k listed with finalized | pending | inCreation
    · exact .inl finalized
    · exact .inr (.inl pending)
    · have spared : k = key → key ∈ c.tracker.excluded := fun same => absurd same differ
      exact .inr (.inr ((Tracker.mem_finish_iff finished).mpr ⟨inCreation, spared⟩))
  cases closing with
  | @fresh object tracker suppressed finished =>
      exact Cache.Backed.finalize (others finished suppressed) object
  | @adopted _ object _ suppressed finished _ found =>
      intro k listed
      by_cases same : k = key
      · left
        rw [same, mem_finalized_iff]
        exact Option.isSome_of_eq_some found
      · exact others finished suppressed k listed same
  | @failed _ _ tracker suppressed finished =>
      rw [← Cache.discardPartial_withTracker]
      exact Cache.Backed.discardPartial (others finished suppressed)
  | @unknown _ _ _ _ suppressed _ left =>
      have recorded : Cache.Backed { c with suppressed } := backed
      rcases left with rfl | rfl
      · exact recorded
      · exact Cache.Backed.discardPartial fun k listed _ => recorded k listed

/-- A move that takes no key out of creation behind the back of its request: nobody but the request
tells the tracker that a creation has ended, and nobody clears the tracker. -/
def Move.LeavesCreations : Move κ → Prop
  | .call (.tracker (.finish _)) | .call (.tracker .clear) => False
  | _ => True

namespace Session

/-! ## Moves -/

/-- A move adds one new name to the list, at its end, or takes names off the list. -/
theorem relisted_of_move? {s t : Session κ} {move : Move κ} (moved : s.move? move = some t) :
    Cache.Relisted s.registry.cache.registered t.registry.cache.registered := by
  apply of_effect (fun c _ => Cache.Relisted s.registry.cache.registered c.registered) moved
  intro c' stack' effect
  cases effect with
  | idle | track | setInDestruction | expose | withhold => exact .refl _
  | take opened =>
      rcases Cache.eq_of_openEarly opened with ⟨_, _, _, _, rfl⟩
      exact .refl _
  | start opened =>
      rcases Cache.eq_of_openCreation opened with ⟨_, _, _, _, _, rfl⟩
      exact .refl _
  | @register key object => exact Cache.relisted_finalize _ key object
  | @announce key factory => exact Cache.relisted_registerPending _ key factory
  | evict => exact .thinned List.filter_sublist
  | suppress =>
      rw [Cache.suppress_eq]
      exact .refl _
  | clear => exact .thinned (List.nil_sublist _)
  | tear _ torn => exact .thinned torn.registered_sublist
  | close _ closing => exact closing.relisted
  | tearOn _ torn => exact .thinned torn.registered_sublist

theorem lists_of_move? {s t : Session κ} {move : Move κ} (lists : s.registry.cache.Lists)
    (moved : s.move? move = some t) : t.registry.cache.Lists := by
  apply of_effect (fun c _ => c.Lists) moved
  intro c' stack' effect
  cases effect with
  | idle | withhold => exact lists
  | track | setInDestruction | expose => exact lists.of_eq rfl (fun _ => id) rfl
  | take opened =>
      rcases Cache.eq_of_openEarly opened with ⟨_, _, _, _, rfl⟩
      exact lists.of_eq rfl (fun _ pending => (NameMap.mem_erase.mp pending).2) rfl
  | start opened =>
      rcases Cache.eq_of_openCreation opened with ⟨_, _, _, _, _, rfl⟩
      exact lists.of_eq rfl (fun _ => id) rfl
  | @register key object => exact lists.finalize key object
  | @announce key factory => exact lists.registerPending key factory
  | @evict key => exact lists.evict key
  | suppress =>
      rw [Cache.suppress_eq]
      exact lists.of_eq rfl (fun _ => id) rfl
  | clear => exact Cache.Lists.clear _
  | tear _ torn => exact lists.torn torn
  | close _ closing => exact lists.closing closing
  | tearOn _ torn => exact lists.torn torn

theorem backed_of_move? {s t : Session κ} {move : Move κ} (backed : s.registry.cache.Backed)
    (leaves : move.LeavesCreations) (moved : s.move? move = some t) :
    t.registry.cache.Backed := by
  apply of_effect (fun c _ => c.Backed) moved
  intro c' stack' effect
  cases effect with
  | idle | setInDestruction | expose | withhold => exact backed
  | @track call tracker answer granted =>
      cases call with
      | finish | clear => exact absurd leaves id
      | start key =>
          simp only [TrackerCall.run, Log.Logged.value_pure] at granted
          cases started : s.registry.cache.tracker.start key with
          | error cause => simp [started, Except.map] at granted
          | ok tracker' =>
              simp only [started, Except.map, Except.ok.injEq, Prod.mk.injEq] at granted
              obtain rfl := granted.1
              exact backed.track fun k member => (Tracker.mem_start_iff started).mpr (.inl member)
      | watch | isCurrent | isActual | isExcluded =>
          rcases Prod.mk.inj (Except.ok.inj granted) with ⟨rfl, _⟩
          exact backed.track fun _ => id
  | @take key _ _ opened =>
      -- The pending factory of a key is taken only while the key is in creation.
      rcases Cache.eq_of_openEarly opened with ⟨_, actual, _, _, rfl⟩
      intro k listed
      by_cases same : k = key
      · exact .inr (.inr (same ▸ actual))
      · rcases backed k listed with finalized | pending | inCreation
        · exact .inl finalized
        · exact .inr (.inl (NameMap.mem_erase.mpr ⟨same, pending⟩))
        · exact .inr (.inr inCreation)
  | start opened =>
      rcases Cache.eq_of_openCreation opened with ⟨_, _, _, tracker, started, rfl⟩
      exact backed.track fun k member => (Tracker.mem_start_iff started).mpr (.inl member)
  | @register key object => exact Cache.Backed.finalize (fun k listed _ => backed k listed) object
  | @announce key factory => exact backed.registerPending key factory
  | @evict key => exact backed.evict key
  | suppress =>
      rw [Cache.suppress_eq]
      exact backed
  | clear => exact Cache.Backed.clear _
  | tear _ torn => exact backed.torn torn
  | close _ closing => exact backed.closing closing
  | tearOn _ torn => exact backed.torn torn

/-! ## Runs -/

variable {t : Session κ} {moves : List (Move κ)} {name : Name} {allowOverriding : Bool}
  {ledger : Ledger}

/-- As long as nobody takes keys out of creation but the requests, a listed key that is neither
finalized nor pending is in creation. -/
theorem backed_of_moves?
    (leaves : (begin name allowOverriding ledger).Along (fun _ move => move.LeavesCreations) moves)
    (moved : (begin name allowOverriding ledger).moves? moves = some t) :
    t.registry.cache.Backed := by
  have new : (begin (κ := κ) name allowOverriding ledger).registry.cache.Backed :=
    Cache.Backed.clear {}
  exact leaves.invariant (fun _ _ _ backed leaves moved => backed_of_move? backed leaves moved) new
    moved

theorem Undriven.leavesCreations {s : Session κ} {move : Move κ} (undriven : s.Undriven move) :
    move.LeavesCreations := by
  unfold Undriven at undriven
  unfold Move.LeavesCreations
  split <;> simp_all

/-- At every moment of every run, no name is listed twice, and every finalized key and every key
with a pending factory is listed; whatever is done next adds one new name at the end of the list or
takes names off it; and if the tracker has been left to the requests, then nothing else is listed
when no factory is running. -/
theorem listed_iff_finalized_or_pending
    (moved : (begin name allowOverriding ledger).moves? moves = some t) :
    let cache := t.registry.cache
    cache.registered.Nodup ∧
      (∀ key, key ∈ cache.finalized ∨ key ∈ cache.pending → key ∈ cache.registered) ∧
      (∀ move u, t.move? move = some u →
        Cache.Relisted cache.registered u.registry.cache.registered) ∧
      ((begin name allowOverriding ledger).Along Undriven moves →
        Frame.creations t.stack = [] →
          ∀ key, key ∈ cache.registered ↔ key ∈ cache.finalized ∨ key ∈ cache.pending) := by
  intro cache
  have lists : cache.Lists :=
    invariant (fun _ _ _ lists moved => lists_of_move? lists moved) (Cache.Lists.clear {}) moved
  have distinct : cache.registered.Nodup :=
    invariant (fun _ _ _ distinct moved => (relisted_of_move? moved).nodup distinct)
      List.nodup_nil moved
  have exactly : (begin name allowOverriding ledger).Along Undriven moves →
      Frame.creations t.stack = [] →
        ∀ key, key ∈ cache.registered ↔ key ∈ cache.finalized ∨ key ∈ cache.pending := by
    intro undriven idle key
    constructor
    · intro listed
      have leaves := undriven.imp fun _ _ undriven => undriven.leavesCreations
      have nothing : cache.tracker.inCreation = ∅ :=
        (inCreation_iff_running undriven moved).2.2.2 idle
      rcases backed_of_moves? leaves moved key listed with finalized | pending | inCreation
      · exact .inl finalized
      · exact .inr pending
      · rw [nothing] at inCreation
        exact absurd inCreation (NameMap.not_mem_empty key)
    · exact lists key
  exact ⟨distinct, lists, fun _ _ => relisted_of_move?, exactly⟩

/-- The pending factory of a key is taken and makes nothing, another key is created, and then the
creation of the first key fails: the key was listed all the time without being in a store, and is
not listed any more. -/
theorem failed_key_is_unlisted :
    ∃ t : Session Unit,
      (begin "default" true {}).moves? [.call (.cache (.getOrCreate "a" (some ()))),
        .call (.cache (.registerPending "a" (some ()))), .call (.cache (.getEarly "a")),
        .finish (.returned none), .call (.cache (.getOrCreate "b" (some ()))),
        .finish (.returned (some ⟨"Service", 1⟩)), .finish (.threw ⟨0, .foreign⟩),
        .call (.cache (.registerPending "c" (some ())))] = some t ∧
      t.registry.cache.registered = ["b", "c"] ∧
      ∀ key, key ∈ t.registry.cache.registered ↔
        key ∈ t.registry.cache.finalized ∨ key ∈ t.registry.cache.pending := by
  have run : ((begin (κ := Unit) "default" true {}).moves? [
        .call (.cache (.getOrCreate "a" (some ()))),
        .call (.cache (.registerPending "a" (some ()))), .call (.cache (.getEarly "a")),
        .finish (.returned none), .call (.cache (.getOrCreate "b" (some ()))),
        .finish (.returned (some ⟨"Service", 1⟩)), .finish (.threw ⟨0, .foreign⟩),
        .call (.cache (.registerPending "c" (some ())))]).map
      (fun t => (t.registry.cache.registered, t.stack)) = some (["b", "c"], []) := by
    decide +kernel
  rcases Option.map_eq_some_iff.mp run with ⟨t, moved, facts⟩
  rcases Prod.mk.inj facts with ⟨listed, idle⟩
  obtain ⟨_, _, _, exactly⟩ := listed_iff_finalized_or_pending moved
  have running : Frame.creations t.stack = [] := by
    rw [idle]
    rfl
  have undriven := exactly (by simp [Along, Undriven]) running
  exact ⟨t, moved, listed, undriven⟩

end Session

end Lifecycle
