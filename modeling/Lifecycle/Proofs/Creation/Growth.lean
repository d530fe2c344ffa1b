import Lifecycle.Proofs.Creation.Listed

/-!
# What requests make of the cache

How the cache stands in the middle of a tree of requests is told by three lists: the creations that
have succeeded, in the order of their ends, the keys of those that have failed, and the keys of
those that are going on, the innermost first (`Cache.Since`).  The beginning of a creation and its
end on success and on failure each carry this on.  When no creation is going on any more, the cache
has grown by what has succeeded, and is otherwise as it was (`Cache.Grown`).
-/

namespace Lifecycle

open Log

variable {κ : Type}

/-! ## The tracker -/

/-- A tracker that watches every key holds the keys that were in creation before and those whose
factories have been entered since, each of them once. -/
structure Tracker.Extends (before : NameSet) (running : List Name) (t : Tracker) : Prop where
  excluded : t.excluded = ∅
  mem_iff (key : Name) : key ∈ t.inCreation ↔ key ∈ before ∨ key ∈ running
  distinct : running.Nodup
  fresh : ∀ key ∈ running, key ∉ before

namespace Tracker.Extends

variable {before : NameSet} {running : List Name} {t t' : Tracker} {key : Name}

theorem refl (unexcluded : t.excluded = ∅) : t.Extends t.inCreation [] where
  excluded := unexcluded
  mem_iff key := by simp
  distinct := List.nodup_nil
  fresh := by simp

theorem start (held : t.Extends before running) (started : t.start key = .ok t') :
    t'.Extends before (key :: running) := by
  unfold Tracker.start at started
  rw [if_neg (by rw [held.excluded]; exact NameMap.not_mem_empty key)] at started
  split at started
  · contradiction
  · rename_i absent
    obtain rfl := Except.ok.inj started
    have new := mt (held.mem_iff key).mpr absent
    rw [not_or] at new
    constructor
    case excluded => exact held.excluded
    case mem_iff =>
      intro k
      rw [NameSet.mem_add, held.mem_iff, List.mem_cons]
      exact or_left_comm
    case distinct => exact List.nodup_cons.mpr ⟨new.2, held.distinct⟩
    case fresh => exact List.forall_mem_cons.mpr ⟨new.1, held.fresh⟩

/-- The end of the innermost creation is never refused. -/
theorem finish (held : t.Extends before (key :: running)) :
    ∃ t', (t.finish key).value = .ok t' ∧ t'.Extends before running := by
  rcases List.nodup_cons.mp held.distinct with ⟨once, distinct⟩
  rcases List.forall_mem_cons.mp held.fresh with ⟨new, fresh⟩
  have watched : key ∉ t.excluded := by
    rw [held.excluded]
    exact NameMap.not_mem_empty key
  have present : key ∈ t.inCreation := (held.mem_iff key).mpr (.inr List.mem_cons_self)
  have finished : (t.finish key).value = .ok { t with inCreation := t.inCreation.erase key } := by
    simp [Tracker.finish, watched, present]
  have left : Extends before running { t with inCreation := t.inCreation.erase key } := by
    constructor
    case excluded => exact held.excluded
    case mem_iff =>
      intro k
      rw [NameMap.mem_erase, held.mem_iff, List.mem_cons]
      constructor
      · rintro ⟨differ, old | same | running⟩
        · exact .inl old
        · exact absurd same differ
        · exact .inr running
      · rintro (old | running)
        · exact ⟨ne_of_mem_of_not_mem old new, .inl old⟩
        · exact ⟨ne_of_mem_of_not_mem running once, .inr (.inr running)⟩
    case distinct => exact distinct
    case fresh => exact fresh
  exact ⟨_, finished, left⟩

/-- When the creations have ended, the tracker is as it was. -/
theorem eq_of_idle (held : t'.Extends t.inCreation []) (unexcluded : t.excluded = ∅) : t' = t := by
  have inCreation : t'.inCreation = t.inCreation := by
    apply NameSet.ext_mem
    intro k
    simpa using held.mem_iff k
  have excluded : t'.excluded = t.excluded := held.excluded.trans unexcluded.symm
  cases t
  cases t'
  simp_all

end Tracker.Extends

/-! ## The cache -/

namespace Cache

/-- A cache that is open and watches every key, and in which no object waits to be finished. -/
structure Quiet (c : Cache κ) : Prop where
  inDestruction : c.inDestruction = false
  early : c.early = ∅
  pending : c.pending = ∅
  excluded : c.tracker.excluded = ∅

/-- How a cache stands when requests have been made of it, and nothing else has been done to it:
which creations have succeeded since, in the order of their ends, for which keys creations have
failed, and for which they are going on. -/
structure Since (c : Cache κ) (made : List (Name × Instance)) (failed running : List Name)
    (c' : Cache κ) : Prop where
  inDestruction : c'.inDestruction = false
  early : c'.early = ∅
  pending : c'.pending = ∅
  tracker : c'.tracker.Extends c.tracker.inCreation running
  absent : ∀ key ∈ running, c'.get key = none
  get_eq_some_iff (key : Name) (object : Instance) :
    c'.get key = some object ↔ c.get key = some object ∨ (key, object) ∈ made
  distinct : (made.map Prod.fst).Nodup
  tried (key : Name) : key ∈ made.map Prod.fst ∨ key ∈ failed →
    key ∉ c.finalized ∧ key ∉ c.tracker.inCreation
  registered_eq : c'.registered = c.registered.filter (· ∉ failed) ++
    (made.map Prod.fst).filter fun key => key ∉ c.registered ∨ key ∈ failed

namespace Since

variable {c d d' : Cache κ} {made : List (Name × Instance)} {failed running : List Name}
  {key : Name} {outcome : Outcome} {result : Except Fault Instance}

theorem refl (quiet : c.Quiet) : c.Since [] [] [] c where
  inDestruction := quiet.inDestruction
  early := quiet.early
  pending := quiet.pending
  tracker := .refl quiet.excluded
  absent := by simp
  get_eq_some_iff := by simp
  distinct := List.nodup_nil
  tried := by simp
  registered_eq := by simp [List.filter_eq_self.mpr]

theorem mem_finalized_iff (since : c.Since made failed running d) :
    key ∈ d.finalized ↔ key ∈ c.finalized ∨ key ∈ made.map Prod.fst := by
  simp only [Cache.mem_finalized_iff, Option.isSome_iff_exists, since.get_eq_some_iff, exists_or,
    List.mem_map, Prod.exists, exists_and_right, exists_eq_right]

theorem start {outermost : Bool} (since : c.Since made failed running d)
    (opened : (d.openCreation key).value = .started outermost d') :
    c.Since made failed (key :: running) d' := by
  rcases eq_of_openCreation opened with ⟨absent, _, _, tracker, started, rfl⟩
  exact { since with
    tracker := since.tracker.start started
    absent := List.forall_mem_cons.mpr ⟨absent, since.absent⟩ }

/-- A key that is being created has not been made since, and was neither finalized nor in creation
before. -/
theorem unmade (since : c.Since made failed (key :: running) d) :
    key ∉ made.map Prod.fst ∧ key ∉ c.finalized ∧ key ∉ c.tracker.inCreation := by
  have absent := not_mem_finalized_iff.mpr (since.absent key List.mem_cons_self)
  rw [since.mem_finalized_iff, not_or] at absent
  exact ⟨absent.2, absent.1, since.tracker.fresh key List.mem_cons_self⟩

theorem mem_registered_iff (since : c.Since made failed running d)
    (unmade : key ∉ made.map Prod.fst) :
    key ∈ d.registered ↔ key ∈ c.registered ∧ key ∉ failed := by
  rw [since.registered_eq, List.mem_append, List.mem_filter, List.mem_filter]
  simp [unmade]

/-- A key that has been made is listed where it was, or at the end. -/
theorem filter_append_eq (since : c.Since made failed running d)
    (unmade : key ∉ made.map Prod.fst) :
    (if key ∈ d.registered then d.registered else d.registered ++ [key]) =
      c.registered.filter (· ∉ failed) ++
        (made.map Prod.fst ++ [key]).filter fun k => k ∉ c.registered ∨ k ∈ failed := by
  rw [List.filter_append, ← List.append_assoc, ← since.registered_eq]
  have listed := since.mem_registered_iff unmade
  split
  · rename_i member
    rcases listed.mp member with ⟨before, unfailed⟩
    simp [before, unfailed]
  · rename_i new
    have appended : key ∉ c.registered ∨ key ∈ failed := by
      by_cases before : key ∈ c.registered
      · exact .inr (Decidable.not_not.mp fun unfailed => new (listed.mpr ⟨before, unfailed⟩))
      · exact .inl before
    rw [List.filter_cons_of_pos (by simpa using appended), List.filter_nil]

/-- A key whose creation has failed is taken off the list. -/
theorem filter_ne_eq (since : c.Since made failed running d)
    (unmade : key ∉ made.map Prod.fst) :
    d.registered.filter (· != key) = c.registered.filter (· ∉ failed ++ [key]) ++
      (made.map Prod.fst).filter fun k => k ∉ c.registered ∨ k ∈ failed ++ [key] := by
  rw [since.registered_eq, List.filter_append, List.filter_filter, List.filter_filter]
  congr 1
  · apply List.filter_congr
    intro k _
    rw [Bool.eq_iff_iff]
    simp [and_comm]
  · apply List.filter_congr
    intro k member
    have differ : k ≠ key := ne_of_mem_of_not_mem member unmade
    simp [differ]

/-- When a factory has made an instance, its request is answered with it, and it is finalized. -/
theorem succeed {object : Instance} (since : c.Since made failed (key :: running) d)
    (closing : d.Closing key (.returned (some object)) result d') :
    result = .ok object ∧ c.Since (made ++ [(key, object)]) failed running d' := by
  rcases since.tracker.finish with ⟨tracker, finished, left⟩
  rcases since.unmade with ⟨unmade, unfinalized, fresh⟩
  have absent : d.get key = none := since.absent key List.mem_cons_self
  have once : key ∉ running := (List.nodup_cons.mp since.tracker.distinct).1
  rcases closing.of_returned absent finished with ⟨answered, suppressed, rfl⟩
  have get (k : Name) :
      (finalize { d with suppressed, tracker } key object).value.2.get k =
        if k = key then some object else d.get k := by
    have absent' : Cache.get { d with suppressed, tracker } key = none := absent
    rw [get_finalize, absent', Option.getD_none]
    rfl
  constructor
  · exact answered
  constructor
  case inDestruction =>
    rw [inDestruction_finalize]
    exact since.inDestruction
  case early =>
    rw [early_finalize, since.early]
    rfl
  case pending =>
    rw [pending_finalize, since.pending]
    rfl
  case tracker =>
    rw [tracker_finalize]
    exact left
  case absent =>
    intro k member
    rw [get, if_neg (ne_of_mem_of_not_mem member once)]
    exact since.absent k (List.mem_cons_of_mem _ member)
  case get_eq_some_iff =>
    intro k object'
    rw [get, List.mem_append, List.mem_singleton, Prod.mk.injEq]
    split
    · rename_i same
      subst same
      have before : c.get k = none := not_mem_finalized_iff.mp unfinalized
      have new : (k, object') ∉ made := fun member => unmade (List.mem_map_of_mem member)
      simp [before, new, eq_comm]
    · rename_i differ
      simp only [differ, false_and, or_false]
      exact since.get_eq_some_iff k object'
  case distinct =>
    rw [List.map_append]
    exact (Relisted.appended key unmade).nodup since.distinct
  case tried =>
    intro k
    rw [List.map_append, List.mem_append, List.map_singleton, List.mem_singleton]
    rintro ((before | rfl) | before)
    · exact since.tried k (.inl before)
    · exact ⟨unfinalized, fresh⟩
    · exact since.tried k (.inr before)
  case registered_eq =>
    have absent' : Cache.get { d with suppressed, tracker } key = none := absent
    rw [registered_finalize, if_neg (by simp [absent']), registered_list, List.map_append]
    exact since.filter_append_eq unmade

/-- When a factory has made nothing, its request fails, and nothing is left of its key. -/
theorem fail (since : c.Since made failed (key :: running) d)
    (nothing : ∀ object, outcome ≠ .returned (some object))
    (closing : d.Closing key outcome result d') :
    (∃ fault, result = .error fault) ∧ c.Since made (failed ++ [key]) running d' := by
  rcases since.tracker.finish with ⟨tracker, finished, left⟩
  rcases since.unmade with ⟨unmade, unfinalized, fresh⟩
  have absent : d.get key = none := since.absent key List.mem_cons_self
  rcases closing.of_nothing nothing absent finished with ⟨refused, suppressed, rfl⟩
  constructor
  · exact refused
  constructor
  case inDestruction => exact since.inDestruction
  case early =>
    rw [early_unlist, early_dropPartial, since.early]
    rfl
  case pending =>
    rw [pending_unlist, pending_dropPartial, since.pending]
    rfl
  case tracker => exact left
  case absent => exact fun k member => since.absent k (List.mem_cons_of_mem _ member)
  case get_eq_some_iff => exact since.get_eq_some_iff
  case distinct => exact since.distinct
  case tried =>
    intro k
    rw [List.mem_append, List.mem_singleton]
    rintro (before | before | rfl)
    · exact since.tried k (.inl before)
    · exact since.tried k (.inr before)
    · exact ⟨unfinalized, fresh⟩
  case registered_eq => exact since.filter_ne_eq unmade

end Since

/-- What requests have left behind when none of them is going on any more: the instances that have
been made, and the names of their keys. -/
structure Grown (c : Cache κ) (made : List (Name × Instance)) (failed : List Name) (c' : Cache κ) :
    Prop where
  get_eq_some_iff (key : Name) (object : Instance) :
    c'.get key = some object ↔ c.get key = some object ∨ (key, object) ∈ made
  distinct : (made.map Prod.fst).Nodup
  fresh : ∀ key ∈ made.map Prod.fst, key ∉ c.finalized
  registered_eq : c'.registered = c.registered.filter (· ∉ failed) ++
    (made.map Prod.fst).filter fun key => key ∉ c.registered ∨ key ∈ failed
  /-- Of a key for which every creation has failed there is no trace. -/
  traceless : ∀ key ∈ failed, key ∉ made.map Prod.fst →
    key ∉ c'.finalized ∧ key ∉ c'.registered
  /-- Everything else is as it was. -/
  eq_else : c' = { c with finalized := c'.finalized, registered := c'.registered }

theorem Since.grown {c c' : Cache κ} {made : List (Name × Instance)} {failed : List Name}
    (since : c.Since made failed [] c') (quiet : c.Quiet) (same : c'.suppressed = c.suppressed) :
    c.Grown made failed c' where
  get_eq_some_iff := since.get_eq_some_iff
  distinct := since.distinct
  fresh key member := (since.tried key (.inl member)).1
  registered_eq := since.registered_eq
  traceless key tried unmade := by
    rw [since.mem_finalized_iff, since.mem_registered_iff unmade]
    constructor
    · rintro (before | made)
      · exact (since.tried key (.inr tried)).1 before
      · exact unmade made
    · rintro ⟨_, untried⟩
      exact untried tried
  eq_else := by
    have tracker : c'.tracker = c.tracker := since.tracker.eq_of_idle quiet.excluded
    have early : c'.early = c.early := since.early.trans quiet.early.symm
    have pending : c'.pending = c.pending := since.pending.trans quiet.pending.symm
    have inDestruction : c'.inDestruction = c.inDestruction :=
      since.inDestruction.trans quiet.inDestruction.symm
    rw [← tracker, ← early, ← pending, ← inDestruction, ← same]

/-- If nothing was listed but finalized keys and keys in creation, then the list is the old one, and
after it the keys that have been made. -/
theorem Since.registered_append {c c' : Cache κ} {made : List (Name × Instance)}
    {failed running : List Name} (since : c.Since made failed running c') (quiet : c.Quiet)
    (backed : c.Backed) : c'.registered = c.registered ++ made.map Prod.fst := by
  have unlisted : ∀ key, key ∈ made.map Prod.fst ∨ key ∈ failed → key ∉ c.registered := by
    intro key tried listed
    rcases since.tried key tried with ⟨unfinalized, fresh⟩
    rcases backed key listed with finalized | pending | inCreation
    · exact unfinalized finalized
    · rw [quiet.pending] at pending
      exact NameMap.not_mem_empty key pending
    · exact fresh inCreation
  have kept : c.registered.filter (· ∉ failed) = c.registered := by
    rw [List.filter_eq_self]
    intro key listed
    simpa using fun failed => unlisted key (.inr failed) listed
  have appended : ((made.map Prod.fst).filter fun key => key ∉ c.registered ∨ key ∈ failed) =
      made.map Prod.fst := by
    rw [List.filter_eq_self]
    intro key member
    simpa using .inl (unlisted key (.inl member))
  rw [since.registered_eq, kept, appended]

end Cache

end Lifecycle
