import Lifecycle.Proofs.Teardown.Registered
import Lifecycle.Proofs.Teardown.Sweep

/-!
# Every disposal once

A teardown takes the disposal of a key off the list when it begins to destroy the key, and runs it
later.  At every moment the disposals that have been run and those that are still to be run are
together those of the keys that have been opened, each of them once.
-/

namespace Lifecycle

variable {κ : Type}

theorem Disposals.without_filter (disposals : Disposals κ) (opened : List Name) (key : Name) :
    without (disposals.filter fun entry => entry.1 ∉ opened) key =
      disposals.filter fun entry => entry.1 ∉ opened ++ [key] := by
  simp only [without, List.filter_filter]
  apply List.filter_congr
  intro entry _
  by_cases same : entry.1 = key <;> simp [same]

theorem Registry.disposals_tasks_unlink (r : Registry κ) (key : Name) :
    Task.disposals (r.unlink key).1 =
      ((r.disposals.callback? key).map fun callback => (key, callback)).toList := by
  cases found : r.disposals.callback? key <;>
    simp [unlink, Graph.takeDependents, found, Task.disposals_cons, Task.disposal?]

theorem Registry.disposals_tasks_releaseContained (r : Registry κ) (key : Name) :
    Task.disposals (r.releaseContained key).1 = [] :=
  Task.disposals_map_destroy _

namespace Sweep

/-- How a sweep stands to the disposals that were registered at the beginning. -/
structure Accounts (disposals : Disposals κ) (w : Sweep κ) (tasks : List (Task κ)) : Prop where
  remaining : w.registry.disposals = disposals.filter fun entry => entry.1 ∉ w.opened
  distinct : (Disposals.keys (w.ran ++ Task.disposals tasks)).Nodup
  mem_iff {key : Name} {callback : κ} :
    (key, callback) ∈ w.ran ++ Task.disposals tasks ↔
      (key, callback) ∈ disposals ∧ key ∈ w.opened

namespace Accounts

variable {disposals : Disposals κ} {w : Sweep κ} {rest : List (Task κ)} {key : Name} {callback : κ}

theorem begin (r : Registry κ) (starts : List Name) :
    Accounts r.disposals { registry := r } (starts.map .destroy) where
  remaining := by simp
  distinct := by simp [Disposals.keys]
  mem_iff := by simp

/-- Only a key that has not been opened has a disposal left. -/
theorem mem_of_callback? (accounts : Accounts disposals w rest)
    (found : w.registry.disposals.callback? key = some callback) :
    (key, callback) ∈ disposals ∧ key ∉ w.opened := by
  have member := Disposals.mem_of_callback? found
  rw [accounts.remaining, List.mem_filter] at member
  exact ⟨member.1, by simpa using member.2⟩

/-- A task that opens no key moves at most a disposal from those that are still to be run to those
that have been run. -/
theorem of_charged {w' : Sweep κ} {tasks tasks' : List (Task κ)}
    (accounts : Accounts disposals w tasks) (opened : w'.opened = w.opened)
    (registered : w'.registry.disposals = w.registry.disposals)
    (charged : w'.ran ++ Task.disposals tasks' = w.ran ++ Task.disposals tasks) :
    Accounts disposals w' tasks' where
  remaining := by
    rw [registered, opened]
    exact accounts.remaining
  distinct := by
    rw [charged]
    exact accounts.distinct
  mem_iff := by
    rw [charged, opened]
    exact accounts.mem_iff

theorem destroy (distinct : disposals.keys.Nodup)
    (accounts : Accounts disposals w (.destroy key :: rest)) :
    Accounts disposals (w.perform (.destroy key)).2 ((w.perform (.destroy key)).1 ++ rest) := by
  rw [perform_destroy]
  have remaining : (w.registry.unlink key).2.disposals =
      disposals.filter fun entry => entry.1 ∉ w.opened ++ [key] := by
    rw [← Disposals.without_filter, ← accounts.remaining]
    rfl
  have charged : Task.disposals ((w.registry.unlink key).1 ++ rest) =
      ((w.registry.disposals.callback? key).map fun callback => (key, callback)).toList ++
        Task.disposals rest := by
    rw [Task.disposals_append, Registry.disposals_tasks_unlink]
  have before : w.ran ++ Task.disposals (.destroy key :: rest) = w.ran ++ Task.disposals rest := by
    rw [Task.disposals_cons]
    rfl
  have old : ∀ k callback, (k, callback) ∈ w.ran ++ Task.disposals rest ↔
      (k, callback) ∈ disposals ∧ k ∈ w.opened := by
    intro k callback
    rw [← before]
    exact accounts.mem_iff
  have oldDistinct := before ▸ accounts.distinct
  cases found : w.registry.disposals.callback? key with
  | none =>
      have nothing : ∀ callback, (key, callback) ∈ disposals → key ∈ w.opened := by
        intro callback registered
        by_contra closed
        apply Disposals.not_mem_keys_of_callback? found
        apply Disposals.mem_keys_of_mem
        rw [accounts.remaining, List.mem_filter]
        exact ⟨registered, by simpa using closed⟩
      rw [found] at charged
      constructor
      case remaining => exact remaining
      case distinct =>
        rw [charged]
        exact oldDistinct
      case mem_iff =>
        intro k callback
        rw [charged, Option.map_none, Option.toList_none, List.nil_append, old, List.mem_append,
          List.mem_singleton]
        constructor
        · rintro ⟨registered, opened⟩
          exact ⟨registered, .inl opened⟩
        · rintro ⟨registered, opened | rfl⟩
          · exact ⟨registered, opened⟩
          · exact ⟨registered, nothing callback registered⟩
  | some callback =>
      rcases accounts.mem_of_callback? found with ⟨registered, closed⟩
      rw [found] at charged
      have perm : (w.ran ++ ([(key, callback)] ++ Task.disposals rest)).Perm
          ((key, callback) :: (w.ran ++ Task.disposals rest)) := List.perm_middle
      constructor
      case remaining => exact remaining
      case distinct =>
        rw [charged]
        apply (perm.map Prod.fst).nodup_iff.mpr
        refine List.nodup_cons.mpr ⟨?_, oldDistinct⟩
        intro again
        rcases Disposals.mem_keys_iff.mp again with ⟨callback', member⟩
        exact closed ((old key callback').mp member).2
      case mem_iff =>
        intro k callback'
        rw [charged]
        apply perm.mem_iff.trans
        rw [List.mem_cons, old, List.mem_append, List.mem_singleton]
        constructor
        · rintro (same | ⟨registered, opened⟩)
          · rcases Prod.mk.inj same with ⟨rfl, rfl⟩
            exact ⟨registered, .inr rfl⟩
          · exact ⟨registered, .inl opened⟩
        · rintro ⟨registered', opened | rfl⟩
          · exact .inr ⟨registered', opened⟩
          · exact .inl (by rw [Disposals.eq_of_mem distinct registered registered'])

theorem step (distinct : disposals.keys.Nodup) (w : Sweep κ) (task : Task κ) (rest : List (Task κ))
    (accounts : Accounts disposals w (task :: rest)) :
    Accounts disposals (w.perform task).2 ((w.perform task).1 ++ rest) := by
  cases task with
  | destroy key => exact accounts.destroy distinct
  | dispose key callback =>
      apply accounts.of_charged
      · simp [perform_dispose]
      · simp [perform_dispose]
      · simp [perform_dispose, Task.disposals_cons, Task.disposal?]
  | destroyContained key =>
      apply accounts.of_charged
      · simp [perform_destroyContained]
      · simp only [perform_destroyContained]
        rfl
      · simp [perform_destroyContained, Registry.disposals_tasks_releaseContained,
          Task.disposals_cons, Task.disposal?]
  | scrub | forgetAll | markDestroyed =>
      apply accounts.of_charged
      · simp [perform, Task.opened?]
      · rfl
      · simp [perform, Registry.perform, Task.disposals_cons, Task.disposal?]

/-- When all is done, the disposals that have been run are those of the opened keys. -/
theorem mem_ran_iff (accounts : Accounts disposals w []) :
    (key, callback) ∈ w.ran ↔ (key, callback) ∈ disposals ∧ key ∈ w.opened := by
  have charged : (key, callback) ∈ w.ran ++ Task.disposals [] ↔ _ := accounts.mem_iff
  simpa using charged

theorem nodup_ran (accounts : Accounts disposals w rest) : (Disposals.keys w.ran).Nodup :=
  accounts.distinct.sublist ((List.sublist_append_left _ _).map Prod.fst)

end Accounts

end Sweep

end Lifecycle
