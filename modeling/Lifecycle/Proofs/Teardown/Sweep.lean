import Lifecycle.Proofs.Session.Effect

/-!
# Teardowns carried through

A teardown stops at every disposal, and goes on with the tasks that were left when the disposal has
come back.  When no disposal calls the registry, nothing happens to the registry meanwhile, and the
whole teardown is one walk through its tasks.  A `Sweep` is such a walk; it remembers in which order
it has begun to destroy keys and in which order it has run disposals.

`Registry.perform` says once what each task does.  What every task keeps holds at the end of a sweep
(`Sweep.invariant`), and statements about teardowns are proved in this way.
-/

namespace Lifecycle

open Log

variable {κ : Type}

/-! ## Tasks -/

namespace Task

/-- The key that a task begins to destroy. -/
def opened? : Task κ → Option Name
  | destroy key => some key
  | _ => none

/-- The disposal that a task runs. -/
def disposal? : Task κ → Option (Name × κ)
  | dispose key callback => some (key, callback)
  | _ => none

/-- A task that is due is still due when another one has been done. -/
theorem still_due {task other : Task κ} {rest : List (Task κ)} (due : other ∈ task :: rest)
    (differ : other ≠ task) (new : List (Task κ)) : other ∈ new ++ rest :=
  List.mem_append_right _ (List.mem_of_ne_of_mem differ due)

/-- The disposals that are still to be run. -/
def disposals (tasks : List (Task κ)) : List (Name × κ) := tasks.filterMap disposal?

@[simp]
theorem disposals_nil : disposals ([] : List (Task κ)) = [] :=
  rfl

theorem disposals_cons (task : Task κ) (tasks : List (Task κ)) :
    disposals (task :: tasks) = task.disposal?.toList ++ disposals tasks := by
  cases task <;> rfl

@[simp]
theorem disposals_append (first second : List (Task κ)) :
    disposals (first ++ second) = disposals first ++ disposals second :=
  List.filterMap_append

@[simp]
theorem disposals_map_destroy (keys : List Name) :
    disposals (keys.map (destroy (κ := κ))) = [] := by
  simp [disposals, List.filterMap_map, Function.comp_def, disposal?]

theorem mem_disposals_iff {tasks : List (Task κ)} {key : Name} {callback : κ} :
    (key, callback) ∈ disposals tasks ↔ .dispose key callback ∈ tasks := by
  simp only [disposals, List.mem_filterMap]
  constructor
  · rintro ⟨task, member, disposal⟩
    cases task with
    | dispose key' callback' =>
        rcases Prod.mk.inj (Option.some.inj disposal) with ⟨rfl, rfl⟩
        exact member
    | destroy | destroyContained | scrub | forgetAll | markDestroyed => contradiction
  · intro member
    exact ⟨_, member, rfl⟩

end Task

namespace Registry

section tasks

variable {r : Registry κ} {key k : Name} {callback : κ}

@[simp]
theorem destroy_mem_unlink : .destroy k ∈ (r.unlink key).1 ↔ k ∈ r.graph.dependents.of key := by
  simp [unlink, Graph.takeDependents, NameSet.mem_toList]

@[simp]
theorem dispose_mem_unlink :
    .dispose k callback ∈ (r.unlink key).1 ↔
      k = key ∧ r.disposals.callback? key = some callback := by
  cases found : r.disposals.callback? key <;>
    simp [unlink, Graph.takeDependents, found, eq_comm]

@[simp]
theorem destroyContained_mem_unlink : .destroyContained k ∈ (r.unlink key).1 ↔ k = key := by
  simp [unlink, Graph.takeDependents]

@[simp]
theorem scrub_mem_unlink : .scrub k ∈ (r.unlink key).1 ↔ k = key := by
  simp [unlink, Graph.takeDependents]

theorem mem_releaseContained {task : Task κ} :
    task ∈ (r.releaseContained key).1 ↔
      ∃ inner ∈ r.graph.contained.of key, task = .destroy inner := by
  simp [releaseContained, Graph.takeContained, NameSet.mem_toList, eq_comm]

end tasks

/-- What a task leads to, and what it makes of a registry.  A disposal makes nothing of it. -/
def perform (r : Registry κ) : Task κ → List (Task κ) × Registry κ
  | .destroy key => r.unlink key
  | .dispose _ _ => ([], r)
  | .destroyContained key => r.releaseContained key
  | .scrub key => ([], { r with graph := r.graph.scrub key })
  | .forgetAll => ([], { r with graph := {}, cache := r.cache.clear })
  | .markDestroyed => ([], { r with destroyed := true })

theorem perform_cost (r : Registry κ) (task : Task κ) :
    5 * (r.perform task).2.edgeCount + Task.totalWeight (r.perform task).1 <
      5 * r.edgeCount + task.weight := by
  cases task with
  | destroy key => exact r.unlink_cost key
  | destroyContained key => exact Nat.lt_succ_of_le (r.releaseContained_cost key)
  | scrub key =>
      have fewer := r.graph.dependents.count_withoutTarget_le key
      simp only [perform, edgeCount, Graph.scrub, Task.totalWeight_nil, Task.weight]
      omega
  | forgetAll =>
      have none : edgeCount { r with graph := {}, cache := r.cache.clear } = 0 := rfl
      simp only [perform, none, Task.totalWeight_nil, Task.weight]
      omega
  | dispose | markDestroyed => exact Nat.lt_succ_self _

/-- The tasks of a teardown are performed one by one, up to a disposal. -/
theorem value_teardown_cons (r : Registry κ) {task : Task κ} (undisposing : task.disposal? = none)
    (rest : List (Task κ)) :
    (r.teardown (task :: rest)).value =
      ((r.perform task).2.teardown ((r.perform task).1 ++ rest)).value := by
  cases task with
  | destroy key => exact r.value_teardown_destroy key rest
  | dispose => contradiction
  | destroyContained | scrub | forgetAll | markDestroyed =>
      rw [teardown]
      rfl

/-- No task looks at the ledger of faults. -/
theorem perform_withLedger (r : Registry κ) (ledger : Ledger) (task : Task κ) :
    perform { r with ledger } task =
      ((r.perform task).1, { (r.perform task).2 with ledger }) := by
  cases task <;> rfl

end Registry

/-! ## Sweeps -/

/-- How far a teardown has come: what it has made of the registry, the keys that it has begun to
destroy and the disposals that it has run, oldest first. -/
structure Sweep (κ : Type) where
  registry : Registry κ
  opened : List Name := []
  ran : List (Name × κ) := []

namespace Sweep

/-- What a task leads to, and how far the teardown has come with it. -/
def perform (w : Sweep κ) (task : Task κ) : List (Task κ) × Sweep κ :=
  ((w.registry.perform task).1,
    { registry := (w.registry.perform task).2
      opened := w.opened ++ task.opened?.toList
      ran := w.ran ++ task.disposal?.toList })

section perform

variable (w : Sweep κ) (key : Name)

theorem perform_destroy :
    w.perform (.destroy key) =
      ((w.registry.unlink key).1,
        { w with registry := (w.registry.unlink key).2, opened := w.opened ++ [key] }) := by
  simp [perform, Registry.perform, Task.opened?, Task.disposal?]

theorem perform_dispose (callback : κ) :
    w.perform (.dispose key callback) = ([], { w with ran := w.ran ++ [(key, callback)] }) := by
  simp [perform, Registry.perform, Task.opened?, Task.disposal?]

theorem perform_destroyContained :
    w.perform (.destroyContained key) =
      ((w.registry.releaseContained key).1,
        { w with registry := (w.registry.releaseContained key).2 }) := by
  simp [perform, Registry.perform, Task.opened?, Task.disposal?]

theorem perform_scrub :
    w.perform (.scrub key) =
      ([], { w with registry := { w.registry with graph := w.registry.graph.scrub key } }) := by
  simp [perform, Registry.perform, Task.opened?, Task.disposal?]

end perform

/-- Do all tasks. -/
def run (w : Sweep κ) : List (Task κ) → Sweep κ
  | [] => w
  | task :: rest => run (w.perform task).2 ((w.perform task).1 ++ rest)
termination_by tasks => 5 * w.registry.edgeCount + Task.totalWeight tasks
decreasing_by
  have cost := w.registry.perform_cost task
  simp only [perform, Task.totalWeight_append, Task.totalWeight_cons]
  omega

@[simp]
theorem run_nil (w : Sweep κ) : w.run [] = w := by
  rw [run]

theorem run_cons (w : Sweep κ) (task : Task κ) (rest : List (Task κ)) :
    w.run (task :: rest) = (w.perform task).2.run ((w.perform task).1 ++ rest) := by
  rw [run]

theorem run_dispose (w : Sweep κ) (key : Name) (callback : κ) (rest : List (Task κ)) :
    w.run (.dispose key callback :: rest) =
      run { w with ran := w.ran ++ [(key, callback)] } rest := by
  rw [run_cons, perform_dispose, List.nil_append]

/-- The tasks that were waiting are done last. -/
theorem run_append (w : Sweep κ) (first second : List (Task κ)) :
    w.run (first ++ second) = (w.run first).run second := by
  induction w, first using run.induct with
  | case1 w => rw [run_nil, List.nil_append]
  | case2 w task rest ih =>
      rw [List.cons_append, run_cons, run_cons, ← List.append_assoc]
      exact ih

/-- What every task keeps, whatever is waiting behind it, holds when a part of the tasks has been
done and the others are still waiting. -/
theorem invariant {holds : Sweep κ → List (Task κ) → Prop}
    (step : ∀ w task rest, holds w (task :: rest) →
      holds (w.perform task).2 ((w.perform task).1 ++ rest))
    {w : Sweep κ} {tasks rest : List (Task κ)} (start : holds w (tasks ++ rest)) :
    holds (w.run tasks) rest := by
  induction w, tasks using run.induct with
  | case1 w =>
      rw [run_nil]
      exact start
  | case2 w task tasks ih =>
      rw [run_cons]
      apply ih
      rw [List.append_assoc]
      exact step w task (tasks ++ rest) start

/-- A sweep that comes after what has been opened and run before. -/
def after (w : Sweep κ) (opened : List Name) (ran : List (Name × κ)) : Sweep κ :=
  { w with opened := opened ++ w.opened, ran := ran ++ w.ran }

/-- What a sweep does does not depend on what has been opened and run before. -/
theorem run_after (w : Sweep κ) (tasks : List (Task κ)) (opened : List Name)
    (ran : List (Name × κ)) : (w.after opened ran).run tasks = (w.run tasks).after opened ran := by
  induction w, tasks using run.induct with
  | case1 w => rw [run_nil, run_nil]
  | case2 w task rest ih =>
      rw [run_cons, run_cons, ← ih]
      simp [perform, after, List.append_assoc]

/-- What has been run stays run. -/
theorem ran_prefix_run (w : Sweep κ) (tasks : List (Task κ)) : w.ran <+: (w.run tasks).ran := by
  have start : w = (Sweep.mk w.registry [] []).after w.opened w.ran := by simp [after]
  rw [start, run_after]
  simp [after]

/-- A sweep with another ledger of faults. -/
def withLedger (w : Sweep κ) (ledger : Ledger) : Sweep κ :=
  { w with registry := { w.registry with ledger } }

/-- No sweep looks at the ledger of faults. -/
theorem run_withLedger (w : Sweep κ) (tasks : List (Task κ)) (ledger : Ledger) :
    (w.withLedger ledger).run tasks = (w.run tasks).withLedger ledger := by
  induction w, tasks using run.induct with
  | case1 w => rw [run_nil, run_nil]
  | case2 w task rest ih =>
      rw [run_cons, run_cons, ← ih]
      simp only [perform, withLedger, Registry.perform_withLedger]

/-- A teardown follows the sweep of its tasks up to the next disposal, or to the end. -/
theorem follows_teardown (w : Sweep κ) (tasks : List (Task κ)) :
    ∃ (w' : Sweep κ) (rest : List (Task κ)), w'.ran = w.ran ∧ w'.run rest = w.run tasks ∧
      (rest = [] ∧ (w.registry.teardown tasks).value = (w'.registry, .answered (.ok .done)) ∨
        ∃ key callback later, rest = .dispose key callback :: later ∧
          (w.registry.teardown tasks).value =
            (w'.registry, .entered callback (.disposing key later))) := by
  induction w, tasks using run.induct with
  | case1 w =>
      refine ⟨w, [], rfl, rfl, .inl ⟨rfl, ?_⟩⟩
      rw [Registry.teardown]
      rfl
  | case2 w task rest ih =>
      cases disposal : task.disposal? with
      | some entry =>
          cases task with
          | dispose key callback =>
              refine ⟨w, _, rfl, rfl, .inr ⟨key, callback, rest, rfl, ?_⟩⟩
              rw [Registry.teardown]
              rfl
          | destroy | destroyContained | scrub | forgetAll | markDestroyed => contradiction
      | none =>
          rcases ih with ⟨w', rest', ranEq, runEq, halts⟩
          refine ⟨w', rest', ?_, ?_, ?_⟩
          · rw [ranEq, perform, disposal]
            exact List.append_nil w.ran
          · rw [runEq, run_cons]
          · rw [Registry.value_teardown_cons _ disposal]
            exact halts

end Sweep

end Lifecycle
