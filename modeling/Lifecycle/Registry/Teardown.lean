import Lifecycle.Registry.Call

/-!
# Teardown

Destroying a key forgets the key, destroys its dependents, disposes of the key itself, destroys
what it contained and removes the edges that are left.  Each of these steps can meet further keys,
and in the middle the disposal runs, which is user code.  A teardown is therefore a list of tasks
that are still to be done, and it stops whenever the next task is to run a disposal.

Every key that a task adds is paid for by an edge that the task takes out of the graph; this is
why the list comes to an end on any graph, circles included.
-/

namespace Lifecycle

open Log

/-- A step of a teardown. -/
inductive Task (κ : Type) where
  /-- Destroy a key and what goes with it. -/
  | destroy (key : Name)
  /-- Run the disposal of a key. -/
  | dispose (key : Name) (callback : κ)
  /-- Destroy what a key contained. -/
  | destroyContained (key : Name)
  /-- Remove the edges of a key that are left. -/
  | scrub (key : Name)
  /-- Forget all instances and all edges. -/
  | forgetAll
  /-- Remember that the registry has been destroyed. -/
  | markDestroyed
  deriving DecidableEq, Repr

/-- A call that waits for a callback to come back. -/
inductive Frame (κ : Type) where
  /-- The factory of a key is running. -/
  | creating (key : Name) (outermost : Bool)
  /-- The pending factory of a key is running. -/
  | exposing (key : Name)
  /-- The disposal of a key is running; the rest of the teardown comes after it. -/
  | disposing (key : Name) (rest : List (Task κ))
  deriving DecidableEq, Repr

/-- How far a call has come. -/
inductive Progress (κ : Type) where
  | answered (result : Except Fault Answer)
  | entered (callback : κ) (frame : Frame κ)

namespace Task

variable {κ : Type}

/-- What a task costs; destroying a key leads to three further tasks. -/
def weight : Task κ → Nat
  | destroy _ => 4
  | dispose _ _ => 1
  | destroyContained _ => 1
  | scrub _ => 1
  | forgetAll => 1
  | markDestroyed => 1

/-- What a list of tasks costs. -/
def totalWeight : List (Task κ) → Nat
  | [] => 0
  | task :: tasks => task.weight + totalWeight tasks

@[simp]
theorem totalWeight_nil : totalWeight ([] : List (Task κ)) = 0 :=
  rfl

@[simp]
theorem totalWeight_cons (task : Task κ) (tasks : List (Task κ)) :
    totalWeight (task :: tasks) = task.weight + totalWeight tasks :=
  rfl

@[simp]
theorem totalWeight_append (first second : List (Task κ)) :
    totalWeight (first ++ second) = totalWeight first + totalWeight second := by
  induction first with
  | nil => simp
  | cons task first ih => simp [ih, Nat.add_assoc]

theorem totalWeight_map_destroy (keys : List Name) :
    totalWeight (keys.map (destroy (κ := κ))) = 4 * keys.length := by
  induction keys with
  | nil => rfl
  | cons key keys ih => simp [ih, weight]; omega

end Task

namespace EdgeMap

theorem length_keys (targets : NameSet) : (NameMap.keys targets).length = NameMap.size targets := by
  simp [NameMap.keys, NameMap.size]

theorem length_toList (targets : NameSet) : targets.toList.length = NameMap.size targets :=
  length_keys targets

private theorem length_filter_add_lookup_le (key : Name) (entries : List (Name × NameSet)) :
    ((entries.filter (·.1 != key)).flatMap fun entry => NameMap.keys entry.2).length
        + NameMap.size ((NameMap.lookup key entries).getD ∅)
      ≤ (entries.flatMap fun entry => NameMap.keys entry.2).length := by
  induction entries with
  | nil => simp [NameMap.lookup, NameMap.size, EmptyCollection.emptyCollection, NameMap.empty]
  | cons head rest ih =>
      rw [List.flatMap_cons, List.length_append, length_keys]
      by_cases here : head.1 = key
      · rw [List.filter_cons_of_neg (by simpa using here), NameMap.lookup, if_pos here.symm,
          Option.getD_some]
        omega
      · rw [List.filter_cons_of_pos (by simpa using here), NameMap.lookup,
          if_neg (Ne.symm here), List.flatMap_cons, List.length_append, length_keys]
        omega

/-- Taking out the edges from a name takes them off the count. -/
theorem count_erase_add_size_le (edges : EdgeMap) (key : Name) :
    count (NameMap.erase edges key) + NameMap.size (edges.of key) ≤ edges.count :=
  length_filter_add_lookup_le key edges.entries

private theorem length_filter_map_le (key : Name) (entries : List (Name × NameSet)) :
    (((entries.map fun entry => (entry.1, NameMap.erase entry.2 key)).filter
        fun entry => !NameMap.isEmpty entry.2).flatMap fun entry => NameMap.keys entry.2).length
      ≤ (entries.flatMap fun entry => NameMap.keys entry.2).length := by
  induction entries with
  | nil => simp
  | cons head rest ih =>
      have smaller : NameMap.size (NameMap.erase head.2 key) ≤ NameMap.size head.2 :=
        List.length_filter_le _ _
      simp only [List.map_cons, List.filter_cons, List.flatMap_cons, List.length_append,
        length_keys]
      split
      · simp only [List.flatMap_cons, List.length_append, length_keys]
        omega
      · omega

theorem count_withoutTarget_le (edges : EdgeMap) (key : Name) :
    (edges.withoutTarget key).count ≤ edges.count :=
  length_filter_map_le key edges.entries

end EdgeMap

namespace Registry

variable {κ : Type}

/-- The tag of the records of a teardown. -/
def teardownTag : Name := "Destroyer"

/-- The edges that a teardown may still follow. -/
def edgeCount (r : Registry κ) : Nat := r.graph.dependents.count + r.graph.contained.count

/-- Forget a key, with its disposal and its dependents.  What is left to do: destroy the
dependents, run the disposal, destroy what the key contained, remove the rest of its edges. -/
def unlink (r : Registry κ) (key : Name) : List (Task κ) × Registry κ :=
  let (dependents, graph) := r.graph.takeDependents key
  let callback := r.disposals.callback? key
  (dependents.toList.map .destroy
      ++ (callback.map (.dispose key)).toList ++ [.destroyContained key, .scrub key],
    { r with
      cache := r.cache.evict key
      disposals := r.disposals.without key
      graph })

/-- Take what a key contained out of the graph, to be destroyed. -/
def releaseContained (r : Registry κ) (key : Name) : List (Task κ) × Registry κ :=
  let (contained, graph) := r.graph.takeContained key
  (contained.toList.map .destroy, { r with graph })

theorem unlink_cost (r : Registry κ) (key : Name) :
    5 * (r.unlink key).2.edgeCount + Task.totalWeight (r.unlink key).1 < 5 * r.edgeCount + 4 := by
  have paid := EdgeMap.count_erase_add_size_le r.graph.dependents key
  have disposal : Task.totalWeight
      ((r.disposals.callback? key).map (Task.dispose key)).toList ≤ 1 := by
    cases r.disposals.callback? key <;> simp [Task.weight]
  simp only [unlink, Graph.takeDependents, edgeCount, Task.totalWeight_append,
    Task.totalWeight_map_destroy, EdgeMap.length_toList, Task.totalWeight_cons,
    Task.totalWeight_nil, Task.weight]
  omega

theorem releaseContained_cost (r : Registry κ) (key : Name) :
    5 * (r.releaseContained key).2.edgeCount + Task.totalWeight (r.releaseContained key).1
      ≤ 5 * r.edgeCount := by
  have paid := EdgeMap.count_erase_add_size_le r.graph.contained key
  simp only [releaseContained, Graph.takeContained, edgeCount, Task.totalWeight_map_destroy,
    EdgeMap.length_toList]
  omega

/-- Do the tasks of a teardown, up to the first disposal that is to be run. -/
def teardown (r : Registry κ) : List (Task κ) → Logged (Registry κ × Progress κ)
  | [] => pure (r, .answered (.ok .done))
  | .dispose key callback :: rest => pure (r, .entered callback (.disposing key rest))
  | .destroy key :: rest => do
      let dependents := r.graph.dependents.of key
      if !dependents.isEmpty then
        note teardownTag .trace <|
          "Destroying " ++ toString dependents.size ++ " dependent instance(s) of '" ++ key
            ++ "' first"
      teardown (r.unlink key).2 ((r.unlink key).1 ++ rest)
  | .destroyContained key :: rest =>
      teardown (r.releaseContained key).2 ((r.releaseContained key).1 ++ rest)
  | .scrub key :: rest => teardown { r with graph := r.graph.scrub key } rest
  | .forgetAll :: rest => teardown { r with graph := {}, cache := r.cache.clear } rest
  | .markDestroyed :: rest => teardown { r with destroyed := true } rest
termination_by tasks => 5 * r.edgeCount + Task.totalWeight tasks
decreasing_by
  · have := r.unlink_cost key
    simp only [Task.totalWeight_append, Task.totalWeight_cons, Task.weight]
    omega
  · have := r.releaseContained_cost key
    simp only [Task.totalWeight_append, Task.totalWeight_cons, Task.weight]
    omega
  · have := r.graph.dependents.count_withoutTarget_le key
    simp only [edgeCount, Graph.scrub, Task.totalWeight_cons, Task.weight]
    omega
  · have none : edgeCount { r with graph := {}, cache := r.cache.clear } = 0 := rfl
    rw [none]
    simp only [Task.totalWeight_cons, Task.weight]
    omega
  · simp only [edgeCount, Task.totalWeight_cons, Task.weight]
    omega

/-- Say how a disposal went.  A disposal that throws does not stop the teardown. -/
def noteDisposal (key : Name) : Outcome → Logged Unit
  | .returned _ => note teardownTag .trace <| "Disposed instance '" ++ key ++ "'"
  | .threw fault =>
      note teardownTag .warn <| "Destruction of instance with name '" ++ key ++ "' threw an " ++
        match fault.cause.message? with
        | some message => "exception: " ++ message
        | none => "unknown exception"

/-- Begin to destroy everything: no creation is allowed from now on, and the disposals are run in
the reverse of the order in which their keys were registered. -/
def beginDestroyAll (r : Registry κ) : Logged (List (Task κ) × Registry κ) := do
  note teardownTag .debug "Destroying instances in registry"
  pure (r.disposals.keys.reverse.map .destroy ++ [.forgetAll],
    { r with cache := { r.cache with inDestruction := true } })

/-- Begin to destroy the registry as a whole. -/
def beginRetire (r : Registry κ) : Logged (List (Task κ) × Registry κ) := do
  note tag .info <|
    "Destroying registry '" ++ r.name ++ "' (" ++ toString r.cache.registered.length
      ++ " instance(s), " ++ toString r.disposals.length ++ " disposal(s))"
  let (tasks, r) ← r.beginDestroyAll
  pure (tasks ++ [.markDestroyed], r)

end Registry

end Lifecycle
