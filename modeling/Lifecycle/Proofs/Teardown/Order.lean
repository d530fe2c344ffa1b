import Lifecycle.Proofs.Teardown.Accounts
import Lifecycle.Proofs.Teardown.Coverage

/-!
# In which order disposals run

The disposal of a key waits while its dependents are destroyed.  A dependent of a key has been
opened by the time at which the disposal of the key runs, and so its own disposal has run, unless it
is waiting itself: then the key has been reached from a dependent of that dependent
(`Sweep.Keeps.before_or_fallsAheadOf`).  In the other direction, a teardown of one key runs the
disposals of all that falls ahead of the key before that of the key
(`Sweep.before_of_fallsAheadOf`).
-/

namespace Lifecycle

variable {κ : Type}

/-! ## Waiting disposals -/

namespace Task

/-- The key that a task is about. -/
def key? : Task κ → Option Name
  | destroy key | dispose key _ | destroyContained key | scrub key => some key
  | forgetAll | markDestroyed => none

/-- If a task comes before the disposal of a key, it is about a key that falls ahead of that key. -/
def Precedes (g : Graph) (task later : Task κ) : Prop :=
  ∀ name entry, task.key? = some name → later.disposal? = some entry → g.FallsAheadOf name entry.1

theorem precedes_of_disposal?_eq_none {g : Graph} (task : Task κ) {later : Task κ}
    (undisposing : later.disposal? = none) : task.Precedes g later := by
  intro name entry _ disposal
  rw [undisposing] at disposal
  contradiction

theorem pairwise_precedes_map_destroy (g : Graph) (keys : List Name) :
    (keys.map (destroy (κ := κ))).Pairwise (Precedes g) := by
  induction keys with
  | nil => exact .nil
  | cons key keys ih =>
      refine List.pairwise_cons.mpr ⟨?_, ih⟩
      intro later member
      rcases List.mem_map.mp member with ⟨_, _, rfl⟩
      exact precedes_of_disposal?_eq_none _ rfl

theorem Precedes.dragged {g : Graph} {task task' later : Task κ} {key name : Name}
    (precedes : task.Precedes g later) (about : task.key? = some key)
    (about' : task'.key? = some name) (drags : g.Drags key name) : task'.Precedes g later := by
  intro name' entry same disposal
  obtain rfl := Option.some.inj (about'.symm.trans same)
  exact (precedes key entry about disposal).dragged drags

/-- All dependents of a key are known, or begun to be destroyed earlier in the list, when the
disposal of the key is run. -/
def Prepared (g : Graph) (known : List Name) : List (Task κ) → Prop
  | [] => True
  | .destroy key :: rest => Prepared g (key :: known) rest
  | .dispose key _ :: rest => (∀ name ∈ g.dependents.of key, name ∈ known) ∧ Prepared g known rest
  | .destroyContained _ :: rest | .scrub _ :: rest => Prepared g known rest
  | .forgetAll :: rest | .markDestroyed :: rest => Prepared g known rest

theorem Prepared.mono {g : Graph} {known known' : List Name} {tasks : List (Task κ)}
    (prepared : Prepared g known tasks) (more : ∀ key ∈ known, key ∈ known') :
    Prepared g known' tasks := by
  induction tasks generalizing known known' with
  | nil => trivial
  | cons task rest ih =>
      cases task with
      | destroy key =>
          apply ih prepared
          intro name member
          rcases List.mem_cons.mp member with rfl | member
          · exact List.mem_cons_self
          · exact List.mem_cons_of_mem _ (more name member)
      | dispose key callback =>
          exact ⟨fun name depends => more name (prepared.1 name depends), ih prepared.2 more⟩
      | destroyContained | scrub | forgetAll | markDestroyed => exact ih prepared more

theorem prepared_map_destroy_append {g : Graph} {known : List Name} (keys : List Name)
    {rest : List (Task κ)} (prepared : Prepared g (keys ++ known) rest) :
    Prepared g known (keys.map .destroy ++ rest) := by
  induction keys generalizing known with
  | nil => exact prepared
  | cons key keys ih =>
      apply ih
      apply prepared.mono
      intro name member
      simp only [List.cons_append, List.mem_cons, List.mem_append] at member ⊢
      tauto

end Task

/-- The order of the tasks of a key: nothing about another key stands behind its disposal. -/
theorem Registry.pairwise_precedes_unlink {g : Graph} {r : Registry κ} {key : Name}
    (depend : ∀ name ∈ r.graph.dependents.of key, name ∈ g.dependents.of key) :
    (r.unlink key).1.Pairwise (Task.Precedes g) := by
  have dependentsFirst : ∀ task ∈ (r.graph.dependents.of key).toList.map (Task.destroy (κ := κ)),
      ∀ later ∈ ((r.disposals.callback? key).map (Task.dispose key)).toList,
        task.Precedes g later := by
    intro task member later member' name entry about disposal
    rcases List.mem_map.mp member with ⟨dependent, depends, rfl⟩
    rcases Option.map_eq_some_iff.mp (Option.mem_toList.mp member') with ⟨callback, _, rfl⟩
    obtain rfl := Option.some.inj about
    obtain rfl := Option.some.inj disposal
    exact .of_dependent (depend _ (NameSet.mem_toList.mp depends))
  change List.Pairwise _ (_ ++ _ ++ _)
  rw [List.append_assoc, List.pairwise_append]
  refine ⟨Task.pairwise_precedes_map_destroy g _, ?_, ?_⟩
  · apply List.pairwise_append.mpr
    refine ⟨?_, ?_, ?_⟩
    · cases r.disposals.callback? key <;> simp
    · exact List.pairwise_pair.mpr (Task.precedes_of_disposal?_eq_none _ rfl)
    · intro task _ later member
      apply Task.precedes_of_disposal?_eq_none
      rcases List.mem_pair.mp member with rfl | rfl <;> rfl
  · intro task member later member'
    rcases List.mem_append.mp member' with disposal | last
    · exact dependentsFirst task member later disposal
    · apply Task.precedes_of_disposal?_eq_none
      rcases List.mem_pair.mp last with rfl | rfl <;> rfl

namespace Sweep

/-- The order of what has been run and of what is waiting. -/
structure Ordered (r : Registry κ) (w : Sweep κ) (tasks : List (Task κ)) : Prop where
  precedes : tasks.Pairwise (Task.Precedes r.graph)
  prepared : Task.Prepared r.graph w.opened tasks
  /-- A dependent of a key whose disposal has run has had its disposal run as well, or it still
  waits because the key fell ahead of it. -/
  dependents_ran {key name : Name} (ran : key ∈ Disposals.keys w.ran)
    (depends : name ∈ r.graph.dependents.of key) (registered : name ∈ r.disposals.keys) :
    name ∈ Disposals.keys w.ran ∨ r.graph.FallsAheadOf key name
  inOrder : w.ran.Pairwise fun earlier later =>
    later.1 ∈ r.graph.dependents.of earlier.1 → r.graph.FallsAheadOf earlier.1 later.1

namespace Ordered

variable {r : Registry κ} {starts : List Name} {w : Sweep κ} {rest : List (Task κ)} {key : Name}

theorem begin (r : Registry κ) (starts : List Name) :
    Ordered r { registry := r } (starts.map .destroy) where
  precedes := Task.pairwise_precedes_map_destroy r.graph starts
  prepared := by
    rw [← List.append_nil (starts.map Task.destroy)]
    exact Task.prepared_map_destroy_append starts trivial
  dependents_ran ran := absurd ran List.not_mem_nil
  inOrder := .nil

theorem destroy (explores : Explores r.graph starts w (.destroy key :: rest))
    (accounts : Accounts r.disposals w (.destroy key :: rest))
    (ordered : Ordered r w (.destroy key :: rest)) :
    Ordered r (w.perform (.destroy key)).2 ((w.perform (.destroy key)).1 ++ rest) := by
  rw [perform_destroy]
  rcases List.pairwise_cons.mp ordered.precedes with ⟨keyPrecedes, restPrecedes⟩
  constructor
  case precedes =>
    apply List.pairwise_append.mpr
    refine ⟨?_, restPrecedes, ?_⟩
    · exact Registry.pairwise_precedes_unlink fun _ depends => explores.dependents_subset depends
    · intro task member later member'
      have precedes := keyPrecedes later member'
      cases task with
      | destroy name =>
          have depends := explores.dependents_subset (Registry.destroy_mem_unlink.mp member)
          exact precedes.dragged rfl rfl (.inl depends)
      | dispose name callback =>
          obtain rfl := (Registry.dispose_mem_unlink.mp member).1
          exact precedes
      | destroyContained name =>
          obtain rfl := Registry.destroyContained_mem_unlink.mp member
          exact precedes
      | scrub name =>
          obtain rfl := Registry.scrub_mem_unlink.mp member
          exact precedes
      | forgetAll | markDestroyed => exact fun _ _ about => absurd about (by simp [Task.key?])
  case prepared =>
    have restPrepared : Task.Prepared r.graph (key :: w.opened) rest := ordered.prepared
    change Task.Prepared _ _ (_ ++ _ ++ _ ++ _)
    rw [List.append_assoc, List.append_assoc]
    apply Task.prepared_map_destroy_append
    have more : ∀ name ∈ key :: w.opened,
        name ∈ (w.registry.graph.dependents.of key).toList ++ (w.opened ++ [key]) := by
      intro name member
      simp only [List.mem_cons, List.mem_append, List.not_mem_nil, or_false] at member ⊢
      tauto
    cases found : w.registry.disposals.callback? key with
    | none => exact restPrepared.mono more
    | some callback =>
        refine ⟨?_, restPrepared.mono more⟩
        intro name depends
        have closed := (accounts.mem_of_callback? found).2
        rcases explores.follows_dependent depends with opened | ⟨opened, _⟩ | ⟨_, kept⟩
        · exact more name (List.mem_cons_of_mem _ opened)
        · exact absurd opened closed
        · exact List.mem_append_left _ (NameSet.mem_toList.mpr kept)
  case dependents_ran => exact ordered.dependents_ran
  case inOrder => exact ordered.inOrder

theorem dispose {callback : κ} (accounts : Accounts r.disposals w (.dispose key callback :: rest))
    (ordered : Ordered r w (.dispose key callback :: rest)) :
    Ordered r (w.perform (.dispose key callback)).2
      ((w.perform (.dispose key callback)).1 ++ rest) := by
  rw [perform_dispose]
  rcases List.pairwise_cons.mp ordered.precedes with ⟨keyPrecedes, restPrecedes⟩
  rcases ordered.prepared with ⟨known, restPrepared⟩
  have keys_ran : Disposals.keys (w.ran ++ [(key, callback)]) = Disposals.keys w.ran ++ [key] :=
    List.map_append
  constructor
  case precedes => exact restPrecedes
  case prepared => exact restPrepared
  case dependents_ran =>
    intro source name ran depends registered
    change _ ∈ Disposals.keys (w.ran ++ [(key, callback)]) at ran
    change _ ∈ Disposals.keys (w.ran ++ [(key, callback)]) ∨ _
    rw [keys_ran, List.mem_append] at ran ⊢
    rcases ran with ran | last
    · exact (ordered.dependents_ran ran depends registered).imp_left .inl
    · obtain rfl := List.mem_singleton.mp last
      -- The dependent has been opened, so its disposal has run or is waiting.
      rcases Disposals.mem_keys_iff.mp registered with ⟨callback', registered⟩
      have charged := accounts.mem_iff.mpr ⟨registered, known name depends⟩
      rw [List.mem_append, Task.mem_disposals_iff, List.mem_cons] at charged
      rcases charged with ran | same | waiting
      · exact .inl (.inl (Disposals.mem_keys_of_mem ran))
      · obtain rfl := (Task.dispose.inj same).1
        exact .inl (.inr List.mem_cons_self)
      · exact .inr (keyPrecedes _ waiting source _ rfl rfl)
  case inOrder =>
    apply List.pairwise_append.mpr
    refine ⟨ordered.inOrder, List.pairwise_singleton _ _, ?_⟩
    intro earlier member later last depends
    obtain rfl := List.mem_singleton.mp last
    have due : (key, callback) ∈ w.ran ++ Task.disposals (.dispose key callback :: rest) :=
      List.mem_append_right _ (Task.mem_disposals_iff.mpr List.mem_cons_self)
    have registered := Disposals.mem_keys_of_mem (accounts.mem_iff.mp due).1
    rcases ordered.dependents_ran (Disposals.mem_keys_of_mem member) depends registered with
      ran | falls
    · -- The disposal would be run a second time.
      have once := accounts.distinct
      rw [Task.disposals_cons] at once
      change (List.map _ _).Nodup at once
      rw [List.map_append, List.nodup_append] at once
      exact absurd rfl (once.2.2 key ran key List.mem_cons_self)
    · exact falls

theorem destroyContained
    (explores : Explores r.graph starts w (.destroyContained key :: rest))
    (ordered : Ordered r w (.destroyContained key :: rest)) :
    Ordered r (w.perform (.destroyContained key)).2
      ((w.perform (.destroyContained key)).1 ++ rest) := by
  rw [perform_destroyContained]
  rcases List.pairwise_cons.mp ordered.precedes with ⟨keyPrecedes, restPrecedes⟩
  have restPrepared : Task.Prepared r.graph w.opened rest := ordered.prepared
  constructor
  case precedes =>
    apply List.pairwise_append.mpr
    refine ⟨Task.pairwise_precedes_map_destroy r.graph _, restPrecedes, ?_⟩
    intro task member later member'
    rcases Registry.mem_releaseContained.mp member with ⟨inner, contains, rfl⟩
    exact (keyPrecedes later member').dragged rfl rfl (.inr (explores.contained_subset contains))
  case prepared =>
    apply Task.prepared_map_destroy_append
    exact restPrepared.mono fun _ => List.mem_append_right _
  case dependents_ran => exact ordered.dependents_ran
  case inOrder => exact ordered.inOrder

theorem scrub (ordered : Ordered r w (.scrub key :: rest)) :
    Ordered r (w.perform (.scrub key)).2 ((w.perform (.scrub key)).1 ++ rest) := by
  rw [perform_scrub]
  constructor
  case precedes => exact (List.pairwise_cons.mp ordered.precedes).2
  case prepared => exact ordered.prepared
  case dependents_ran => exact ordered.dependents_ran
  case inOrder => exact ordered.inOrder

end Ordered

/-- What is kept by each task of a sweep that was to destroy some keys. -/
structure Keeps (r : Registry κ) (starts : List Name) (w : Sweep κ) (tasks : List (Task κ)) :
    Prop where
  explores : Explores r.graph starts w tasks
  accounts : Accounts r.disposals w tasks
  ordered : Ordered r w tasks

theorem Keeps.step {r : Registry κ} {starts : List Name} (distinct : r.disposals.keys.Nodup)
    (w : Sweep κ) (task : Task κ) (rest : List (Task κ)) (keeps : Keeps r starts w (task :: rest)) :
    Keeps r starts (w.perform task).2 ((w.perform task).1 ++ rest) where
  explores := keeps.explores.step
  accounts := keeps.accounts.step distinct
  ordered := by
    cases task with
    | destroy key => exact keeps.ordered.destroy keeps.explores keeps.accounts
    | dispose key callback => exact keeps.ordered.dispose keeps.accounts
    | destroyContained key => exact keeps.ordered.destroyContained keeps.explores
    | scrub key => exact keeps.ordered.scrub
    | forgetAll | markDestroyed => exact absurd (keeps.explores.about _ List.mem_cons_self) id

theorem keeps_run {r : Registry κ} (distinct : r.disposals.keys.Nodup) (starts : List Name) :
    Keeps r starts (run { registry := r } (starts.map .destroy)) [] := by
  apply invariant (Keeps.step distinct)
  rw [List.append_nil]
  exact ⟨.begin r starts, .begin r starts, .begin r starts⟩

/-- When a key and a dependent of it have been disposed of, the dependent came first, or else the
key was reached from a dependent of the dependent. -/
theorem Keeps.before_or_fallsAheadOf {r : Registry κ} {starts : List Name} {w : Sweep κ}
    (keeps : Keeps r starts w []) {key dependent : Name}
    (depends : dependent ∈ r.graph.dependents.of key) (ran : key ∈ Disposals.keys w.ran)
    (ran' : dependent ∈ Disposals.keys w.ran) :
    Disposals.Before w.ran dependent key ∨ r.graph.FallsAheadOf key dependent := by
  by_cases same : dependent = key
  · subst same
    exact .inr (.of_dependent depends)
  · rcases Disposals.before_or_before ran' ran same with before | after
    · exact .inl before
    · have inOrder : (Disposals.keys w.ran).Pairwise fun earlier later =>
          later ∈ r.graph.dependents.of earlier → r.graph.FallsAheadOf earlier later :=
        List.pairwise_map.mpr keeps.ordered.inOrder
      exact .inr (List.pairwise_iff_forall_sublist.mp inOrder after depends)

/-- What falls ahead of a key is disposed of before the key when the key is destroyed. -/
theorem before_of_fallsAheadOf {r : Registry κ} (distinct : r.disposals.keys.Nodup)
    {key name : Name} (falls : r.graph.FallsAheadOf name key) (differ : name ≠ key)
    (registered : name ∈ r.disposals.keys) (registered' : key ∈ r.disposals.keys) :
    Disposals.Before (run { registry := r } [.destroy key]).ran name key := by
  rcases Disposals.mem_keys_iff.mp registered with ⟨callback, nameRegistered⟩
  rcases Disposals.mem_keys_iff.mp registered' with ⟨callback', keyRegistered⟩
  let unlinked := (r.unlink key).2
  let dependents := (r.graph.dependents.of key).toList
  -- The sweep of the dependents, on its own and behind the opening of the key.
  let alone := run { registry := unlinked } (dependents.map .destroy)
  have tasks : (r.unlink key).1 =
      dependents.map .destroy ++ [.dispose key callback', .destroyContained key, .scrub key] := by
    change _ ++ ((r.disposals.callback? key).map (Task.dispose key)).toList ++ _ = _
    rw [Disposals.callback?_of_mem distinct keyRegistered]
    exact List.append_assoc _ _ _
  have swept : run { registry := unlinked, opened := [key] } (dependents.map .destroy) =
      alone.after [key] [] :=
    run_after { registry := unlinked } (dependents.map .destroy) [key] []
  have opened : name ∈ (alone.after [key] []).opened := by
    rcases falls.takeDependents with ⟨dependent, depends, falls⟩
    apply List.mem_append_right
    exact (explores_run unlinked dependents).opened_iff.mpr
      ⟨dependent, NameSet.mem_toList.mpr depends, falls⟩
  have accounts : Accounts r.disposals (alone.after [key] [])
      [.dispose key callback', .destroyContained key, .scrub key] := by
    have start := Accounts.step distinct _ _ _ (Accounts.begin r [key])
    rw [perform_destroy, List.map_nil, List.append_nil, tasks] at start
    rw [← swept]
    exact invariant (Accounts.step distinct) start
  have ran : (name, callback) ∈ (alone.after [key] []).ran := by
    have charged := accounts.mem_iff.mpr ⟨nameRegistered, opened⟩
    rcases List.mem_append.mp charged with ran | due
    · exact ran
    · have waiting := Task.mem_disposals_iff.mp due
      simp [differ] at waiting
  let disposed : Sweep κ :=
    { alone.after [key] [] with ran := (alone.after [key] []).ran ++ [(key, callback')] }
  have whole : run { registry := r } [.destroy key] =
      disposed.run [.destroyContained key, .scrub key] := by
    rw [run_cons, perform_destroy, List.append_nil, tasks, run_append, ← run_dispose, ← swept]
    rfl
  have last : key ∈ Disposals.keys [(key, callback')] := List.mem_singleton_self key
  have before : Disposals.Before disposed.ran name key :=
    Disposals.before_append (Disposals.mem_keys_of_mem ran) last
  rw [whole]
  exact before.trans ((disposed.ran_prefix_run _).sublist.map Prod.fst)

end Sweep

end Lifecycle
