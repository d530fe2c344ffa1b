import Lifecycle.Proofs.Session.Change
import Lifecycle.Proofs.Teardown.Registrations
import Mathlib.Data.List.Perm.Subperm

/-!
# Disposals that are left

Destroying everything destroys the keys that have a disposal at that moment.  Every disposal on the
list then has a task that will take it off (`Session.awaited_of_destroysAll`), and it has that task
until it is taken off; so when no teardown waits any more, the list holds only what has been
registered since.  A registry is destroyed as a whole once: at the end of its life, or before.  What
is registered later than that is run if its key is destroyed, and otherwise never
(`Session.disposals_left_at_end`).
-/

namespace Lifecycle

open Log

variable {κ : Type}

/-- Of two parts that make up a whole, one is covered by what the other does not need. -/
private theorem subperm_of_perm_append {α : Type} {first rest settled left : List α}
    (whole : (first ++ rest).Perm (settled ++ left)) (covered : left.Subperm rest) :
    first.Subperm settled := by
  classical
  rw [List.perm_iff_count] at whole
  rw [List.subperm_iff_count] at covered ⊢
  intro a
  have counted := whole a
  have fewer := covered a
  simp only [List.count_append] at counted
  omega

/-! ## Taken off the list -/

namespace Disposals

variable {disposals : Disposals κ} {key : Name} {callback : κ} {entry : Name × κ}

theorem mem_of_mem_register (member : entry ∈ disposals.register key callback) :
    entry = (key, callback) ∨ entry ∈ disposals := by
  have either := (disposals.perm_register key callback).mem_iff.mpr
    (List.mem_append_right _ member)
  exact List.mem_cons.mp either

/-- Among distinct keys, a registration puts one entry on the list and takes those of its key
off. -/
theorem mem_register_iff (distinct : disposals.keys.Nodup) :
    entry ∈ disposals.register key callback ↔
      entry = (key, callback) ∨ entry ∈ disposals ∧ entry.1 ≠ key := by
  induction disposals with
  | nil => simp [register]
  | cons head rest ih =>
      obtain ⟨absent, restDistinct⟩ := List.nodup_cons.mp distinct
      by_cases same : head.1 = key
      · have apart : ∀ other ∈ rest, other.1 ≠ key := by
          rintro other member rfl
          exact absent (same ▸ mem_keys_of_mem member)
        simp only [register, if_pos same, List.mem_cons]
        constructor
        · rintro (rfl | member)
          · exact .inl rfl
          · exact .inr ⟨.inr member, apart entry member⟩
        · rintro (rfl | ⟨rfl | member, differ⟩)
          · exact .inl rfl
          · exact absurd same differ
          · exact .inr member
      · simp only [register, if_neg same, List.mem_cons, ih restDistinct]
        constructor
        · rintro (rfl | rfl | ⟨member, differ⟩)
          · exact .inr ⟨.inl rfl, same⟩
          · exact .inl rfl
          · exact .inr ⟨.inr member, differ⟩
        · rintro (rfl | ⟨rfl | member, differ⟩)
          · exact .inr (.inl rfl)
          · exact .inl rfl
          · exact .inr (.inr ⟨member, differ⟩)

theorem mem_without_iff : entry ∈ disposals.without key ↔ entry ∈ disposals ∧ entry.1 ≠ key := by
  simp [without]

end Disposals

namespace Registry

/-- The keys that a teardown begins to destroy before it stops. -/
def opened (r : Registry κ) (tasks : List (Task κ)) : List Name :=
  match tasks with
  | [] => []
  | task :: rest =>
      if task.disposal?.isSome then
        []
      else
        task.opened?.toList ++ (r.perform task).2.opened ((r.perform task).1 ++ rest)
termination_by 5 * r.edgeCount + Task.totalWeight tasks
decreasing_by
  have cheaper := r.perform_cost task
  simp only [Task.totalWeight_append, Task.totalWeight_cons]
  omega

theorem mem_disposals_perform (r : Registry κ) (task : Task κ) {entry : Name × κ} :
    entry ∈ (r.perform task).2.disposals ↔
      entry ∈ r.disposals ∧ entry.1 ∉ task.opened?.toList := by
  cases task with
  | destroy key => simp [perform, unlink, Task.opened?, Disposals.mem_without_iff]
  | dispose | destroyContained | scrub | forgetAll | markDestroyed =>
      simp [perform, releaseContained, Task.opened?]

/-- A task that leaves a disposal on the list leaves its key to be destroyed, if it was. -/
theorem still_due_of_left {r : Registry κ} {task : Task κ} {rest : List (Task κ)}
    {entry : Name × κ} (left : entry ∈ (r.perform task).2.disposals)
    (due : .destroy entry.1 ∈ task :: rest) : .destroy entry.1 ∈ (r.perform task).1 ++ rest := by
  have differ : .destroy entry.1 ≠ task := by
    rintro rfl
    exact ((r.mem_disposals_perform _).mp left).2 (by simp [Task.opened?])
  exact Task.still_due due differ (r.perform task).1

/-- A teardown takes the disposals of the keys it destroys off the list, and no others. -/
theorem mem_disposals_teardown (r : Registry κ) (tasks : List (Task κ)) {entry : Name × κ} :
    entry ∈ (r.teardown tasks).value.1.disposals ↔
      entry ∈ r.disposals ∧ entry.1 ∉ r.opened tasks := by
  induction r, tasks using Registry.opened.induct with
  | case1 r => simp [teardown, opened]
  | case2 r task rest stops =>
      cases task with
      | dispose key callback => simp [teardown, opened, Task.disposal?]
      | destroy | destroyContained | scrub | forgetAll | markDestroyed => contradiction
  | case3 r task rest goes ih =>
      have undisposing : task.disposal? = none := by simpa using goes
      rw [value_teardown_cons r undisposing, ih, mem_disposals_perform, opened, if_neg goes,
        List.mem_append, not_or, and_assoc]

/-- What a call begins to tear down, and the registry in which it does so. -/
def begins (r : Registry κ) : TeardownCall κ → List (Task κ) × Registry κ
  | .registerDisposal _ _ | .hasDisposal _ | .disposalCount => ([], r)
  | .destroy key => ([.destroy key], r)
  | .destroyAll => r.beginDestroyAll.value
  | .retire => r.beginRetire.value
  | .close => if r.destroyed then ([], r) else r.beginRetire.value

theorem value_callTeardown (r : Registry κ) {call : TeardownCall κ} (destroys : call.Destroys) :
    (r.callTeardown call).value = ((r.begins call).2.teardown (r.begins call).1).value := by
  cases call with
  | registerDisposal | hasDisposal | disposalCount => exact absurd destroys id
  | destroy | destroyAll | retire => rfl
  | close =>
      by_cases destroyed : r.destroyed
      · simp [callTeardown, begins, destroyed, teardown, answer]
      · simp [callTeardown, begins, destroyed]

@[simp]
theorem disposals_begins (r : Registry κ) (call : TeardownCall κ) :
    (r.begins call).2.disposals = r.disposals := by
  cases call with
  | close =>
      rw [begins]
      split <;> rfl
  | registerDisposal | hasDisposal | disposalCount | destroy | destroyAll | retire => rfl

end Registry

namespace Session

variable {s t : Session κ} {move : Move κ} {entry : Name × κ}

/-- The keys that a move begins to destroy. -/
def opened (s : Session κ) : Move κ → List Name
  | .call (.teardown call) => (s.registry.begins call).2.opened (s.registry.begins call).1
  | .finish _ => s.stack.head?.elim [] fun frame => s.registry.opened frame.tasks
  | _ => []

/-- A disposal is on the list after a move exactly if the move registers it, or it was on the list
before and the move neither registers its key anew nor destroys it. -/
theorem mem_disposals_iff_of_move? (distinct : s.registry.disposals.keys.Nodup)
    (moved : s.move? move = some t) :
    entry ∈ t.registry.disposals ↔ entry ∈ s.registered move ∨
      entry ∈ s.registry.disposals ∧
        (entry.1 ∉ Disposals.keys (s.registered move) ∧ entry.1 ∉ s.opened move) := by
  -- A move that has nothing to do with disposals.
  have kept : t.registry.disposals = s.registry.disposals → s.registered move = [] →
      s.opened move = [] →
      (entry ∈ t.registry.disposals ↔ entry ∈ s.registered move ∨
        entry ∈ s.registry.disposals ∧
          (entry.1 ∉ Disposals.keys (s.registered move) ∧ entry.1 ∉ s.opened move)) := by
    intro same registers opens
    simp [same, registers, opens, Disposals.keys]
  cases move with
  | raise cause | attach fault others =>
      obtain rfl := Option.some.inj moved
      exact kept rfl rfl rfl
  | finish outcome =>
      obtain ⟨frame, rest, running, rfl⟩ := move?_finish_eq_some_iff.mp moved
      rw [registry_after] at kept ⊢
      cases frame with
      | creating key outermost =>
          apply kept rfl rfl
          simp [opened, running, Frame.tasks, Registry.opened]
      | exposing key =>
          have same : (s.registry.resume outcome (.exposing key)).value.1.disposals =
              s.registry.disposals := by
            cases outcome <;> rfl
          apply kept same rfl
          simp [opened, running, Frame.tasks, Registry.opened]
      | disposing key tasks =>
          have taken := @Registry.mem_disposals_teardown κ s.registry tasks entry
          simpa [Registry.resume, registered, opened, running, Frame.tasks, Disposals.keys]
            using taken
  | call c =>
      obtain rfl := Option.some.inj moved
      rw [call, Logged.value_map, registry_after] at kept ⊢
      cases c with
      | name | aliases | graph => exact kept rfl rfl rfl
      | tracker call =>
          apply @kept _ rfl rfl
          cases granted : (call.run s.registry.cache.tracker).value <;>
            simp [Registry.call, granted, Registry.raise, Registry.answer]
      | cache call => exact kept (s.registry.disposals_callCache call) rfl rfl
      | teardown call =>
          by_cases destroys : call.Destroys
          · have taken := @Registry.mem_disposals_teardown κ (s.registry.begins call).2
              (s.registry.begins call).1 entry
            have none : s.registered (.call (.teardown call)) = [] := by
              cases call with
              | registerDisposal => exact absurd destroys id
              | _ => rfl
            rw [Registry.disposals_begins] at taken
            simpa [Registry.call, Registry.value_callTeardown _ destroys, none, opened,
              Disposals.keys] using taken
          · cases call with
            | registerDisposal key callback =>
                cases callback with
                | none => exact kept rfl rfl (by simp [opened, Registry.begins, Registry.opened])
                | some callback =>
                    have added := @Disposals.mem_register_iff κ _ key callback entry distinct
                    simpa [Registry.call, Registry.callTeardown, Registry.answer, registered,
                      Call.registered, opened, Registry.begins, Registry.opened, Disposals.keys]
                      using added
            | hasDisposal | disposalCount =>
                exact kept rfl rfl (by simp [opened, Registry.begins, Registry.opened])
            | destroy | destroyAll | retire | close => exact absurd trivial destroys

/-- A disposal is on the list exactly if it has been registered and its key has been neither
registered anew nor destroyed since. -/
theorem mem_disposals_iff_everSince {name : Name} {allowOverriding : Bool} {ledger : Ledger}
    {moves : List (Move κ)} (moved : (begin name allowOverriding ledger).moves? moves = some t) :
    entry ∈ t.registry.disposals ↔ (begin name allowOverriding ledger).EverSince
      (fun s move => entry ∈ s.registered move)
      (fun s move => entry.1 ∉ Disposals.keys (s.registered move) ∧ entry.1 ∉ s.opened move)
      moves := by
  let start : Session κ := begin name allowOverriding ledger
  have distinct : start.Along (fun s _ => s.registry.disposals.keys.Nodup) moves :=
    (start.along_true moves).imp_of_invariant
      (fun _ _ _ distinct _ moved => nodup_keys_of_move? distinct moved)
      (fun _ _ distinct _ => distinct) List.nodup_nil
  have new : entry ∉ start.registry.disposals := List.not_mem_nil
  exact @holds_iff_everSince_of_not κ _ _ _ (fun s => entry ∈ s.registry.disposals)
    (fun _ _ _ distinct moved => mem_disposals_iff_of_move? distinct moved) _ _ _ new distinct moved

/-! ## Everything destroyed -/

/-- A move that begins to destroy everything: everything is destroyed on request, or because the
registry's life ends and it has not been destroyed before. -/
def DestroysAll (s : Session κ) : Move κ → Prop
  | .call (.teardown .destroyAll) | .call (.teardown .retire) => True
  | .call (.teardown .close) => s.registry.destroyed = false
  | _ => False

theorem DestroysAll.exists_call (all : s.DestroysAll move) :
    ∃ call : TeardownCall κ, move = .call (.teardown call) ∧ call.Destroys ∧
      ∀ key ∈ s.registry.disposals.keys, .destroy key ∈ (s.registry.begins call).1 := by
  have listed : ∀ ending : List (Task κ), ∀ key ∈ s.registry.disposals.keys,
      .destroy key ∈ s.registry.disposals.keys.reverse.map Task.destroy ++ ending := by
    intro ending key member
    exact List.mem_append_left _ (List.mem_map_of_mem (List.mem_reverse.mpr member))
  have retiring : ∀ key ∈ s.registry.disposals.keys,
      .destroy key ∈ s.registry.beginRetire.value.1 := by
    intro key member
    exact List.mem_append_left _ (listed [.forgetAll] key member)
  match move, all with
  | .call (.teardown .destroyAll), _ => exact ⟨_, rfl, trivial, listed [.forgetAll]⟩
  | .call (.teardown .retire), _ => exact ⟨_, rfl, trivial, retiring⟩
  | .call (.teardown .close), lives =>
      have listed : ∀ key ∈ s.registry.disposals.keys,
          .destroy key ∈ (s.registry.begins .close).1 := by
        change s.registry.destroyed = false at lives
        simpa [Registry.begins, lives] using retiring
      exact ⟨_, rfl, trivial, listed⟩

/-- When everything begins to be destroyed, each disposal on the list awaits its task. -/
theorem awaited_of_destroysAll (all : s.DestroysAll move) (moved : s.move? move = some t)
    (left : entry ∈ t.registry.disposals) : .destroy entry.1 ∈ t.pending := by
  obtain ⟨call, rfl, destroys, listed⟩ := all.exists_call
  obtain rfl := Option.some.inj moved
  revert left
  rw [Session.call, Logged.value_map, registry_after, pending_after, Registry.call,
    Registry.value_callTeardown _ destroys]
  apply @Registry.teardown_keeps κ fun r tasks =>
    entry ∈ r.disposals → .destroy entry.1 ∈ tasks
  · intro r task rest held left
    have listed := ((r.mem_disposals_perform task).mp left).1
    exact Registry.still_due_of_left left (held listed)
  · intro left
    rw [Registry.disposals_begins] at left
    exact List.mem_append_left _ (listed entry.1 (Disposals.mem_keys_of_mem left))

/-- A disposal that is on the list after a move has been registered by it, or was on the list
before; and then its task, if it had one, has not been done. -/
theorem awaited_of_move? (moved : s.move? move = some t) (left : entry ∈ t.registry.disposals) :
    entry ∈ s.registered move ∨ entry ∈ s.registry.disposals ∧
      (.destroy entry.1 ∈ s.pending → .destroy entry.1 ∈ t.pending) := by
  have torn : ∀ (r : Registry κ) (tasks below : List (Task κ)),
      r.disposals = s.registry.disposals →
      (.destroy entry.1 ∈ s.pending → .destroy entry.1 ∈ tasks ++ below) →
      entry ∈ (r.teardown tasks).value.1.disposals →
      entry ∈ s.registry.disposals ∧ (.destroy entry.1 ∈ s.pending →
        .destroy entry.1 ∈ (r.teardown tasks).value.2.tasks ++ below) := by
    intro r tasks below same due
    apply @Registry.teardown_keeps κ fun r tasks => entry ∈ r.disposals →
      entry ∈ s.registry.disposals ∧ (.destroy entry.1 ∈ s.pending → .destroy entry.1 ∈ tasks)
    · intro r task rest held left
      have listed := ((r.mem_disposals_perform task).mp left).1
      obtain ⟨old, due⟩ := held listed
      exact ⟨old, fun awaited => Registry.still_due_of_left left (due awaited)⟩
    · exact fun listed => ⟨same ▸ listed, due⟩
  revert left
  apply of_change (fun r pending => entry ∈ r.disposals → entry ∈ s.registered move ∨
    entry ∈ s.registry.disposals ∧ (.destroy entry.1 ∈ s.pending → .destroy entry.1 ∈ pending))
    moved
  intro r pending change left
  cases change with
  | none | aliases | graph => exact .inr ⟨left, id⟩
  | register key callback =>
      rcases Disposals.mem_of_mem_register left with rfl | old
      · exact .inl List.mem_cons_self
      · exact .inr ⟨old, id⟩
  | tear cache begins => exact .inr (torn _ _ _ rfl (List.mem_append_right _) left)
  | tearOn waiting => exact .inr (torn _ _ _ rfl (fun due => waiting ▸ due) left)

/-- If each disposal on the list awaits its task, then what is on the list after further moves has
been registered by them or still awaits its task. -/
theorem registered_or_awaited {moves : List (Move κ)}
    (start : entry ∈ s.registry.disposals → .destroy entry.1 ∈ s.pending)
    (moved : s.moves? moves = some t) (left : entry ∈ t.registry.disposals) :
    entry ∈ s.gather registered moves ∨ .destroy entry.1 ∈ t.pending := by
  induction moves generalizing s with
  | nil =>
      obtain rfl := Option.some.inj moved
      exact .inr (start left)
  | cons move rest ih =>
      obtain ⟨u, first, onward⟩ := Option.bind_eq_some_iff.mp moved
      rw [gather_cons first, List.mem_append]
      by_cases now : entry ∈ s.registered move
      · exact .inl (.inl now)
      · have awaited : entry ∈ u.registry.disposals → .destroy entry.1 ∈ u.pending := by
          intro listed
          obtain ⟨old, due⟩ := (awaited_of_move? first listed).resolve_left now
          exact due (start old)
        rcases ih awaited onward with later | awaits
        · exact .inl (.inr later)
        · exact .inr awaits

/-! ## Destroyed as a whole -/

/-- The registry has been destroyed as a whole, or will be at the end of a teardown that is
waiting. -/
def Marked (s : Session κ) : Prop :=
  s.registry.destroyed = true ∨ .markDestroyed ∈ s.pending

theorem marked_of_teardown {r : Registry κ} {tasks below : List (Task κ)}
    (marked : (r.teardown tasks).value.1.destroyed = true ∨
      .markDestroyed ∈ (r.teardown tasks).value.2.tasks ++ below) :
    r.destroyed = true ∨ .markDestroyed ∈ tasks ++ below := by
  revert marked
  apply @Registry.teardown_keeps κ fun r' tasks' =>
    r'.destroyed = true ∨ .markDestroyed ∈ tasks' →
      r.destroyed = true ∨ .markDestroyed ∈ tasks ++ below
  · intro r' task rest held marked
    apply held
    cases task with
    | markDestroyed => exact .inr List.mem_cons_self
    | destroy | dispose | destroyContained | scrub | forgetAll =>
        simpa [Registry.perform, Registry.unlink, Registry.releaseContained] using marked
  · exact id

/-- Only a move that begins to destroy everything leads to a registry that is destroyed as a
whole. -/
theorem marked_of_move? (spares : ¬ s.DestroysAll move) (moved : s.move? move = some t)
    (marked : t.Marked) : s.Marked := by
  have unchanged : (∀ call : TeardownCall κ, move ≠ .call (.teardown call)) → s.Marked := by
    intro other
    revert marked
    apply of_change (fun r pending => r.destroyed = true ∨ .markDestroyed ∈ pending → s.Marked)
      moved
    intro r pending change marked
    cases change with
    | none | aliases | graph => exact marked
    | register | tear => exact absurd rfl (other _)
    | tearOn waiting =>
        rw [Marked, waiting]
        exact marked_of_teardown marked
  cases move with
  | raise | attach | finish => exact unchanged (by simp)
  | call c =>
      cases c with
      | name | aliases | tracker | cache | graph => exact unchanged (by simp)
      | teardown call =>
          obtain rfl := Option.some.inj moved
          cases call with
          | registerDisposal | hasDisposal | disposalCount => exact marked
          | destroyAll | retire => exact absurd trivial spares
          | close => exact .inl (Bool.not_eq_false _ ▸ spares)
          | destroy key =>
              have destroys : (TeardownCall.destroy (κ := κ) key).Destroys := trivial
              rw [Marked, Session.call, Logged.value_map, registry_after, pending_after,
                Registry.call, Registry.value_callTeardown _ destroys] at marked
              have before := marked_of_teardown marked
              simpa [Marked, Registry.begins, pending] using before

/-! ## The end of a registry's life -/

/-- In a life that ends everything is destroyed, at its end if not before. -/
theorem exists_destroysAll {name : Name} {allowOverriding : Bool} {ledger : Ledger}
    {before after : List (Move κ)}
    (moved : (begin name allowOverriding ledger).moves?
      (before ++ .call (.teardown .close) :: after) = some t) :
    ∃ first move rest u, before ++ .call (.teardown .close) :: after = first ++ move :: rest ∧
      (begin name allowOverriding ledger).moves? first = some u ∧ u.DestroysAll move := by
  let start : Session κ := begin name allowOverriding ledger
  rcases start.along_not_or_exists DestroysAll before with
    never | ⟨first, move, rest, u, split, reached, all⟩
  · rw [moves?_append] at moved
    obtain ⟨u, lived, _⟩ := Option.bind_eq_some_iff.mp moved
    have new : ¬ start.Marked := by
      rintro (destroyed | awaited)
      · exact Bool.false_ne_true destroyed
      · exact List.not_mem_nil awaited
    have unmarked : ¬ u.Marked := by
      apply @Along.invariant κ _ (fun s => ¬ s.Marked) _ _ _ _ new never lived
      intro s move t unmarked spares moved marked
      exact unmarked (marked_of_move? spares moved marked)
    have lives : u.registry.destroyed = false := by
      rw [Bool.eq_false_iff]
      exact fun destroyed => unmarked (.inl destroyed)
    exact ⟨before, _, after, u, rfl, lived, lives⟩
  · have whole : before ++ .call (.teardown .close) :: after =
        first ++ move :: (rest ++ .call (.teardown .close) :: after) := by
      rw [split, List.append_assoc, List.cons_append]
    exact ⟨first, move, _, u, whole, reached, all⟩

/-- What is left when no teardown waits has been registered since everything began to be
destroyed. -/
theorem registered_of_left {moves : List (Move κ)} (all : s.DestroysAll move)
    (moved : s.moves? (move :: moves) = some t) (idle : t.pending = [])
    (left : entry ∈ t.registry.disposals) : entry ∈ s.gather registered (move :: moves) := by
  obtain ⟨u, first, onward⟩ := Option.bind_eq_some_iff.mp moved
  have awaited : entry ∈ u.registry.disposals → .destroy entry.1 ∈ u.pending :=
    awaited_of_destroysAll all first
  rcases registered_or_awaited awaited onward left with later | awaits
  · rw [gather_cons first]
    exact List.mem_append_right _ later
  · rw [idle] at awaits
    exact absurd awaits List.not_mem_nil

/-- When the life of a registry has ended, with no call waiting any more, each registration of a
disposal has been run, has been replaced or is left on the list.  Everything has been destroyed at
least once, and whenever that began, what had been registered before has been run or replaced.  What
is left are exactly the disposals whose keys have been neither registered anew nor destroyed since
they were registered. -/
theorem disposals_left_at_end {name : Name} {allowOverriding : Bool} {ledger : Ledger}
    {before after : List (Move κ)} {t : Session κ}
    (moved : (begin name allowOverriding ledger).moves?
      (before ++ .call (.teardown .close) :: after) = some t) (ended : t.stack = []) :
    let start : Session κ := begin name allowOverriding ledger
    let life := before ++ .call (.teardown .close) :: after
    (start.gather registered life).Perm
        (start.gather ran life ++ start.gather replaced life ++ t.registry.disposals) ∧
      (∃ first move rest u, life = first ++ move :: rest ∧ start.moves? first = some u ∧
        u.DestroysAll move) ∧
      (∀ first move rest u, life = first ++ move :: rest → start.moves? first = some u →
        u.DestroysAll move → (start.gather registered first).Subperm
          (start.gather ran life ++ start.gather replaced life)) ∧
      ∀ key callback, (key, callback) ∈ t.registry.disposals ↔ start.EverSince
        (fun s move => (key, callback) ∈ s.registered move)
        (fun s move => key ∉ Disposals.keys (s.registered move) ∧ key ∉ s.opened move) life := by
  intro start life
  have distinct : t.registry.disposals.keys.Nodup := distinct_of_reaches ⟨_, moved⟩
  have idle : t.pending = [] := by rw [pending, ended, List.flatMap_nil]
  have account : (start.gather registered life).Perm
      (start.gather ran life ++ start.gather replaced life ++ t.registry.disposals) := by
    have account := @perm_moves κ start t life List.nodup_nil moved
    have nothing : start.held = [] := rfl
    have onlyList : t.held = t.registry.disposals := by simp [held, ended]
    rwa [nothing, List.append_nil, onlyList] at account
  refine ⟨account, exists_destroysAll moved, ?earlier,
    fun key callback => mem_disposals_iff_everSince moved⟩
  case earlier =>
    intro first move rest u split reached all
    have onward : u.moves? (move :: rest) = some t := by
      have onward : start.moves? life = some t := moved
      rwa [split, moves?_append, reached] at onward
    have parts : start.gather registered life =
        start.gather registered first ++ u.gather registered (move :: rest) := by
      rw [split, gather_append reached]
    have listed : t.registry.disposals.Nodup := List.Nodup.of_map Prod.fst distinct
    have later : t.registry.disposals.Subperm (u.gather registered (move :: rest)) :=
      listed.subperm fun entry left => registered_of_left all onward idle left
    exact subperm_of_perm_append (parts ▸ account) later

/-- The registry is destroyed before its life ends, and meanwhile a disposal registers its own key
anew, destroys it, and registers another key: of the four registrations three have been run, and the
last one is left. -/
theorem disposal_left_by_disposal :
    let start : Session Nat := begin "default" true {}
    let first : List (Move Nat) := [.call (.teardown (.registerDisposal "a" (some 0))),
      .call (.teardown (.registerDisposal "b" (some 1)))]
    let rest : List (Move Nat) := [.call (.teardown (.registerDisposal "b" (some 2))),
      .call (.teardown (.destroy "b")), .finish (.returned none),
      .call (.teardown (.registerDisposal "c" (some 3))), .finish (.returned none),
      .finish (.returned none)]
    let before := first ++ .call (.teardown .retire) :: rest
    ∃ t, start.moves? (before ++ [.call (.teardown .close)]) = some t ∧ t.stack = [] ∧
      t.registry.disposals = [("c", 3)] ∧
      (start.gather ran (before ++ [.call (.teardown .close)])) = [("b", 1), ("b", 2), ("a", 0)] ∧
      (start.gather registered first).Subperm
        (start.gather ran (before ++ [.call (.teardown .close)]) ++
          start.gather replaced (before ++ [.call (.teardown .close)])) ∧
      start.EverSince (fun s move => ("c", 3) ∈ s.registered move)
        (fun s move => "c" ∉ Disposals.keys (s.registered move) ∧ "c" ∉ s.opened move)
        (before ++ [.call (.teardown .close)]) := by
  intro start first rest before
  have run : (start.moves? (before ++ [.call (.teardown .close)])).map
      (fun t => (t.stack, t.registry.disposals)) = some ([], [("c", 3)]) := by
    decide +kernel
  have reached : (start.moves? first).isSome := by decide +kernel
  obtain ⟨t, moved, facts⟩ := Option.map_eq_some_iff.mp run
  obtain ⟨ended, left⟩ := Prod.mk.inj facts
  obtain ⟨u, reached⟩ := Option.isSome_iff_exists.mp reached
  obtain ⟨_, _, earlier, lefts⟩ := disposals_left_at_end moved ended
  have split : before ++ [.call (.teardown .close)] =
      first ++ .call (.teardown .retire) :: (rest ++ [.call (.teardown .close)]) := rfl
  have since := (lefts "c" 3).mp (by simp [left])
  exact ⟨t, moved, ended, left, by decide +kernel, earlier first _ _ u split reached trivial, since⟩

/-- A disposal that is registered when the registry has been destroyed is never run, and neither is
one that a disposal registers while the registry is destroyed at the end of its life. -/
theorem late_disposal_never_run :
    let start : Session Nat := begin "default" true {}
    let late : List (Move Nat) := [.call (.teardown .retire),
      .call (.teardown (.registerDisposal "late" (some 0))), .call (.teardown .close)]
    let nested : List (Move Nat) := [.call (.teardown (.registerDisposal "a" (some 0))),
      .call (.teardown .close), .call (.teardown (.registerDisposal "b" (some 1))),
      .finish (.returned none)]
    (start.moves? late).map (fun t => (t.stack, t.registry.disposals)) =
        some ([], [("late", 0)]) ∧
      start.gather replaced late = [] ∧ start.gather ran late = [] ∧
      (start.moves? nested).map (fun t => (t.stack, t.registry.disposals)) =
        some ([], [("b", 1)]) ∧
      start.gather replaced nested = [] ∧ start.gather ran nested = [("a", 0)] := by
  decide +kernel

end Session

end Lifecycle
