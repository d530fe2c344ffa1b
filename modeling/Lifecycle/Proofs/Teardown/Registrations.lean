import Lifecycle.Proofs.Teardown.Accounts

/-!
# Every registration accounted for

A disposal is registered once and run at most once, also when the disposals register, replace and
destroy while they run.  What keeps the account is that a registered disposal is in one place at any
time: on the list, or among the tasks of a teardown that has taken it off the list and has not come
to it yet.  A registration puts one on the list and may push another one off it; a teardown moves
them from the list to its tasks and runs those it comes to (`Registry.perm_teardown`).
-/

namespace Lifecycle

open Log

variable {κ : Type}

namespace Disposals

variable {disposals : Disposals κ}

/-- The entry of a key, if it has one. -/
def entryOf (disposals : Disposals κ) (key : Name) : List (Name × κ) :=
  ((disposals.callback? key).map fun callback => (key, callback)).toList

theorem entryOf_cons_self (entry : Name × κ) (rest : Disposals κ) :
    entryOf (entry :: rest) entry.1 = [entry] := by
  simp [entryOf, callback?, NameMap.lookup]

theorem entryOf_cons_of_ne {key : Name} {entry : Name × κ} (differ : entry.1 ≠ key)
    (rest : Disposals κ) : entryOf (entry :: rest) key = entryOf rest key := by
  simp [entryOf, callback?, NameMap.lookup, Ne.symm differ]

theorem without_eq_self {key : Name} (absent : key ∉ disposals.keys) :
    disposals.without key = disposals := by
  rw [without, List.filter_eq_self]
  intro entry member
  simp only [bne_iff_ne, ne_eq]
  rintro rfl
  exact absent (mem_keys_of_mem member)

/-- Taking the disposal of a key off the list takes its entry off and no other. -/
theorem perm_without (distinct : disposals.keys.Nodup) (key : Name) :
    disposals.Perm (disposals.entryOf key ++ disposals.without key) := by
  induction disposals with
  | nil => exact List.Perm.refl _
  | cons entry rest ih =>
      rcases List.nodup_cons.mp distinct with ⟨absent, restDistinct⟩
      by_cases same : entry.1 = key
      · subst same
        have dropped : without (entry :: rest) entry.1 = rest := by
          rw [without, List.filter_cons_of_neg (by simp)]
          exact without_eq_self absent
        rw [entryOf_cons_self, dropped]
        exact List.Perm.refl _
      · have kept : without (entry :: rest) key = entry :: without rest key :=
          List.filter_cons_of_pos (by simpa using same)
        rw [entryOf_cons_of_ne same, kept]
        exact ((ih restDistinct).cons entry).trans List.perm_middle.symm

/-- A registration adds its entry to the list and takes off the entry that the key had. -/
theorem perm_register (disposals : Disposals κ) (key : Name) (callback : κ) :
    ((key, callback) :: disposals).Perm
      (disposals.entryOf key ++ disposals.register key callback) := by
  induction disposals with
  | nil => exact List.Perm.refl _
  | cons entry rest ih =>
      by_cases same : entry.1 = key
      · subst same
        rw [entryOf_cons_self, register, if_pos rfl]
        exact List.Perm.swap entry (entry.1, callback) rest
      · rw [entryOf_cons_of_ne same, register, if_neg same]
        calc
          ((key, callback) :: entry :: rest).Perm (entry :: (key, callback) :: rest) :=
            List.Perm.swap entry (key, callback) rest
          (entry :: (key, callback) :: rest).Perm
              (entry :: (entryOf rest key ++ register key callback rest)) := ih.cons entry
          (entry :: (entryOf rest key ++ register key callback rest)).Perm
              (entryOf rest key ++ entry :: register key callback rest) := List.perm_middle.symm

end Disposals

/-! ## Where a disposal waits -/

/-- The disposals that a waiting call has taken and not come to yet. -/
def Frame.waiting : Frame κ → List (Name × κ)
  | disposing _ rest => Task.disposals rest
  | _ => []

/-- The disposal that is to be run now. -/
def Progress.disposals : Progress κ → List (Name × κ)
  | entered callback (.disposing key _) => [(key, callback)]
  | _ => []

/-- The disposals that wait behind it. -/
def Progress.waiting (progress : Progress κ) : List (Name × κ) :=
  progress.frames.flatMap Frame.waiting

/-- The disposal that a call registers. -/
def Call.registered : Call κ → List (Name × κ)
  | .teardown (.registerDisposal key (some callback)) => [(key, callback)]
  | _ => []

namespace Registry

/-- The disposal that a call replaces before it has been taken. -/
def replaced (r : Registry κ) : Call κ → List (Name × κ)
  | .teardown (.registerDisposal key (some _)) => r.disposals.entryOf key
  | _ => []

/-- A teardown runs a disposal or leaves it waiting, and loses none. -/
theorem perm_teardown (r : Registry κ) (tasks : List (Task κ))
    (distinct : r.disposals.keys.Nodup) :
    (r.disposals ++ Task.disposals tasks).Perm
      ((r.teardown tasks).value.2.disposals ++ (r.teardown tasks).value.1.disposals ++
        (r.teardown tasks).value.2.waiting) := by
  induction r, tasks using Registry.teardown.induct with
  | case1 r =>
      rw [teardown]
      exact List.Perm.refl _
  | case2 r key callback rest =>
      rw [teardown]
      simp only [Logged.value_pure, Progress.disposals, Progress.waiting, Progress.frames,
        List.flatMap_singleton, Frame.waiting]
      exact List.perm_middle
  | case3 r key rest _ _ ih | case4 r key rest _ _ ih =>
      rw [value_teardown_destroy]
      have moved : r.disposals.Perm (r.disposals.without key ++ r.disposals.entryOf key) :=
        (Disposals.perm_without distinct key).trans List.perm_append_comm
      have taken : Task.disposals ((r.unlink key).1 ++ rest) =
          r.disposals.entryOf key ++ Task.disposals rest := by
        rw [Task.disposals_append, disposals_tasks_unlink]
        rfl
      have onward := ih ((Disposals.keys_filter_sublist _).nodup distinct)
      rw [taken, ← List.append_assoc] at onward
      exact (moved.append_right (Task.disposals rest)).trans onward
  | case5 r key rest ih =>
      rw [teardown]
      have onward := ih distinct
      rw [Task.disposals_append, disposals_tasks_releaseContained, List.nil_append] at onward
      exact onward
  | case6 r key rest ih =>
      rw [teardown]
      exact ih distinct
  | case7 r rest ih =>
      rw [teardown]
      exact ih distinct
  | case8 r rest ih =>
      rw [teardown]
      exact ih distinct

/-- A call on the cache has nothing to do with disposals. -/
theorem disposals_progress_callCache (r : Registry κ) (call : CacheCall κ) :
    (r.callCache call).value.2.disposals = [] ∧ (r.callCache call).value.2.waiting = [] := by
  cases call with
  | getEarly key =>
      cases opened : r.cache.openEarly key <;>
        simp [callCache, opened, answer, Progress.disposals, Progress.waiting, Progress.frames,
          Frame.waiting]
  | getOrCreate key factory =>
      cases factory with
      | none => exact ⟨rfl, rfl⟩
      | some factory =>
          cases opened : (r.cache.openCreation key).value <;>
            simp [callCache, opened, answer, raise, Progress.disposals, Progress.waiting,
              Progress.frames, Frame.waiting]
  | _ => exact ⟨rfl, rfl⟩

theorem perm_callTeardown (r : Registry κ) (call : TeardownCall κ)
    (distinct : r.disposals.keys.Nodup) :
    (Call.registered (.teardown call) ++ r.disposals).Perm
      ((r.callTeardown call).value.2.disposals ++ r.replaced (.teardown call) ++
        (r.callTeardown call).value.1.disposals ++ (r.callTeardown call).value.2.waiting) := by
  -- A teardown begins with keys to be destroyed and has no disposal of its own yet.
  have torn : ∀ (r' : Registry κ) (tasks : List (Task κ)), r'.disposals = r.disposals →
      Task.disposals tasks = [] →
      r.disposals.Perm
        ((r'.teardown tasks).value.2.disposals ++ [] ++ (r'.teardown tasks).value.1.disposals ++
          (r'.teardown tasks).value.2.waiting) := by
    intro r' tasks same none
    have account := r'.perm_teardown tasks (same ▸ distinct)
    rw [same, none, List.append_nil] at account
    rw [List.append_nil]
    exact account
  have bare : ∀ ending : List (Task κ), Task.disposals ending = [] →
      Task.disposals (r.disposals.keys.reverse.map .destroy ++ ending) = [] := by
    intro ending none
    rw [Task.disposals_append, Task.disposals_map_destroy, none]
    rfl
  have retiring : Task.disposals r.beginRetire.value.1 = [] := by
    change Task.disposals (r.disposals.keys.reverse.map .destroy ++ [.forgetAll]
      ++ [.markDestroyed]) = []
    rw [List.append_assoc]
    exact bare _ rfl
  cases call with
  | registerDisposal key callback =>
      cases callback with
      | none => exact List.Perm.of_eq (List.append_nil _).symm
      | some callback =>
          have account := r.disposals.perm_register key callback
          simpa [callTeardown, answer, Call.registered, replaced, Progress.disposals,
            Progress.waiting, Progress.frames] using account
  | hasDisposal | disposalCount => exact List.Perm.of_eq (List.append_nil _).symm
  | destroy key => exact torn r _ rfl rfl
  | destroyAll => exact torn _ _ rfl (bare [.forgetAll] rfl)
  | retire => exact torn _ _ rfl retiring
  | close =>
      by_cases destroyed : r.destroyed
      · simp only [callTeardown, destroyed]
        exact List.Perm.of_eq (List.append_nil _).symm
      · simp only [callTeardown, destroyed]
        exact torn _ _ rfl retiring

/-- What a call registers, and what was registered before it, is run by the call, replaced by it,
left on the list or left waiting. -/
theorem perm_call (r : Registry κ) (call : Call κ) (distinct : r.disposals.keys.Nodup) :
    (call.registered ++ r.disposals).Perm
      ((r.call call).value.2.disposals ++ r.replaced call ++ (r.call call).value.1.disposals ++
        (r.call call).value.2.waiting) := by
  cases call with
  | name | aliases call | graph call => exact List.Perm.of_eq (List.append_nil _).symm
  | tracker call =>
      cases granted : (call.run r.cache.tracker).value <;>
        simp [Registry.call, granted, raise, answer, Call.registered, replaced,
          Progress.disposals, Progress.waiting, Progress.frames]
  | cache call =>
      rcases r.disposals_progress_callCache call with ⟨disposals, waiting⟩
      rw [Registry.call, disposals, waiting, disposals_callCache]
      exact List.Perm.of_eq (List.append_nil _).symm
  | teardown call => exact r.perm_callTeardown call distinct

/-- When a callback comes back, what the call that waits for it has taken, and what is registered,
is run now, left on the list or left waiting. -/
theorem perm_resume (r : Registry κ) (outcome : Outcome) (frame : Frame κ)
    (distinct : r.disposals.keys.Nodup) :
    (r.disposals ++ frame.waiting).Perm
      ((r.resume outcome frame).value.2.disposals ++ (r.resume outcome frame).value.1.disposals ++
        (r.resume outcome frame).value.2.waiting) := by
  cases frame with
  | creating key outermost => exact List.Perm.refl _
  | exposing key => cases outcome <;> exact List.Perm.refl _
  | disposing key rest => exact r.perm_teardown rest distinct

end Registry

/-! ## Runs -/

namespace Session

/-- The disposal that a move registers. -/
def registered (_ : Session κ) : Move κ → List (Name × κ)
  | .call c => c.registered
  | _ => []

/-- The disposal that a move replaces before it has been taken. -/
def replaced (s : Session κ) : Move κ → List (Name × κ)
  | .call c => s.registry.replaced c
  | _ => []

/-- The disposal that the user is asked to run in reply to a move, and its key. -/
def ran (s : Session κ) : Move κ → List (Name × κ)
  | .call c => (s.registry.call c).value.2.disposals
  | .finish outcome => s.stack.head?.elim [] fun frame =>
      (s.registry.resume outcome frame).value.2.disposals
  | _ => []

/-- The disposals that have not been run: those on the list, and those that teardowns have taken and
not come to. -/
def held (s : Session κ) : List (Name × κ) :=
  s.registry.disposals ++ s.stack.flatMap Frame.waiting

theorem perm_move {s t : Session κ} {move : Move κ} (distinct : s.registry.disposals.keys.Nodup)
    (moved : s.move? move = some t) :
    (s.registered move ++ s.held).Perm (s.ran move ++ s.replaced move ++ t.held) := by
  cases move with
  | call c =>
      obtain rfl := Option.some.inj moved
      have account := (s.registry.perm_call c distinct).append_right (s.stack.flatMap Frame.waiting)
      simpa [held, registered, ran, replaced, call, Progress.waiting, List.append_assoc]
        using account
  | finish outcome =>
      rcases move?_finish_eq_some_iff.mp moved with ⟨frame, rest, running, rfl⟩
      have account := (s.registry.perm_resume outcome frame distinct).append_right
        (rest.flatMap Frame.waiting)
      simpa [held, registered, ran, replaced, running, Progress.waiting, List.append_assoc]
        using account
  | raise cause | attach fault others =>
      obtain rfl := Option.some.inj moved
      exact List.Perm.refl _

theorem perm_moves {s t : Session κ} {moves : List (Move κ)}
    (distinct : s.registry.disposals.keys.Nodup) (moved : s.moves? moves = some t) :
    (s.gather registered moves ++ s.held).Perm
      (s.gather ran moves ++ s.gather replaced moves ++ t.held) := by
  apply perm_gather (fun s => s.registry.disposals.keys.Nodup) _ distinct moved
  intro s move t distinct moved
  exact ⟨nodup_keys_of_move? distinct moved, perm_move distinct moved⟩

/-- In every run, whatever the disposals do while they run, each registration has been run once, or
has been replaced, or is still held, and no key has two disposals on the list.  In particular, if no
disposal is registered twice then none is run twice, and none that has been replaced is run. -/
theorem registrations_accounted_for {t : Session κ} {moves : List (Move κ)} {name : Name}
    {allowOverriding : Bool} {ledger : Ledger}
    (moved : (begin name allowOverriding ledger).moves? moves = some t) :
    let start := begin name allowOverriding ledger
    t.registry.disposals.keys.Nodup ∧
      (start.gather registered moves).Perm
        (start.gather ran moves ++ start.gather replaced moves ++ t.held) ∧
      ((start.gather registered moves).Nodup →
        (start.gather ran moves).Nodup ∧
          ∀ entry ∈ start.gather replaced moves, entry ∉ start.gather ran moves) := by
  intro start
  have account : (start.gather registered moves).Perm
      (start.gather ran moves ++ start.gather replaced moves ++ t.held) := by
    have account := perm_moves (s := start) List.nodup_nil moved
    have nothing : start.held = [] := rfl
    rwa [nothing, List.append_nil] at account
  constructor
  · exact distinct_of_reaches ⟨moves, moved⟩
  constructor
  · exact account
  · intro distinct
    have parts := List.nodup_append.mp (List.nodup_append.mp (account.nodup_iff.mp distinct)).1
    constructor
    · exact parts.1
    · intro entry replaced ran
      exact parts.2.2 entry ran entry replaced rfl

/-- A disposal is replaced; while everything is destroyed, another one registers its key anew,
twice, and destroys the first key, whose disposal throws: two of the five registrations have been
replaced, two have been run, and the last one is still on the list. -/
theorem disposals_registered_anew :
    let start : Session Nat := begin "default" true {}
    let moves : List (Move Nat) := [.call (.teardown (.registerDisposal "a" (some 0))),
      .call (.teardown (.registerDisposal "b" (some 1))),
      .call (.teardown (.registerDisposal "a" (some 2))), .call (.teardown .destroyAll),
      .call (.teardown (.registerDisposal "b" (some 3))),
      .call (.teardown (.registerDisposal "b" (some 4))), .call (.teardown (.destroy "a")),
      .finish (.threw ⟨1, .foreign⟩), .finish (.returned none)]
    ∃ t, start.moves? moves = some t ∧
      start.gather ran moves = [("b", 1), ("a", 2)] ∧
      start.gather replaced moves = [("a", 0), ("b", 3)] ∧ t.held = [("b", 4)] ∧
      (start.gather ran moves).Nodup ∧
      ∀ entry ∈ start.gather replaced moves, entry ∉ start.gather ran moves := by
  intro start moves
  have run : (start.moves? moves).map held = some [("b", 4)] := by decide +kernel
  have distinct : (start.gather registered moves).Nodup := by decide +kernel
  rcases Option.map_eq_some_iff.mp run with ⟨t, moved, rest⟩
  obtain ⟨_, _, separate⟩ := registrations_accounted_for moved
  obtain ⟨once, never⟩ := separate distinct
  exact ⟨t, moved, by decide +kernel, by decide +kernel, rest, once, never⟩

end Session

end Lifecycle
