import Lifecycle.Proofs.Teardown.Sweep

/-!
# What a move does to the rest of a registry

What a move does to the cache is said in `Session.Effect`.  Here is the rest: the aliases, the
graph, the disposals and the tasks of teardowns that are waiting.  Teardowns wait among other calls,
and one may have begun while a disposal of another was running; what is left of all of them is done
from the innermost to the outermost, as if it were one row of tasks (`Session.pending`).

`Session.change_of_move?` says that there are no other changes than those that `Session.Change`
lists, and `Registry.teardown_keeps` that a teardown keeps what each of its tasks keeps, whatever
waits behind it.
-/

namespace Lifecycle

open Log

variable {κ : Type}

/-! ## Tasks that are waiting -/

/-- What a waiting call has still to do, apart from its own answer. -/
def Frame.tasks : Frame κ → List (Task κ)
  | disposing _ rest => rest
  | creating _ _ | exposing _ => []

/-- What a call that has to wait leaves to be done. -/
def Progress.tasks (progress : Progress κ) : List (Task κ) := progress.frames.flatMap Frame.tasks

/-- What the waiting calls have still to do, in the order in which it will be done. -/
def Session.pending (s : Session κ) : List (Task κ) := s.stack.flatMap Frame.tasks

/-- No teardown is going on: the calls that wait all wait for a factory. -/
def Session.TearsNothing (s : Session κ) : Prop := ∀ frame ∈ s.stack, frame.role = .factory

instance (s : Session κ) : Decidable s.TearsNothing :=
  inferInstanceAs (Decidable (∀ frame ∈ s.stack, frame.role = .factory))

theorem Session.TearsNothing.pending_eq_nil {s : Session κ} (idle : s.TearsNothing) :
    s.pending = [] := by
  apply List.flatMap_eq_nil_iff.mpr
  intro frame member
  cases frame with
  | creating | exposing => rfl
  | disposing => exact absurd (idle _ member) (by simp [Frame.role])

@[simp]
theorem Session.pending_after (stack : List (Frame κ)) (p : Registry κ × Progress κ) :
    (Session.after stack p).1.pending = p.2.tasks ++ stack.flatMap Frame.tasks := by
  simp [pending, Progress.tasks]

/-- A task with which a teardown can begin. -/
def Task.Begins : Task κ → Prop
  | destroy _ | forgetAll | markDestroyed => True
  | dispose _ _ | destroyContained _ | scrub _ => False

/-- What every task keeps, whatever waits behind it, is kept by a teardown up to the moment at which
it stops. -/
theorem Registry.teardown_keeps {holds : Registry κ → List (Task κ) → Prop}
    (step : ∀ r task rest, holds r (task :: rest) →
      holds (r.perform task).2 ((r.perform task).1 ++ rest))
    {r : Registry κ} {tasks below : List (Task κ)} (start : holds r (tasks ++ below)) :
    holds (r.teardown tasks).value.1 ((r.teardown tasks).value.2.tasks ++ below) := by
  induction r, tasks using Registry.teardown.induct with
  | case1 r =>
      rw [teardown]
      exact start
  | case2 r key callback rest =>
      rw [teardown]
      simp only [Logged.value_pure, Progress.tasks, Progress.frames, List.flatMap_singleton,
        Frame.tasks]
      exact step r (.dispose key callback) (rest ++ below) start
  | case3 r key rest _ _ ih | case4 r key rest _ _ ih =>
      rw [value_teardown_destroy]
      apply ih
      rw [List.append_assoc]
      exact step r (.destroy key) (rest ++ below) start
  | case5 r key rest ih =>
      rw [teardown]
      apply ih
      rw [List.append_assoc]
      exact step r (.destroyContained key) (rest ++ below) start
  | case6 r key rest ih =>
      rw [teardown]
      exact ih (step r (.scrub key) (rest ++ below) start)
  | case7 r rest ih =>
      rw [teardown]
      exact ih (step r .forgetAll (rest ++ below) start)
  | case8 r rest ih =>
      rw [teardown]
      exact ih (step r .markDestroyed (rest ++ below) start)

/-- No teardown concerns the aliases. -/
@[simp]
theorem Registry.aliases_teardown (r : Registry κ) (tasks : List (Task κ)) :
    (r.teardown tasks).value.1.aliases = r.aliases := by
  apply @Registry.teardown_keeps κ (fun r' _ => r'.aliases = r.aliases) _ r tasks [] rfl
  intro r' task rest same
  cases task <;> exact same

/-! ## Moves -/

/-- What a move makes of a registry, but for its cache and the ledger of faults, and of the tasks
that are waiting. -/
inductive Session.Change (r : Registry κ) (pending : List (Task κ)) :
    Move κ → Registry κ → List (Task κ) → Prop where
  /-- The move concerns the cache or the ledger, asks only, or is refused. -/
  | none {move : Move κ} (cache : Cache κ) (ledger : Ledger) :
      Change r pending move { r with cache, ledger } pending
  | aliases (call : AliasCall) :
      Change r pending (.call (.aliases call))
        { r with aliases := (call.run r.aliases).value.1 } pending
  | graph (call : GraphCall) :
      Change r pending (.call (.graph call))
        { r with graph := (call.run r.aliases r.graph).value.1 } pending
  | register (key : Name) (callback : κ) :
      Change r pending (.call (.teardown (.registerDisposal key (some callback))))
        { r with disposals := r.disposals.register key callback } pending
  /-- A teardown begins. -/
  | tear {call : TeardownCall κ} (cache : Cache κ) {tasks : List (Task κ)}
      (begins : ∀ task ∈ tasks, task.Begins) :
      Change r pending (.call (.teardown call))
        (Registry.teardown { r with cache } tasks).value.1
        ((Registry.teardown { r with cache } tasks).value.2.tasks ++ pending)
  /-- A disposal comes back, and its teardown goes on. -/
  | tearOn {outcome : Outcome} {tasks below : List (Task κ)} (waiting : pending = tasks ++ below) :
      Change r pending (.finish outcome) (r.teardown tasks).value.1
        ((r.teardown tasks).value.2.tasks ++ below)

namespace Registry

/-- A call on the cache concerns the cache and the ledger, and leaves nothing to be done. -/
theorem callCache_eq (r : Registry κ) (call : CacheCall κ) :
    ∃ cache ledger, (r.callCache call).value.1 = { r with cache, ledger } ∧
      (r.callCache call).value.2.tasks = [] := by
  cases call with
  | getEarly key =>
      cases opened : r.cache.openEarly key with
      | known handle =>
          simp only [callCache, opened]
          exact ⟨_, _, rfl, rfl⟩
      | taken factory cache =>
          simp only [callCache, opened]
          exact ⟨_, _, rfl, rfl⟩
  | getOrCreate key factory =>
      cases factory with
      | none => exact ⟨_, _, rfl, rfl⟩
      | some factory =>
          cases opened : (r.cache.openCreation key).value <;>
            simp only [callCache, Logged.value_bind, opened] <;> exact ⟨_, _, rfl, rfl⟩
  | _ => exact ⟨_, _, rfl, rfl⟩

theorem change_call (r : Registry κ) (pending : List (Task κ)) (call : Call κ) :
    Session.Change r pending (.call call) (r.call call).value.1
      ((r.call call).value.2.tasks ++ pending) := by
  cases call with
  | name => exact .none r.cache r.ledger
  | aliases call => exact .aliases call
  | tracker call =>
      cases granted : (call.run r.cache.tracker).value <;>
        simp only [Registry.call, Logged.value_bind, granted] <;> exact .none _ _
  | cache call =>
      rcases r.callCache_eq call with ⟨cache, ledger, registry, tasks⟩
      simp only [Registry.call, registry, tasks]
      exact .none cache ledger
  | graph call => exact .graph call
  | teardown call =>
      have torn : ∀ (cache : Cache κ) (tasks : List (Task κ)), (∀ task ∈ tasks, task.Begins) →
          Session.Change r pending (.call (.teardown call))
            (teardown { r with cache } tasks).value.1
            ((teardown { r with cache } tasks).value.2.tasks ++ pending) :=
        fun cache _ begins => .tear cache begins
      have destroying : ∀ ending : List (Task κ), (∀ task ∈ ending, task.Begins) →
          ∀ task ∈ r.disposals.keys.reverse.map Task.destroy ++ ending, task.Begins := by
        intro ending begins task member
        rcases List.mem_append.mp member with key | last
        · rcases List.mem_map.mp key with ⟨_, _, rfl⟩
          trivial
        · exact begins task last
      have retiring : ∀ task ∈ r.beginRetire.value.1, task.Begins := by
        change ∀ task ∈ r.disposals.keys.reverse.map Task.destroy ++ [.forgetAll]
          ++ [.markDestroyed], task.Begins
        rw [List.append_assoc]
        exact destroying _ (by simp [Task.Begins])
      cases call with
      | registerDisposal key callback =>
          cases callback with
          | none => exact .none r.cache r.ledger
          | some callback => exact .register key callback
      | hasDisposal | disposalCount => exact .none r.cache r.ledger
      | destroy key => exact torn r.cache _ (by simp [Task.Begins])
      | destroyAll => exact torn _ _ (destroying _ (by simp [Task.Begins]))
      | retire => exact torn _ _ retiring
      | close =>
          by_cases destroyed : r.destroyed
          · simp only [Registry.call, callTeardown, destroyed]
            exact .none r.cache r.ledger
          · simp only [Registry.call, callTeardown, destroyed]
            exact torn _ _ retiring

theorem change_resume (r : Registry κ) (outcome : Outcome) (frame : Frame κ)
    (below : List (Task κ)) :
    Session.Change r (frame.tasks ++ below) (.finish outcome) (r.resume outcome frame).value.1
      ((r.resume outcome frame).value.2.tasks ++ below) := by
  cases frame with
  | creating key outermost => exact .none _ _
  | exposing key =>
      cases outcome with
      | threw fault => exact .none r.cache r.ledger
      | returned handle => exact .none _ r.ledger
  | disposing key rest => exact .tearOn rfl

end Registry

/-- A move does nothing to the rest of a registry but what is listed. -/
theorem Session.change_of_move? {s t : Session κ} {move : Move κ} (moved : s.move? move = some t) :
    Session.Change s.registry s.pending move t.registry t.pending := by
  cases move with
  | call c =>
      obtain rfl := Option.some.inj moved
      rw [Session.call, Logged.value_map, registry_after, pending_after]
      exact s.registry.change_call s.pending c
  | finish outcome =>
      rcases move?_finish_eq_some_iff.mp moved with ⟨frame, rest, running, rfl⟩
      rw [registry_after, pending_after, pending, running, List.flatMap_cons]
      exact s.registry.change_resume outcome frame (rest.flatMap Frame.tasks)
  | raise cause | attach fault others =>
      obtain rfl := Option.some.inj moved
      exact .none s.registry.cache _

/-- What holds of the registry and the waiting tasks after each change that a move can make holds
after the move. -/
theorem Session.of_change {s t : Session κ} {move : Move κ}
    (holds : Registry κ → List (Task κ) → Prop) (moved : s.move? move = some t)
    (changes : ∀ r' pending', Change s.registry s.pending move r' pending' → holds r' pending') :
    holds t.registry t.pending :=
  changes _ _ (change_of_move? moved)

end Lifecycle
