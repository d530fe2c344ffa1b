import Lifecycle.Proofs.Teardown.Order
import Mathlib.Data.List.Induction

/-!
# Teardowns whose disposals do not call back

While a disposal of a teardown is running, user code may raise faults, attach faults to one another
and let the disposal come back with anything, but it makes no call on the registry
(`Session.Tearing`).  Which disposals are run, in which order and what is left of the registry then
depends on nothing but the registry at the beginning (`Session.Disposes`): it is what the sweep of
the teardown's tasks says (`Session.disposes_of_run`).  As there is one plan only, what is known of
the sweep of a key holds of every plan by which the key is destroyed (`Session.Disposes.nodup_keys`,
`Session.Disposes.before_of_fallsAheadOf`).
-/

namespace Lifecycle

open Log

variable {κ : Type}

namespace Session

/-- A teardown that has been begun by a call, at the moment at which the disposals in a row have
come back: the session as it is then, and what it has replied last. -/
inductive Tearing (s : Session κ) (c : TeardownCall κ) :
    List (Name × κ) → Session κ → Reply κ → Prop where
  | begun : Tearing s c [] (s.call (.teardown c)).value.1 (s.call (.teardown c)).value.2
  /-- A disposal raises a fault of its own. -/
  | raised {ran : List (Name × κ)} {t : Session κ} {callback : κ}
      (running : Tearing s c ran t (.entered .disposal callback)) (cause : Cause) :
      Tearing s c ran (t.raise cause).2 (.entered .disposal callback)
  /-- A disposal attaches faults to a fault. -/
  | attached {ran : List (Name × κ)} {t : Session κ} {callback : κ}
      (running : Tearing s c ran t (.entered .disposal callback)) (fault : Fault)
      (others : List Fault) : Tearing s c ran (t.attach fault others) (.entered .disposal callback)
  /-- A disposal comes back, normally or with a fault. -/
  | disposed {ran : List (Name × κ)} {t t' : Session κ} {key : Name} {callback : κ}
      {rest : List (Task κ)} {outcome : Outcome} {reply : Reply κ}
      (running : Tearing s c ran t (.entered .disposal callback))
      (waiting : t.stack = .disposing key rest :: s.stack)
      (back : (t.finish? outcome).map (·.value) = some (t', reply)) :
      Tearing s c (ran ++ [(key, callback)]) t' reply

/-- Whatever the disposals come to, as long as they do not call the registry: the teardown runs the
disposals of a plan one after the other, is then answered, and leaves the registry as it is said,
but for the ledger of faults. -/
def Disposes (s : Session κ) (c : TeardownCall κ) (plan : List (Name × κ))
    (left : Registry κ) : Prop :=
  ∀ ran t reply, s.Tearing c ran t reply →
    ran = plan ∧ reply = .answered (.ok .done) ∧
        t = ⟨{ left with ledger := t.registry.ledger }, s.stack⟩ ∨
      ∃ key callback later rest, plan = ran ++ (key, callback) :: later ∧
        reply = .entered .disposal callback ∧ t.stack = .disposing key rest :: s.stack

/-- Every part of the plan is reached. -/
theorem Disposes.tearing {s : Session κ} {c : TeardownCall κ} {plan : List (Name × κ)}
    {left : Registry κ} (disposes : s.Disposes c plan left) {ran later : List (Name × κ)}
    (split : plan = ran ++ later) : ∃ t reply, s.Tearing c ran t reply := by
  induction ran using List.reverseRecOn generalizing later with
  | nil => exact ⟨_, _, .begun⟩
  | append_singleton ran entry ih =>
      rw [List.append_assoc] at split
      rcases ih split with ⟨t, reply, running⟩
      rcases disposes _ _ _ running with ⟨rfl, _⟩ | ⟨key, callback, _, rest, next, rfl, waiting⟩
      · simp at split
      · rw [split, List.append_cancel_left_eq] at next
        obtain rfl := (List.cons.inj next).1
        have possible := (move?_finish_isSome_iff t (.returned none)).mpr (by simp [waiting])
        rw [move?, Option.isSome_map] at possible
        rcases Option.isSome_iff_exists.mp possible with ⟨moved, back⟩
        exact ⟨_, _, .disposed running waiting (by rw [back]; rfl)⟩

/-- A teardown has one plan. -/
theorem Disposes.plan_unique {s : Session κ} {c : TeardownCall κ} {plan plan' : List (Name × κ)}
    {left left' : Registry κ} (disposes : s.Disposes c plan left)
    (disposes' : s.Disposes c plan' left') : plan = plan' := by
  rcases disposes.tearing (List.append_nil plan).symm with ⟨t, reply, ended⟩
  rcases disposes' _ _ _ ended with ⟨same, _⟩ | ⟨_, callback, _, _, _, rfl, _⟩
  · exact same
  · rcases disposes _ _ _ ended with ⟨_, answered, _⟩ | ⟨_, _, _, _, longer, _⟩
    · contradiction
    · simp at longer

end Session

/-! ## Teardowns as sweeps -/

namespace Sweep

/-- A session shows how far a sweep has come, above the calls that were waiting before: the sweep
is at its end, or at a disposal. -/
structure ShownBy (w : Sweep κ) (tasks : List (Task κ)) (stack : List (Frame κ)) (t : Session κ)
    (reply : Reply κ) : Prop where
  registry : t.registry = w.registry
  halts : tasks = [] ∧ reply = .answered (.ok .done) ∧ t.stack = stack ∨
    ∃ key callback rest, tasks = .dispose key callback :: rest ∧
      reply = .entered .disposal callback ∧ t.stack = .disposing key rest :: stack

theorem shownBy_teardown (w : Sweep κ) (tasks : List (Task κ)) (stack : List (Frame κ)) :
    ∃ (w' : Sweep κ) (rest : List (Task κ)), w'.ran = w.ran ∧ w'.run rest = w.run tasks ∧
      w'.ShownBy rest stack (Session.after stack (w.registry.teardown tasks).value).1
        (Session.after stack (w.registry.teardown tasks).value).2 := by
  rcases w.follows_teardown tasks with ⟨w', rest, ranEq, runEq, halts⟩
  refine ⟨w', rest, ranEq, runEq, ?_⟩
  rcases halts with ⟨rfl, value⟩ | ⟨key, callback, later, rfl, value⟩
  · rw [value]
    exact ⟨rfl, .inl ⟨rfl, rfl, rfl⟩⟩
  · rw [value]
    exact ⟨rfl, .inr ⟨key, callback, later, rfl, rfl, rfl⟩⟩

end Sweep

namespace Session

/-- A teardown that begins with some tasks runs the disposals that the sweep of these tasks runs,
and leaves what the sweep leaves. -/
theorem disposes_of_run {s : Session κ} {c : TeardownCall κ} {r : Registry κ}
    {tasks : List (Task κ)}
    (begins : (s.registry.callTeardown c).value = (r.teardown tasks).value) :
    s.Disposes c (Sweep.run { registry := r } tasks).ran
      (Sweep.run { registry := r } tasks).registry := by
  generalize planned : Sweep.run { registry := r } tasks = final
  -- The ledger is the user's as much as the registry's, and is left aside.
  have shown : ∀ ran t reply, s.Tearing c ran t reply → ∃ (w : Sweep κ) (rest : List (Task κ)),
      w.ran = ran ∧ (w.run rest).withLedger final.registry.ledger = final ∧
        w.ShownBy rest s.stack t reply := by
    intro ran t reply tearing
    induction tearing with
    | begun =>
        rcases Sweep.shownBy_teardown { registry := r } tasks s.stack with
          ⟨w, rest, ranEq, runEq, shown⟩
        refine ⟨w, rest, ranEq, ?_, ?_⟩
        · rw [runEq, planned]
          rfl
        · simpa only [call, Registry.call, Logged.value_map, begins] using shown
    | raised _ cause ih =>
        rcases ih with ⟨w, rest, ranEq, runEq, ⟨registry, halts⟩⟩
        refine ⟨w.withLedger (w.registry.ledger.raise cause).2, rest, ranEq, ?_, ?_, halts⟩
        · rw [Sweep.run_withLedger]
          exact runEq
        · simp only [raise, registry]
          rfl
    | attached _ fault others ih =>
        rcases ih with ⟨w, rest, ranEq, runEq, ⟨registry, halts⟩⟩
        refine ⟨w.withLedger (w.registry.ledger.attach fault others), rest, ranEq, ?_, ?_, halts⟩
        · rw [Sweep.run_withLedger]
          exact runEq
        · simp only [attach, registry]
          rfl
    | @disposed _ t t' key callback later outcome reply _ waiting back ih =>
        rcases ih with ⟨w, rest, rfl, runEq, ⟨registry, halts⟩⟩
        rcases halts with ⟨_, answered, _⟩ | ⟨key', callback', later', rfl, entered, waiting'⟩
        · contradiction
        · obtain rfl : callback = callback' := (Reply.entered.inj entered).2
          rw [waiting] at waiting'
          rcases Frame.disposing.inj (List.cons.inj waiting').1 with ⟨rfl, rfl⟩
          have resumed : (t', reply) =
              after s.stack (w.registry.teardown later).value := by
            simp only [finish?, waiting, registry, Option.map_some, Logged.value_map] at back
            exact (Option.some.inj back).symm
          rcases Sweep.shownBy_teardown { w with ran := w.ran ++ [(key, callback)] } later
            s.stack with ⟨w', rest', ranEq, runEq', shown⟩
          refine ⟨w', rest', ranEq, ?_, ?_⟩
          · rw [Sweep.run_dispose] at runEq
            rw [runEq']
            exact runEq
          · rw [← resumed] at shown
            exact shown
  intro ran t reply tearing
  rcases shown ran t reply tearing with ⟨w, rest, rfl, runEq, ⟨registry, halts⟩⟩
  rcases halts with ⟨rfl, rfl, waiting⟩ | ⟨key, callback, later, rfl, rfl, waiting⟩
  · left
    rw [Sweep.run_nil] at runEq
    refine ⟨?_, rfl, ?_⟩
    · rw [← runEq]
      rfl
    · rw [← runEq, ← waiting]
      simp only [Sweep.withLedger, ← registry]
  · right
    rw [Sweep.run_dispose] at runEq
    rcases Sweep.ran_prefix_run { w with ran := w.ran ++ [(key, callback)] } later with
      ⟨more, begun⟩
    refine ⟨key, callback, more, later, ?_, rfl, waiting⟩
    rw [List.append_assoc] at begun
    rw [← runEq]
    exact begun.symm

/-! ## Destroying one key -/

/-- Destroying a key runs the disposals that the sweep of the key runs. -/
theorem disposes_destroy (s : Session κ) (key : Name) :
    s.Disposes (.destroy key) (Sweep.run { registry := s.registry } [.destroy key]).ran
      (Sweep.run { registry := s.registry } [.destroy key]).registry :=
  disposes_of_run rfl

namespace Disposes

variable {s : Session κ} {key : Name} {plan : Disposals κ} {left : Registry κ}

theorem nodup_keys (disposes : s.Disposes (.destroy key) plan left)
    (distinct : s.registry.disposals.keys.Nodup) : plan.keys.Nodup := by
  obtain rfl := disposes.plan_unique (disposes_destroy s key)
  exact (Sweep.keeps_run distinct [key]).accounts.nodup_ran

/-- What falls ahead of a key is disposed of before it whenever the key is destroyed. -/
theorem before_of_fallsAheadOf (disposes : s.Disposes (.destroy key) plan left)
    (distinct : s.registry.disposals.keys.Nodup) {name : Name}
    (ahead : s.registry.graph.FallsAheadOf name key) (differ : name ≠ key)
    (registered : name ∈ s.registry.disposals.keys)
    (registered' : key ∈ s.registry.disposals.keys) : plan.Before name key := by
  obtain rfl := disposes.plan_unique (disposes_destroy s key)
  exact Sweep.before_of_fallsAheadOf distinct ahead differ registered registered'

end Disposes

end Session

end Lifecycle
