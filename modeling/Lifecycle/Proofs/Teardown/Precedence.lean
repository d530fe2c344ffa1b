import Lifecycle.Proofs.Teardown.Undisturbed

/-!
# Dependents first

A dependent is meant to be disposed of before what it depends on.  When everything is destroyed and
nothing is contained in anything, this is so, circles aside, and otherwise the disposals run in the
reverse of the order in which they were registered (`Session.destroyAll_reverses_registration`).

Containment breaks the rule.  The disposal of a key waits while the dependents of the key are
destroyed, and when one of these is done, what it contains is destroyed at once, whether the key
that waits depends on it or not.  `Session.dependent_first_iff_uncontained` says for which pairs the
rule holds whichever key is destroyed.
-/

namespace Lifecycle

open Log

variable {κ : Type}

namespace Sweep

/-- Forgetting everything at the end runs no disposal. -/
theorem run_forgetAll (w : Sweep κ) :
    w.run [.forgetAll] =
      { w with registry :=
        { w.registry with graph := {}, cache := w.registry.cache.clear } } := by
  rw [run_cons, perform]
  simp [Registry.perform, Task.opened?, Task.disposal?]

variable {r : Registry κ} {starts : List Name}

/-- Each key that was to be destroyed has been disposed of, if it had a disposal. -/
theorem Keeps.ran_of_started {w : Sweep κ} (keeps : Keeps r starts w []) {key : Name}
    (started : key ∈ starts) (registered : key ∈ r.disposals.keys) :
    key ∈ Disposals.keys w.ran := by
  have opened := (keeps.explores.started started).resolve_right List.not_mem_nil
  rcases Disposals.mem_keys_iff.mp registered with ⟨callback, member⟩
  exact Disposals.mem_keys_of_mem (keeps.accounts.mem_ran_iff.mpr ⟨member, opened⟩)

/-- What is disposed of before a key falls with this key, or with one that was to be destroyed
before it. -/
theorem fallsWith_of_before (distinct : r.disposals.keys.Nodup) {upTo rest : List Name}
    {first second : Name} (started : second ∈ upTo) (registered : second ∈ r.disposals.keys)
    (before : Disposals.Before
      (run { registry := r } ((upTo ++ rest).map .destroy)).ran first second) :
    ∃ start ∈ upTo, r.graph.FallsWith first start := by
  have once := (keeps_run distinct (upTo ++ rest)).accounts.nodup_ran
  have keeps := keeps_run distinct upTo
  have second_ran := keeps.ran_of_started started registered
  rw [List.map_append, run_append] at before once
  rcases ran_prefix_run (run { registry := r } (upTo.map .destroy)) (rest.map .destroy) with
    ⟨more, longer⟩
  have first_ran : first ∈ Disposals.keys (run { registry := r } (upTo.map .destroy)).ran := by
    have ran := before.subset List.mem_cons_self
    rw [← longer, Disposals.keys, List.map_append, List.mem_append] at ran
    rcases ran with early | late
    · exact early
    · rw [← longer] at before once
      have after := Disposals.before_append second_ran late
      exact absurd after (Disposals.not_before_of_before once before)
  rcases Disposals.mem_keys_iff.mp first_ran with ⟨callback, ran⟩
  exact keeps.explores.opened_iff.mp (keeps.accounts.mem_ran_iff.mp ran).2

end Sweep

namespace Session

/-! ## Destroying everything -/

/-- Destroying everything destroys the keys that have a disposal, the newest first. -/
theorem disposes_destroyAll (s : Session κ) :
    let r : Registry κ :=
      { s.registry with cache := { s.registry.cache with inDestruction := true } }
    let swept := Sweep.run { registry := r } (s.registry.disposals.keys.reverse.map .destroy)
    s.Disposes .destroyAll swept.ran
      { swept.registry with graph := {}, cache := swept.registry.cache.clear } := by
  intro r swept
  have begins : (s.registry.callTeardown .destroyAll).value =
      (r.teardown (s.registry.disposals.keys.reverse.map .destroy ++ [.forgetAll])).value := rfl
  have disposes := disposes_of_run begins
  rwa [Sweep.run_append, Sweep.run_forgetAll] at disposes

/-- Without containment, destroying everything runs the disposal that was registered last for each
key, each of them once, and leaves none.  A dependent is disposed of before what it depends on,
unless that depends on the dependent in its turn; and a key that was registered before another one
is disposed of before it only if it depends on this one or on a key that was registered later
still. -/
theorem destroyAll_reverses_registration {s : Session κ} {registrations : List (Name × κ)}
    (registered : s.registry.disposals = Disposals.ofRegistrations registrations)
    (uncontained : ∀ outer inner, inner ∉ s.registry.graph.contained.of outer) :
    let names := registrations.map Prod.fst
    ∃ (plan : Disposals κ) (left : Registry κ),
      s.Disposes .destroyAll plan left ∧ left.disposals = [] ∧
        (plan.keys.Nodup ∧ ∀ key callback,
          (key, callback) ∈ plan ↔ NameMap.lookup key registrations.reverse = some callback) ∧
        (∀ key dependent, dependent ∈ s.registry.graph.dependents.of key →
          ¬ s.registry.graph.DependsOn key dependent → key ∈ names → dependent ∈ names →
            plan.Before dependent key) ∧
        ∀ first second, second ∈ names → names.idxOf first < names.idxOf second →
          plan.Before first second →
            ∃ later ∈ names, names.idxOf second ≤ names.idxOf later ∧
              s.registry.graph.DependsOn first later := by
  intro names
  let r : Registry κ :=
    { s.registry with cache := { s.registry.cache with inDestruction := true } }
  have distinct : r.disposals.keys.Nodup := by
    change s.registry.disposals.keys.Nodup
    rw [registered]
    exact Disposals.nodup_keys_ofRegistrations registrations
  have mem_names : ∀ name, name ∈ r.disposals.keys ↔ name ∈ names := by
    intro name
    change name ∈ s.registry.disposals.keys ↔ _
    rw [registered]
    exact Disposals.mem_keys_ofRegistrations registrations name
  have starts : ∀ name, name ∈ r.disposals.keys.reverse ↔ name ∈ r.disposals.keys :=
    fun _ => List.mem_reverse
  have keeps := Sweep.keeps_run distinct r.disposals.keys.reverse
  have opened : ∀ name ∈ r.disposals.keys,
      name ∈ (Sweep.run { registry := r } (r.disposals.keys.reverse.map .destroy)).opened := by
    intro name listed
    exact (keeps.explores.started ((starts name).mpr listed)).resolve_right List.not_mem_nil
  refine ⟨_, _, disposes_destroyAll s, ?none, ⟨keeps.accounts.nodup_ran, ?once⟩, ?dependents,
    ?reverse⟩
  case none =>
    change Registry.disposals (Sweep.registry _) = []
    rw [keeps.accounts.remaining, List.filter_eq_nil_iff]
    intro entry member
    simpa using opened entry.1 (Disposals.mem_keys_of_mem member)
  case once =>
    intro key callback
    rw [keeps.accounts.mem_ran_iff, ← Disposals.callback?_ofRegistrations, ← registered]
    constructor
    · rintro ⟨member, _⟩
      exact Disposals.callback?_of_mem distinct member
    · intro found
      have member := Disposals.mem_of_callback? found
      exact ⟨member, opened key (Disposals.mem_keys_of_mem member)⟩
  case dependents =>
    intro key dependent depends independent member member'
    have ran := keeps.ran_of_started ((starts key).mpr ((mem_names key).mpr member))
      ((mem_names key).mpr member)
    have ran' := keeps.ran_of_started ((starts dependent).mpr ((mem_names dependent).mpr member'))
      ((mem_names dependent).mpr member')
    rcases keeps.before_or_fallsAheadOf depends ran ran' with before | falls
    · exact before
    · exact absurd (falls.dependsOn uncontained) independent
  case reverse =>
    intro first second member less before
    have listed := (mem_names second).mpr member
    have order : r.disposals.keys.Pairwise fun earlier later =>
        names.idxOf earlier < names.idxOf later := by
      change s.registry.disposals.keys.Pairwise _
      rw [registered]
      exact Disposals.firstRegistered_order registrations
    rcases List.append_of_mem listed with ⟨earlier, later, split⟩
    -- Until the second key is destroyed, only keys that were registered after it have been.
    have upTo : r.disposals.keys.reverse = (later.reverse ++ [second]) ++ earlier.reverse := by
      rw [split, List.reverse_append, List.reverse_cons]
    have notEarlier : ∀ start ∈ later.reverse ++ [second],
        start ∈ names ∧ names.idxOf second ≤ names.idxOf start := by
      intro start started
      rw [← mem_names, split]
      rw [split] at order
      have after := (List.pairwise_cons.mp (List.pairwise_append.mp order).2.1).1
      rcases List.mem_append.mp started with started | started
      · have started := List.mem_reverse.mp started
        exact ⟨List.mem_append_right _ (List.mem_cons_of_mem _ started),
          Nat.le_of_lt (after start started)⟩
      · obtain rfl := List.mem_singleton.mp started
        exact ⟨List.mem_append_right _ List.mem_cons_self, Nat.le_refl _⟩
    change Disposals.Before
      (Sweep.run { registry := r } (r.disposals.keys.reverse.map .destroy)).ran _ _ at before
    rw [upTo] at before
    rcases Sweep.fallsWith_of_before distinct (List.mem_append_right _ List.mem_cons_self) listed
      before with ⟨start, started, falls⟩
    rcases notEarlier start started with ⟨startNamed, notEarlier⟩
    rcases falls.eq_or_dependsOn uncontained with rfl | depends
    · omega
    · exact ⟨start, startNamed, notEarlier, depends⟩

/-- The disposal of one key is replaced after that of another has been registered, and the first
one depends on the second: both run, the first key is disposed of first although it was registered
first, and it is the replacement that runs. -/
theorem dependent_disposed_of_first :
    ∃ s : Session Nat,
      (begin "default" true {}).moves? [.call (.teardown (.registerDisposal "service" (some 1))),
        .call (.teardown (.registerDisposal "db" (some 2))),
        .call (.teardown (.registerDisposal "service" (some 3))),
        .call (.graph (.addDependency "db" "service"))] = some s ∧
      ∃ (plan : Disposals Nat) (left : Registry Nat),
        s.Disposes .destroyAll plan left ∧ left.disposals = [] ∧ ("service", 3) ∈ plan ∧
          plan.Before "service" "db" := by
  have run : ((begin (κ := Nat) "default" true {}).moves? [
        .call (.teardown (.registerDisposal "service" (some 1))),
        .call (.teardown (.registerDisposal "db" (some 2))),
        .call (.teardown (.registerDisposal "service" (some 3))),
        .call (.graph (.addDependency "db" "service"))]).map
      (fun s => (s.registry.disposals, s.registry.graph.contained,
        (s.registry.graph.dependents.of "db").contains "service",
        NameMap.find? s.registry.graph.dependents "service")) =
      some ([("service", 3), ("db", 2)], ∅, true, none) := by
    decide +kernel
  rcases Option.map_eq_some_iff.mp run with ⟨s, moved, facts⟩
  simp only [Prod.mk.injEq] at facts
  rcases facts with ⟨registered, uncontained, depends, independent⟩
  have uncontained : ∀ outer inner, inner ∉ s.registry.graph.contained.of outer := by
    intro outer inner
    rw [uncontained]
    exact NameMap.not_mem_empty inner
  have independent : ¬ s.registry.graph.DependsOn "db" "service" := by
    intro back
    rcases Relation.TransGen.head'_iff.mp back with ⟨next, supports, _⟩
    rw [EdgeMap.of_eq_empty independent] at supports
    exact NameMap.not_mem_empty next supports
  have registered : s.registry.disposals =
      Disposals.ofRegistrations [("service", 1), ("db", 2), ("service", 3)] := registered
  rcases destroyAll_reverses_registration registered uncontained with
    ⟨plan, left, disposes, none, ⟨_, once⟩, dependents, _⟩
  exact ⟨s, moved, plan, left, disposes, none, (once "service" 3).mpr rfl,
    dependents "db" "service" depends independent (by simp) (by simp)⟩

/-! ## Destroying one key -/

/-- Let one instance depend on another, and no instance on itself.  Whichever key is destroyed, the
dependent is disposed of first, exactly if no instance that depends on the dependent, directly or
through others, contains an instance with which the other one falls. -/
theorem dependent_first_iff_uncontained {s : Session κ} {name : Name} {allowOverriding : Bool}
    {ledger : Ledger} (reached : (begin name allowOverriding ledger).Reaches s)
    (acyclic : ∀ key, ¬ s.registry.graph.DependsOn key key) {key dependent : Name}
    (depends : dependent ∈ s.registry.graph.dependents.of key)
    (registered : key ∈ s.registry.disposals.keys)
    (registered' : dependent ∈ s.registry.disposals.keys) :
    (∀ start, ∃ (plan : Disposals κ) (left : Registry κ),
        s.Disposes (.destroy start) plan left ∧
          (key ∈ plan.keys → dependent ∈ plan.keys → plan.Before dependent key)) ↔
      ¬ ∃ outer inner, s.registry.graph.DependsOn outer dependent ∧
        inner ∈ s.registry.graph.contained.of outer ∧ s.registry.graph.FallsWith key inner := by
  have distinct := distinct_of_reaches reached
  constructor
  · rintro first ⟨outer, inner, further, contains, falls⟩
    have ahead : s.registry.graph.FallsAheadOf key dependent :=
      (further.fallsAheadOf.dragged (.inr contains)).trans falls
    have differ : key ≠ dependent := by
      rintro rfl
      exact acyclic key (.single depends)
    -- Destroying the dependent itself shows the wrong order.
    rcases first dependent with ⟨plan, left, disposes, first⟩
    have after := disposes.before_of_fallsAheadOf distinct ahead differ registered registered'
    have once := disposes.nodup_keys distinct
    have before := first (after.subset List.mem_cons_self)
      (after.subset (List.mem_cons_of_mem _ List.mem_cons_self))
    exact Disposals.not_before_of_before once before after
  · intro uncontained start
    refine ⟨_, _, disposes_destroy s start, ?_⟩
    intro ran ran'
    rcases (Sweep.keeps_run distinct [start]).before_or_fallsAheadOf depends ran ran' with
      before | ahead
    · exact before
    · rcases ahead.dependsOn_or_contained with back | contained
      · exact absurd (.head depends back) (acyclic key)
      · exact absurd contained uncontained

/-- A key is disposed of after its dependent also when an instance that is destroyed contains the
key, as long as that instance has nothing to do with the dependent. -/
theorem contained_disposed_of_last :
    ∃ s : Session Nat,
      (begin "default" true {}).moves? [.call (.teardown (.registerDisposal "core" (some 1))),
        .call (.teardown (.registerDisposal "hub" (some 2))),
        .call (.graph (.addDependency "core" "hub")),
        .call (.graph (.addContainment "core" "user"))] = some s ∧
      ∃ (plan : Disposals Nat) (left : Registry Nat),
        s.Disposes (.destroy "user") plan left ∧
          ("core" ∈ plan.keys → "hub" ∈ plan.keys → plan.Before "hub" "core") := by
  have run : ((begin (κ := Nat) "default" true {}).moves? [
        .call (.teardown (.registerDisposal "core" (some 1))),
        .call (.teardown (.registerDisposal "hub" (some 2))),
        .call (.graph (.addDependency "core" "hub")),
        .call (.graph (.addContainment "core" "user"))]).map
      (fun s => (s.registry.disposals, (s.registry.graph.dependents.of "core").contains "hub",
        NameMap.find? s.registry.graph.dependents "hub",
        decide (∀ entry ∈ s.registry.graph.dependents.entries, ∀ name ∈ entry.2.keys,
          entry.1 < name))) =
      some ([("core", 1), ("hub", 2)], true, none, true) := by
    decide +kernel
  rcases Option.map_eq_some_iff.mp run with ⟨s, moved, facts⟩
  simp only [Prod.mk.injEq, decide_eq_true_eq] at facts
  rcases facts with ⟨registered, depends, undependent, ascending⟩
  have registeredCore : "core" ∈ s.registry.disposals.keys := by simp [registered, Disposals.keys]
  have registeredHub : "hub" ∈ s.registry.disposals.keys := by simp [registered, Disposals.keys]
  refine ⟨s, moved, ?_⟩
  apply (dependent_first_iff_uncontained ⟨_, moved⟩ (Graph.acyclic_of_ascending ascending) depends
    registeredCore registeredHub).mpr
  rintro ⟨outer, inner, further, _⟩
  rcases Relation.TransGen.head'_iff.mp further with ⟨next, supports, _⟩
  rw [EdgeMap.of_eq_empty undependent] at supports
  exact NameMap.not_mem_empty next supports

/-- A hub depends on a core, and a user of the hub contains the core; nothing depends on itself.
When the hub is destroyed the user goes first, and takes the core with it before the hub has been
disposed of. -/
theorem core_disposed_of_before_hub :
    ∃ s : Session Nat,
      (begin "default" true {}).moves? [.call (.teardown (.registerDisposal "core" (some 1))),
        .call (.teardown (.registerDisposal "hub" (some 2))),
        .call (.graph (.addDependency "core" "hub")), .call (.graph (.addDependency "hub" "user")),
        .call (.graph (.addContainment "core" "user"))] = some s ∧
      (∀ key, ¬ s.registry.graph.DependsOn key key) ∧
      "hub" ∈ s.registry.graph.dependents.of "core" ∧
      ∃ (plan : Disposals Nat) (left : Registry Nat),
        s.Disposes (.destroy "hub") plan left ∧ plan = [("core", 1), ("hub", 2)] ∧
          ¬ plan.Before "hub" "core" := by
  have run : ((begin (κ := Nat) "default" true {}).moves? [
        .call (.teardown (.registerDisposal "core" (some 1))),
        .call (.teardown (.registerDisposal "hub" (some 2))),
        .call (.graph (.addDependency "core" "hub")), .call (.graph (.addDependency "hub" "user")),
        .call (.graph (.addContainment "core" "user"))]).map
      (fun s => ((s.registry.graph.dependents.of "core").contains "hub",
        decide (∀ entry ∈ s.registry.graph.dependents.entries, ∀ name ∈ entry.2.keys,
          entry.1 < name),
        (Sweep.run { registry := s.registry } [.destroy "hub"]).ran)) =
      some (true, true, [("core", 1), ("hub", 2)]) := by
    decide +kernel
  rcases Option.map_eq_some_iff.mp run with ⟨s, moved, facts⟩
  simp only [Prod.mk.injEq, decide_eq_true_eq] at facts
  rcases facts with ⟨depends, ascending, ran⟩
  have wrongOrder : ¬ Disposals.Before [("core", 1), ("hub", 2)] "hub" "core" := by
    rw [Disposals.Before]
    decide
  exact ⟨s, moved, Graph.acyclic_of_ascending ascending, depends, _, _, disposes_destroy s "hub",
    ran, ran ▸ wrongOrder⟩

end Session

end Lifecycle
