import Lifecycle.Proofs.Teardown.Undisturbed

/-!
# What is left after a key has been destroyed

Destroying a key tears down the keys that fall with it, as the graph was at the beginning, and
leaves everything else as it was (`Session.destroy_tears_down_closure`).
-/

namespace Lifecycle

open Log

variable {κ : Type}

/-! ## Eviction of several keys -/

theorem NameMap.find?_foldl_erase {α : Type} (m : NameMap α) (keys : List Name) (key : Name) :
    (keys.foldl NameMap.erase m).find? key = if key ∈ keys then none else m.find? key := by
  induction keys generalizing m with
  | nil => simp
  | cons first keys ih =>
      rw [List.foldl_cons, ih, find?_erase]
      by_cases later : key ∈ keys <;> by_cases here : key = first <;> simp [later, here]

namespace Cache

/-- Forget keys one after the other. -/
def evictAll (c : Cache κ) (keys : List Name) : Cache κ := keys.foldl evict c

theorem evictAll_eq (c : Cache κ) (keys : List Name) :
    c.evictAll keys =
      { c with
        finalized := keys.foldl NameMap.erase c.finalized
        early := keys.foldl NameMap.erase c.early
        pending := keys.foldl NameMap.erase c.pending
        registered := c.registered.filter fun key => key ∉ keys } := by
  induction keys generalizing c with
  | nil => simp [evictAll]
  | cons key keys ih =>
      change (c.evict key).evictAll keys = _
      rw [ih]
      simp only [evict, dropPartial, unlist, List.foldl_cons, List.filter_filter, Cache.mk.injEq,
        and_self, and_true, true_and]
      apply List.filter_congr
      intro name _
      by_cases same : name = key <;> simp [same]

end Cache

/-! ## What a teardown removes -/

/-- What is left of a registry when some keys have been torn down, and nothing else has happened to
it. -/
structure Registry.TornDown (r : Registry κ) (torn : List Name) (left : Registry κ) : Prop where
  finalized (key : Name) : left.cache.finalized.find? key =
    if key ∈ torn then none else r.cache.finalized.find? key
  early (key : Name) : left.cache.early.find? key =
    if key ∈ torn then none else r.cache.early.find? key
  pending (key : Name) : left.cache.pending.find? key =
    if key ∈ torn then none else r.cache.pending.find? key
  registered : left.cache.registered = r.cache.registered.filter fun key => key ∉ torn
  disposals : left.disposals = r.disposals.filter fun entry => entry.1 ∉ torn
  no_edges {key : Name} (member : key ∈ torn) :
    key ∉ left.graph.dependents ∧ key ∉ left.graph.contained ∧ key ∉ left.graph.dependencies ∧
      ∀ source, key ∉ left.graph.dependents.of source
  dependents {key name : Name} (outside : key ∉ torn) (outside' : name ∉ torn) :
    name ∈ left.graph.dependents.of key ↔ name ∈ r.graph.dependents.of key
  contained {key name : Name} (outside : key ∉ torn) (outside' : name ∉ torn) :
    name ∈ left.graph.contained.of key ↔ name ∈ r.graph.contained.of key
  dependencies {key : Name} (outside : key ∉ torn) :
    left.graph.dependencies.of key = r.graph.dependencies.of key
  others : left.name = r.name ∧ left.aliases = r.aliases ∧ left.destroyed = r.destroyed
  creations : left.cache.tracker = r.cache.tracker ∧ left.cache.suppressed = r.cache.suppressed ∧
    left.cache.inDestruction = r.cache.inDestruction

namespace Sweep

/-- How a sweep stands to the registry as it was at the beginning: what it has removed of the keys
that it has opened, or is about to remove. -/
structure Clears (r : Registry κ) (w : Sweep κ) (tasks : List (Task κ)) : Prop where
  cache : w.registry.cache = r.cache.evictAll w.opened
  others : w.registry.name = r.name ∧ w.registry.aliases = r.aliases ∧
    w.registry.destroyed = r.destroyed
  dependents {key : Name} (opened : key ∈ w.opened) :
    NameMap.find? w.registry.graph.dependents key = none
  contained {key : Name} (opened : key ∈ w.opened) :
    NameMap.find? w.registry.graph.contained key = none ∨ .destroyContained key ∈ tasks
  scrubbed {key : Name} (opened : key ∈ w.opened) :
    NameMap.find? w.registry.graph.dependencies key = none ∧
        (∀ source, key ∉ w.registry.graph.dependents.of source) ∨
      .scrub key ∈ tasks
  dependencies {key : Name} (closed : key ∉ w.opened) :
    NameMap.find? w.registry.graph.dependencies key = NameMap.find? r.graph.dependencies key

namespace Clears

variable {r : Registry κ} {starts : List Name} {w : Sweep κ} {rest : List (Task κ)} {key : Name}

theorem begin (r : Registry κ) (tasks : List (Task κ)) : Clears r { registry := r } tasks where
  cache := rfl
  others := ⟨rfl, rfl, rfl⟩
  dependents opened := absurd opened List.not_mem_nil
  contained opened := absurd opened List.not_mem_nil
  scrubbed opened := absurd opened List.not_mem_nil
  dependencies _ := rfl

theorem destroy (clears : Clears r w (.destroy key :: rest)) :
    Clears r (w.perform (.destroy key)).2 ((w.perform (.destroy key)).1 ++ rest) := by
  rw [perform_destroy]
  constructor
  case cache =>
    change w.registry.cache.evict key = r.cache.evictAll (w.opened ++ [key])
    rw [clears.cache, Cache.evictAll, Cache.evictAll, List.foldl_append]
    rfl
  case others => exact clears.others
  case dependents =>
    intro name opened
    change NameMap.find? (NameMap.erase w.registry.graph.dependents key) name = none
    rw [NameMap.find?_erase]
    split
    · rfl
    · rename_i differ
      rcases List.mem_append.mp opened with opened | last
      · exact clears.dependents opened
      · exact absurd (List.mem_singleton.mp last) differ
  case contained =>
    intro name opened
    rcases List.mem_append.mp opened with opened | last
    · exact (clears.contained opened).imp_right fun due => Task.still_due due (by simp) _
    · exact .inr (List.mem_append_left _ (by simpa using last))
  case scrubbed =>
    intro name opened
    rcases List.mem_append.mp opened with opened | last
    · refine (clears.scrubbed opened).imp ?_ ?_
      · rintro ⟨independent, undependent⟩
        exact ⟨independent, fun source depends =>
          undependent source (EdgeMap.mem_of_erase.mp depends).2⟩
      · intro due
        exact Task.still_due due nofun _
    · exact .inr (List.mem_append_left _ (by simpa using last))
  case dependencies =>
    intro name closed
    exact clears.dependencies fun opened => closed (List.mem_append_left _ opened)

theorem dispose {callback : κ} (clears : Clears r w (.dispose key callback :: rest)) :
    Clears r (w.perform (.dispose key callback)).2
      ((w.perform (.dispose key callback)).1 ++ rest) := by
  rw [perform_dispose]
  constructor
  case cache => exact clears.cache
  case others => exact clears.others
  case dependents => exact clears.dependents
  case contained =>
    intro name opened
    simpa using clears.contained opened
  case scrubbed =>
    intro name opened
    simpa using clears.scrubbed opened
  case dependencies => exact clears.dependencies

theorem destroyContained (clears : Clears r w (.destroyContained key :: rest)) :
    Clears r (w.perform (.destroyContained key)).2
      ((w.perform (.destroyContained key)).1 ++ rest) := by
  rw [perform_destroyContained]
  constructor
  case cache => exact clears.cache
  case others => exact clears.others
  case dependents => exact clears.dependents
  case contained =>
    intro name opened
    change NameMap.find? (NameMap.erase w.registry.graph.contained key) name = none ∨ _
    rw [NameMap.find?_erase]
    split
    · exact .inl rfl
    · rename_i differ
      exact (clears.contained opened).imp_right fun due =>
        Task.still_due due (by simpa using differ) _
  case scrubbed =>
    intro name opened
    exact (clears.scrubbed opened).imp_right fun due => Task.still_due due (by simp) _
  case dependencies => exact clears.dependencies

theorem scrub (keyOpened : key ∈ w.opened) (clears : Clears r w (.scrub key :: rest)) :
    Clears r (w.perform (.scrub key)).2 ((w.perform (.scrub key)).1 ++ rest) := by
  rw [perform_scrub]
  constructor
  case cache => exact clears.cache
  case others => exact clears.others
  case dependents =>
    intro name opened
    exact EdgeMap.find?_withoutTarget_eq_none (clears.dependents opened)
  case contained =>
    intro name opened
    simpa [Graph.scrub] using clears.contained opened
  case scrubbed =>
    intro name opened
    by_cases same : name = key
    · subst same
      left
      refine ⟨NameMap.find?_erase_self _ _, ?_⟩
      intro source depends
      exact (EdgeMap.mem_of_withoutTarget.mp depends).1 rfl
    · refine (clears.scrubbed opened).imp ?_ ?_
      · rintro ⟨independent, undependent⟩
        constructor
        · change NameMap.find? (NameMap.erase w.registry.graph.dependencies key) name = none
          rw [NameMap.find?_erase, if_neg same, independent]
        · intro source depends
          exact undependent source (EdgeMap.mem_of_withoutTarget.mp depends).2
      · intro due
        exact List.mem_of_ne_of_mem (by simpa using same) due
  case dependencies =>
    intro name closed
    change NameMap.find? (NameMap.erase w.registry.graph.dependencies key) name = _
    have differ : name ≠ key := by
      rintro rfl
      exact closed keyOpened
    rw [NameMap.find?_erase, if_neg differ]
    exact clears.dependencies closed

theorem step (explores : Explores r.graph starts w (task :: rest))
    (clears : Clears r w (task :: rest)) :
    Clears r (w.perform task).2 ((w.perform task).1 ++ rest) := by
  cases task with
  | destroy key => exact clears.destroy
  | dispose key callback => exact clears.dispose
  | destroyContained key => exact clears.destroyContained
  | scrub key => exact clears.scrub (explores.about _ List.mem_cons_self)
  | forgetAll | markDestroyed => exact absurd (explores.about _ List.mem_cons_self) id

end Clears

/-- A sweep that destroys keys leaves the registry without what falls with them. -/
theorem tornDown_run {r : Registry κ} (distinct : r.disposals.keys.Nodup) (starts : List Name) :
    r.TornDown (run { registry := r } (starts.map .destroy)).opened
      (run { registry := r } (starts.map .destroy)).registry := by
  have cleared : Explores r.graph starts (run { registry := r } (starts.map .destroy)) [] ∧
      Clears r (run { registry := r } (starts.map .destroy)) [] := by
    apply @invariant κ fun w tasks => Explores r.graph starts w tasks ∧ Clears r w tasks
    · rintro w task rest ⟨explores, clears⟩
      exact ⟨explores.step, clears.step explores⟩
    · rw [List.append_nil]
      exact ⟨.begin r starts, .begin r _⟩
  have remaining := (keeps_run distinct starts).accounts.remaining
  revert cleared remaining
  generalize run { registry := r } (starts.map .destroy) = w
  rintro ⟨explores, clears⟩ remaining
  have cache := clears.cache
  rw [Cache.evictAll_eq] at cache
  constructor
  case finalized =>
    intro key
    rw [cache]
    exact NameMap.find?_foldl_erase _ _ key
  case early =>
    intro key
    rw [cache]
    exact NameMap.find?_foldl_erase _ _ key
  case pending =>
    intro key
    rw [cache]
    exact NameMap.find?_foldl_erase _ _ key
  case registered => rw [cache]
  case disposals => exact remaining
  case no_edges =>
    intro key opened
    have uncontained := (clears.contained opened).resolve_right List.not_mem_nil
    rcases (clears.scrubbed opened).resolve_right List.not_mem_nil with
      ⟨independent, undependent⟩
    simp only [NameMap.mem_iff_isSome, clears.dependents opened, uncontained, independent]
    exact ⟨Bool.false_ne_true, Bool.false_ne_true, Bool.false_ne_true, undependent⟩
  case dependents =>
    intro key name closed closed'
    constructor
    · exact explores.dependents_subset
    · intro depends
      rcases explores.follows_dependent depends with opened | ⟨opened, _⟩ | ⟨_, kept⟩
      · exact absurd opened closed'
      · exact absurd opened closed
      · exact kept
  case contained =>
    intro key name closed closed'
    constructor
    · exact explores.contained_subset
    · intro contains
      rcases explores.follows_contained contains with opened | due | ⟨kept, _⟩
      · exact absurd opened closed'
      · contradiction
      · exact kept
  case dependencies =>
    intro key closed
    rw [EdgeMap.of, EdgeMap.of, clears.dependencies closed]
  case others => exact clears.others
  case creations =>
    rw [cache]
    exact ⟨rfl, rfl, rfl⟩

end Sweep

namespace Session

/-- Destroying a key, with disposals that do not call the registry, tears down the keys that fall
with it, runs their disposals and no others, and does nothing else. -/
theorem exists_tornDown {s : Session κ} {name : Name} {allowOverriding : Bool} {ledger : Ledger}
    (reached : (begin name allowOverriding ledger).Reaches s) (key : Name) :
    ∃ (torn : List Name) (plan : Disposals κ) (left : Registry κ),
      (∀ k, k ∈ torn ↔ s.registry.graph.FallsWith k key) ∧
        s.Disposes (.destroy key) plan left ∧
        (∀ k callback, (k, callback) ∈ plan ↔
          (k, callback) ∈ s.registry.disposals ∧ k ∈ torn) ∧
        s.registry.TornDown torn left := by
  have distinct := distinct_of_reaches reached
  have keeps := Sweep.keeps_run distinct [key]
  refine ⟨_, _, _, ?closure, disposes_destroy s key, ?once, Sweep.tornDown_run distinct [key]⟩
  case closure =>
    intro k
    apply keeps.explores.opened_iff.trans
    simp
  case once =>
    intro k callback
    exact keeps.accounts.mem_ran_iff

/-- Destroying a key, with disposals that do not call the registry, comes to its end on any graph.
It tears down the keys that fall with the key, as the graph is at the beginning: it runs the
disposal of each of them once and no other disposal, that of the key after those of all other names
that depend on it; and it leaves nothing of them in the registry, and everything else as it was. -/
theorem destroy_tears_down_closure {s : Session κ} {name : Name} {allowOverriding : Bool}
    {ledger : Ledger} (reached : (begin name allowOverriding ledger).Reaches s) (key : Name) :
    ∃ (torn : List Name) (plan : Disposals κ) (left : Registry κ),
      (∀ k, k ∈ torn ↔ s.registry.graph.FallsWith k key) ∧
        s.Disposes (.destroy key) plan left ∧
        (plan.keys.Nodup ∧ ∀ k callback,
          (k, callback) ∈ plan ↔ (k, callback) ∈ s.registry.disposals ∧ k ∈ torn) ∧
        (∀ k, s.registry.graph.DependsOn k key → k ≠ key → k ∈ s.registry.disposals.keys →
          key ∈ s.registry.disposals.keys → plan.Before k key) ∧
        s.registry.TornDown torn left := by
  have distinct := distinct_of_reaches reached
  rcases exists_tornDown reached key with ⟨torn, plan, left, closure, disposes, once, remains⟩
  refine ⟨torn, plan, left, closure, disposes, ⟨disposes.nodup_keys distinct, once⟩, ?last, remains⟩
  case last =>
    intro k depends differ registered registered'
    exact disposes.before_of_fallsAheadOf distinct depends.fallsAheadOf differ registered
      registered'

/-- Two keys that depend on each other, one of which contains a key that depends on itself, fall
together: each of the three disposals runs, that of the destroyed key after that of the other one,
and no edge of the circles is left. -/
theorem circles_torn_down :
    ∃ s : Session Nat,
      (begin "default" true {}).moves? [.call (.teardown (.registerDisposal "a" (some 1))),
        .call (.teardown (.registerDisposal "b" (some 2))),
        .call (.teardown (.registerDisposal "c" (some 3))),
        .call (.graph (.addDependency "a" "b")), .call (.graph (.addDependency "b" "a")),
        .call (.graph (.addContainment "c" "a")), .call (.graph (.addDependency "c" "c"))] =
          some s ∧
      ∃ (plan : Disposals Nat) (left : Registry Nat),
        s.Disposes (.destroy "a") plan left ∧ plan.Before "b" "a" ∧ ("c", 3) ∈ plan ∧
          "a" ∉ left.graph.dependents ∧ "b" ∉ left.graph.dependents ∧
            "c" ∉ left.graph.dependents := by
  have run : ((begin (κ := Nat) "default" true {}).moves? [
        .call (.teardown (.registerDisposal "a" (some 1))),
        .call (.teardown (.registerDisposal "b" (some 2))),
        .call (.teardown (.registerDisposal "c" (some 3))),
        .call (.graph (.addDependency "a" "b")), .call (.graph (.addDependency "b" "a")),
        .call (.graph (.addContainment "c" "a")), .call (.graph (.addDependency "c" "c"))]).map
      (fun s => (s.registry.disposals, (s.registry.graph.dependents.of "a").contains "b",
        (s.registry.graph.contained.of "a").contains "c")) =
      some ([("a", 1), ("b", 2), ("c", 3)], true, true) := by
    decide +kernel
  rcases Option.map_eq_some_iff.mp run with ⟨s, moved, facts⟩
  simp only [Prod.mk.injEq] at facts
  rcases facts with ⟨registered, depends, contains⟩
  rcases destroy_tears_down_closure ⟨_, moved⟩ "a" with
    ⟨torn, plan, left, closure, disposes, ⟨_, once⟩, last, remains⟩
  have tornA : "a" ∈ torn := (closure "a").mpr (.refl _ "a")
  have tornB : "b" ∈ torn := (closure "b").mpr ((Graph.FallsWith.refl _ "a").dragged (.inl depends))
  have tornC : "c" ∈ torn :=
    (closure "c").mpr ((Graph.FallsWith.refl _ "a").dragged (.inr contains))
  refine ⟨s, moved, plan, left, disposes, ?_, ?_, (remains.no_edges tornA).1,
    (remains.no_edges tornB).1, (remains.no_edges tornC).1⟩
  · apply last "b" (.single depends) (by decide) <;> simp [registered, Disposals.keys]
  · apply (once "c" 3).mpr
    exact ⟨by simp [registered], tornC⟩

end Session

end Lifecycle
