import Lifecycle.Proofs.Session.Facade

/-!
# The destruction of a whole registry

Destroying everything closes the registry before the first disposal runs, and ends by forgetting all
instances and all edges.  In between the disposals may use the registry in any way.  What they
register does not outlive the call, because the tasks that forget it stay at the end of its row of
tasks however the disposals are interrupted (`Session.EndsWith`); and nothing they request is
created, because no call of the facade reopens the registry.
-/

namespace Lifecycle

open Log

variable {κ : Type}

/-- Nothing is left in a registry: no store holds a key, no name is listed and there are no edges.
-/
structure Registry.Vacant (r : Registry κ) : Prop where
  finalized : r.cache.finalized = ∅
  early : r.cache.early = ∅
  pending : r.cache.pending = ∅
  registered : r.cache.registered = []
  contained : r.graph.contained = ∅
  dependents : r.graph.dependents = ∅
  dependencies : r.graph.dependencies = ∅

/-- The tasks at the end of the destruction of a whole registry. -/
def Task.closing : List (Task κ) := [.forgetAll, .markDestroyed]

namespace Registry

/-- A teardown stops at a disposal before the tasks at its end, which then wait behind the disposal,
or it comes to these tasks. -/
theorem teardown_append (r : Registry κ) (tasks ending : List (Task κ)) :
    (∃ r' callback key rest, (r.teardown (tasks ++ ending)).value =
        (r', .entered callback (.disposing key (rest ++ ending)))) ∨
      ∃ r' : Registry κ,
        (r.teardown (tasks ++ ending)).value = (r'.teardown ending).value := by
  induction r, tasks using Registry.teardown.induct with
  | case1 r => exact .inr ⟨r, rfl⟩
  | case2 r key callback rest =>
      have stops : (r.teardown (.dispose key callback :: rest ++ ending)).value =
          (r, .entered callback (.disposing key (rest ++ ending))) := by
        rw [List.cons_append, teardown]
        rfl
      exact .inl ⟨r, callback, key, rest, stops⟩
  | case3 r key rest _ _ ih | case4 r key rest _ _ ih =>
      rw [List.append_assoc] at ih
      rw [List.cons_append, value_teardown_destroy]
      exact ih
  | case5 r key rest ih =>
      rw [List.append_assoc] at ih
      rw [List.cons_append, teardown]
      exact ih
  | case6 r key rest ih | case7 r rest ih | case8 r rest ih =>
      rw [List.cons_append, teardown]
      exact ih

/-- The tasks at the end of the destruction of a whole registry run no disposal. -/
theorem teardown_closing (r : Registry κ) :
    (r.teardown Task.closing).value =
      ({ r with graph := {}, cache := r.cache.clear, destroyed := true },
        .answered (.ok .done)) := by
  rw [Task.closing, teardown, teardown, teardown]
  rfl

end Registry

namespace Session

/-! ## The end of a teardown is not lost -/

/-- A teardown waits directly above a stack, and has some tasks at its end. -/
def EndsWith (below : List (Frame κ)) (ending : List (Task κ)) (s : Session κ) : Prop :=
  ∃ above key rest, s.stack = above ++ .disposing key (rest ++ ending) :: below

/-- A teardown comes to the tasks at its end. -/
def ComesTo (below : List (Frame κ)) (ending : List (Task κ)) (s : Session κ) : Prop :=
  ∃ r : Registry κ, s = (after below (r.teardown ending).value).1

theorem endsWith_or_comesTo (below : List (Frame κ)) (r : Registry κ)
    (tasks ending : List (Task κ)) :
    EndsWith below ending (after below (r.teardown (tasks ++ ending)).value).1 ∨
      ComesTo below ending (after below (r.teardown (tasks ++ ending)).value).1 := by
  rcases r.teardown_append tasks ending with ⟨r', callback, key, rest, value⟩ | ⟨r', value⟩
  · rw [value]
    exact .inl ⟨[], key, rest, rfl⟩
  · rw [value]
    exact .inr ⟨r', rfl⟩

/-- Whatever move is made while a teardown waits, its last tasks stay where they are, or the
teardown has come to them. -/
theorem EndsWith.move {below : List (Frame κ)} {ending : List (Task κ)} {s t : Session κ}
    {move : Move κ} (ends : s.EndsWith below ending) (moved : s.move? move = some t) :
    t.EndsWith below ending ∨ t.ComesTo below ending := by
  rcases ends with ⟨above, key, rest, waiting⟩
  cases move with
  | call c =>
      obtain rfl := Option.some.inj moved
      have below_call : (s.call c).value.1.stack =
          ((s.registry.call c).value.2.frames ++ above) ++
            .disposing key (rest ++ ending) :: below := by
        simp [call, waiting]
      exact .inl ⟨_, key, rest, below_call⟩
  | finish outcome =>
      rcases move?_finish_eq_some_iff.mp moved with ⟨frame, stack, running, rfl⟩
      cases above with
      | nil =>
          rcases List.cons.inj (running.symm.trans waiting) with ⟨rfl, rfl⟩
          exact endsWith_or_comesTo stack s.registry rest ending
      | cons innermost above =>
          rcases List.cons.inj (running.symm.trans waiting) with ⟨rfl, rfl⟩
          left
          exact ⟨(s.registry.resume outcome frame).value.2.frames ++ above, key, rest, by simp⟩
  | raise cause | attach fault others =>
      obtain rfl := Option.some.inj moved
      exact .inl ⟨above, key, rest, waiting⟩

/-- The call above a stack has not come back. -/
def WaitsAbove (below : List (Frame κ)) (s : Session κ) : Prop :=
  below.length < s.stack.length

instance (below : List (Frame κ)) (s : Session κ) : Decidable (s.WaitsAbove below) :=
  inferInstanceAs (Decidable (_ < _))

/-- As long as a teardown has not come back, its last tasks are still to be done; when it has come
back, it has come to them. -/
theorem comesTo_of_returned {below : List (Frame κ)} {ending : List (Task κ)} {s t : Session κ}
    {moves : List (Move κ)} (last : ∀ u : Session κ, u.ComesTo below ending → u.stack = below)
    (start : s.EndsWith below ending ∨ s.ComesTo below ending)
    (waits : s.Along (fun u _ => u.WaitsAbove below) moves) (moved : s.moves? moves = some t)
    (returned : t.stack = below) : t.ComesTo below ending := by
  have reached : t.EndsWith below ending ∨ t.ComesTo below ending := by
    apply waits.invariant _ start moved
    intro u move v held waiting moved
    rcases held with ends | arrived
    · exact ends.move moved
    · rw [WaitsAbove, last u arrived] at waiting
      exact absurd waiting (Nat.lt_irrefl _)
  rcases reached with ⟨above, key, rest, waiting⟩ | arrived
  · have longer := congrArg List.length (waiting.symm.trans returned)
    simp at longer
    omega
  · exact arrived

/-! ## The destruction of a whole registry -/

theorem ComesTo.closing {below : List (Frame κ)} {s : Session κ}
    (arrived : s.ComesTo below Task.closing) : s.stack = below ∧ s.registry.Vacant := by
  rcases arrived with ⟨r, rfl⟩
  rw [r.teardown_closing]
  constructor
  · rfl
  · constructor <;> rfl

/-- The destruction of a whole registry begins on a registry that is closed. -/
theorem facade_destroyAll (s : Session κ) :
    ∃ (r : Registry κ) (tasks : List (Task κ)), r.cache.inDestruction = true ∧
      (s.facade .destroyAll).value =
        after s.stack (r.teardown (tasks ++ Task.closing)).value := by
  have begins : (s.facade .destroyAll).value = after s.stack
      (Registry.teardown
        { s.registry with cache := { s.registry.cache with inDestruction := true } }
        (s.registry.disposals.keys.reverse.map .destroy ++ Task.closing)).value := by
    rw [Task.closing, List.append_cons]
    rfl
  exact ⟨_, _, rfl, begins⟩

/-- From the moment at which the destruction of a whole registry begins, also while its disposals
are running, and through whatever calls of the facade, no request runs its factory: each is answered
at once.  And whatever has been done meanwhile, nothing is left in the registry when the destruction
comes back. -/
theorem destroyAll_bars_creation_and_forgets (s : Session κ) :
    let begun := (s.facade .destroyAll).value.1
    (∀ moves t, begun.Along ThroughFacade moves → begun.moves? moves = some t →
        ∀ name factory, ∃ u result,
          (t.facade (.getOrCreate name factory)).value = (u, .answered result) ∧
            u.stack = t.stack) ∧
      ∀ moves t, begun.Along (fun u _ => u.WaitsAbove s.stack) moves →
        begun.moves? moves = some t → t.stack = s.stack → t.registry.Vacant := by
  intro begun
  rcases s.facade_destroyAll with ⟨r, tasks, closed, value⟩
  have begunEq : begun = (after s.stack (r.teardown (tasks ++ Task.closing)).value).1 :=
    congrArg Prod.fst value
  constructor
  · intro moves t facade moved name factory
    have begunClosed : begun.registry.cache.inDestruction = true := by
      rw [begunEq, registry_after]
      exact (r.torn_teardown _ .refl).1.inDestruction closed
    have never := facade.imp fun _ _ facade => facade.neverReopens
    rcases getOrCreate_of_inDestruction (inDestruction_of_moves? begunClosed never moved)
      (t.registry.aliases.canonical name) factory with ⟨ledger, result, answered⟩
    exact ⟨_, result, answered, rfl⟩
  · intro moves t waits moved returned
    have start : begun.EndsWith s.stack Task.closing ∨ begun.ComesTo s.stack Task.closing := by
      rw [begunEq]
      exact endsWith_or_comesTo s.stack r tasks Task.closing
    have arrived := comesTo_of_returned (fun _ arrived => arrived.closing.1) start waits moved
      returned
    exact arrived.closing.2

/-- A disposal requests another instance, registers an instance, a pending factory, edges and an
alias, destroys the whole registry once more and throws: the request runs no factory, and afterwards
nothing is left of the registry. -/
theorem disposal_registers_in_vain :
    let s := ((begin (κ := Unit) "default" true {}).call
      (.teardown (.registerDisposal "a" (some ())))).value.1
    let begun := (s.facade .destroyAll).value.1
    begun.stack ≠ s.stack ∧
      ∃ t, begun.moves? [.call (.cache (.getOrCreate "d" (some ()))),
          .call (.cache (.registerFinalized "b" (some ⟨"Service", 1⟩))),
          .call (.cache (.registerPending "c" (some ()))), .call (.graph (.addContainment "b" "c")),
          .call (.aliases (.register "b" "n")), .call (.teardown .retire),
          .finish (.threw ⟨1, .foreign⟩)] = some t ∧
        t.stack = s.stack ∧ t.registry.Vacant ∧
        ∃ u result, (t.facade (.getOrCreate "d" (some ()))).value = (u, .answered result) ∧
          u.stack = t.stack := by
  intro s begun
  let moves : List (Move Unit) := [.call (.cache (.getOrCreate "d" (some ()))),
    .call (.cache (.registerFinalized "b" (some ⟨"Service", 1⟩))),
    .call (.cache (.registerPending "c" (some ()))), .call (.graph (.addContainment "b" "c")),
    .call (.aliases (.register "b" "n")), .call (.teardown .retire), .finish (.threw ⟨1, .foreign⟩)]
  have entered : begun.stack ≠ s.stack := by decide +kernel
  have waits : begun.Along (fun u _ => u.WaitsAbove s.stack) moves := by decide +kernel
  have facade : begun.Along ThroughFacade moves := by
    have request : Call.cache (.getOrCreate "d" (some ())) =
        FacadeCall.lower begun.registry.aliases (.getOrCreate "d" (some ())) := by
      have canonical : begun.registry.aliases.canonical "d" = "d" := by decide +kernel
      rw [FacadeCall.lower, canonical]
    exact ⟨⟨_, request⟩, fun _ _ =>
      ⟨⟨.registerFinalized "b" _, rfl⟩, fun _ _ => ⟨⟨.registerPending "c" _, rfl⟩, fun _ _ =>
        ⟨⟨.addContainment "b" "c", rfl⟩, fun _ _ => ⟨⟨.registerAlias "b" "n", rfl⟩, fun _ _ =>
          ⟨⟨.destroyAll, rfl⟩, fun _ _ => ⟨trivial, fun _ _ => trivial⟩⟩⟩⟩⟩⟩⟩
  have run : (begun.moves? moves).map stack = some s.stack := by decide +kernel
  rcases Option.map_eq_some_iff.mp run with ⟨t, moved, returned⟩
  obtain ⟨bars, forgets⟩ := destroyAll_bars_creation_and_forgets s
  exact ⟨entered, t, moved, returned, forgets moves t waits moved returned,
    bars moves t facade moved "d" (some ())⟩

end Session

end Lifecycle
