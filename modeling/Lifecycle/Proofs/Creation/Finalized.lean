import Lifecycle.Proofs.Session.Effect

/-!
# Finalized instances are final

Once a key has a finalized instance, the key keeps it until it is evicted, all keys are forgotten or
something is torn down.  The instance may have come from a request, from a request inside the
factory of that request or from a registration in the middle of one; requests that are still
waiting for their factory then give up their own object for it.
-/

namespace Lifecycle

open Log

variable {κ : Type}

namespace Cache

/-- An end of a creation takes no finalized instance away. -/
theorem Closing.get_eq_some {c c' : Cache κ} {key k : Name} {object : Instance}
    {outcome : Outcome} {result : Except Fault Instance}
    (closing : c.Closing key outcome result c') (finalized : c.get k = some object) :
    c'.get k = some object := by
  cases closing with
  | fresh finished =>
      rw [get_finalize]
      split
      · rename_i same
        subst same
        change some ((c.get k).getD _) = some object
        rw [finalized, Option.getD_some]
      · exact finalized
  | adopted => exact finalized
  | failed =>
      rw [get] at finalized ⊢
      simpa using finalized
  | unknown refused left =>
      rcases left with rfl | rfl
      · exact finalized
      · rw [get] at finalized ⊢
        simpa using finalized

/-- A request that comes back normally comes back with the finalized instance of its key. -/
theorem Closing.eq_of_get {c c' : Cache κ} {key : Name} {object made : Instance}
    {outcome : Outcome} (closing : c.Closing key outcome (.ok made) c')
    (finalized : c.get key = some object) : made = object := by
  cases closing with
  | fresh => simp [finalized]
  | adopted _ _ found => exact Option.some.inj (found.symm.trans finalized)

end Cache

namespace Session

/-- A move that takes no finalized instance away from a key: it does not evict the key, it does not
forget all keys, and it neither begins nor goes on with a teardown. -/
def Spares (key : Name) (s : Session κ) : Move κ → Prop
  | .call (.cache (.evict other)) => other ≠ key
  | .call (.cache .clear) => False
  | .call (.teardown call) => ¬ call.Destroys
  | .finish _ => ∀ other tasks rest, s.stack ≠ .disposing other tasks :: rest
  | _ => True

theorem get_of_move? {s t : Session κ} {move : Move κ} {key : Name} {object : Instance}
    (finalized : s.registry.cache.get key = some object) (spares : s.Spares key move)
    (moved : s.move? move = some t) : t.registry.cache.get key = some object := by
  apply of_effect (fun c _ => c.get key = some object) moved
  intro c' stack' effect
  cases effect with
  | idle | track | setInDestruction | expose | withhold => exact finalized
  | take opened =>
      rcases Cache.eq_of_openEarly opened with ⟨_, _, _, _, rfl⟩
      exact finalized
  | start opened =>
      rcases Cache.eq_of_openCreation opened with ⟨_, _, _, _, _, rfl⟩
      exact finalized
  | @register other offered otherNe absent =>
      have differ : key ≠ other := by
        rintro rfl
        simp [finalized] at absent
      simpa [differ] using finalized
  | announce => simpa using finalized
  | @evict other =>
      have differ : other ≠ key := spares
      simpa [Cache.get_evict, Ne.symm differ] using finalized
  | suppress =>
      rw [Cache.suppress_eq]
      exact finalized
  | clear => exact absurd spares id
  | tear destroys => exact absurd destroys spares
  | close running closing => exact closing.get_eq_some finalized
  | tearOn running => exact absurd running (spares _ _ _)

/-- From the moment at which a key has a finalized instance, and for as long as no move takes it
away, the key keeps this instance.  Every look-up and every request for the key answers with it at
once; a request that waits for its factory, and comes back normally, answers with it as well; and
registering an instance under the key changes nothing, and says whether the instance is the one
that is there. -/
theorem finalized_until_taken_away {s t : Session κ} {key : Name} {object : Instance}
    {moves : List (Move κ)} (keyNe : key ≠ "")
    (finalized : s.registry.cache.get key = some object) (spared : s.Along (Spares key) moves)
    (moved : s.moves? moves = some t) :
    t.registry.cache.get key = some object ∧
      (t.call (.cache (.get key))).value = (t, .answered (.ok (.handle (some object)))) ∧
      (t.call (.cache (.getEarly key))).value = (t, .answered (.ok (.handle (some object)))) ∧
      (∀ factory, (t.call (.cache (.getOrCreate key (some factory)))).value =
        (t, .answered (.ok (.handle (some object))))) ∧
      (∀ outermost rest outcome, t.stack = .creating key outermost :: rest →
        ∃ u result, (t.finish? outcome).map (·.value) = some (u, .answered result) ∧
          ∀ answer, result = .ok answer → answer = .handle (some object)) ∧
      ∀ offered, ∃ status,
        (t.call (.cache (.registerFinalized key (some offered)))).value =
            (t, .answered (.ok (.status status))) ∧
          status.code = if offered = object then .duplicateIgnored else .alreadyExists := by
  have kept : t.registry.cache.get key = some object :=
    spared.invariant (fun _ _ _ held spares moved => get_of_move? held spares moved) finalized moved
  refine ⟨kept, ?look, ?early, ?request, ?waiting, ?register⟩
  case look =>
    apply call_eq_self
    simp [Registry.call, Registry.callCache, kept, Registry.answer]
  case early =>
    apply call_eq_self
    simp [Registry.call, Registry.callCache, Cache.openEarly, kept, Registry.answer]
  case request =>
    intro factory
    apply call_eq_self
    simp [Registry.call, Registry.callCache, Cache.openCreation, kept, Registry.answer]
  case waiting =>
    intro outermost rest outcome running
    have closing :=
      t.registry.cache.closing_closeCreation t.registry.ledger key outermost outcome
    refine ⟨_, _, finish?_of_creating running outcome, ?_⟩
    intro answer answered
    cases made : (t.registry.cache.closeCreation t.registry.ledger key outermost outcome).value.1 with
    | error fault => simp [made, Except.map] at answered
    | ok instance' =>
        rw [made] at answered closing
        obtain rfl := closing.eq_of_get kept
        exact (Except.ok.inj answered).symm
  case register =>
    intro offered
    have registered := t.registry.cache.registerFinalized_of_get offered keyNe kept
    by_cases same : object = offered
    · have duplicate : (t.call (.cache (.registerFinalized key (some offered)))).value =
          (t, .answered (.ok (.status (Registration.duplicate key).status))) := by
        apply call_eq_self
        simp [Registry.call, Registry.callCache, registered, same, Registry.answer]
      exact ⟨_, duplicate, by simp [same, Registration.status, Status.saying]⟩
    · have occupied : (t.call (.cache (.registerFinalized key (some offered)))).value =
          (t, .answered (.ok (.status (Registration.occupied key offered object).status))) := by
        apply call_eq_self
        simp [Registry.call, Registry.callCache, registered, same, Registry.answer]
      exact ⟨_, occupied, by simp [Ne.symm same, Registration.status, Status.saying]⟩

/-- The factory of one key requests another key, whose factory registers the first key and then
fails; when the factory of the first key comes back with an object of its own, its request answers
with the registered one. -/
theorem registered_instance_outlives_factory :
    ∃ s t : Session Unit,
      (begin "default" true {}).moves? [.call (.cache (.getOrCreate "a" (some ()))),
        .call (.cache (.getOrCreate "b" (some ()))),
        .call (.cache (.registerFinalized "a" (some ⟨"Service", 1⟩)))] = some s ∧
      s.registry.cache.get "a" = some ⟨"Service", 1⟩ ∧
      s.moves? [.finish (.returned none)] = some t ∧ t.stack = [.creating "a" true] ∧
      ∃ u result,
        (t.finish? (.returned (some ⟨"Service", 2⟩))).map (·.value) = some (u, .answered result) ∧
          ∀ answer, result = .ok answer → answer = .handle (some ⟨"Service", 1⟩) := by
  have run : ((begin (κ := Unit) "default" true {}).moves? [
        .call (.cache (.getOrCreate "a" (some ()))), .call (.cache (.getOrCreate "b" (some ()))),
        .call (.cache (.registerFinalized "a" (some ⟨"Service", 1⟩)))]).map
      (fun s => (s.stack, s.registry.cache.get "a",
        (s.moves? [.finish (.returned none)]).map stack)) =
      some ([.creating "b" false, .creating "a" true], some ⟨"Service", 1⟩,
        some [.creating "a" true]) := by
    decide +kernel
  rcases Option.map_eq_some_iff.mp run with ⟨s, reached, facts⟩
  simp only [Prod.mk.injEq] at facts
  rcases facts with ⟨running, finalized, onward⟩
  rcases Option.map_eq_some_iff.mp onward with ⟨t, moved, waiting⟩
  have spared : s.Along (Spares "a") [.finish (.returned none)] :=
    ⟨by simp [Spares, running], fun _ _ => trivial⟩
  obtain ⟨_, _, _, _, answers, _⟩ :=
    finalized_until_taken_away (by decide) finalized spared moved
  exact ⟨s, t, reached, finalized, moved, waiting, answers true [] _ waiting⟩

end Session

end Lifecycle
