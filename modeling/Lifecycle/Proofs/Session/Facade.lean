import Lifecycle.Proofs.Session.Effect
import Lifecycle.Registry.Facade

/-!
# Through the facade

Users of a whole registry make the calls of its facade and no others.  None of these calls reopens a
registry that is being destroyed: once the cache has been told of the destruction it stays told
(`Session.inDestruction_of_move?`), and every request for an instance is answered without running
its factory (`Session.getOrCreate_of_inDestruction`).
-/

namespace Lifecycle

open Log

variable {κ : Type}

/-- A move of a user of the whole registry: a call of the facade, or no call at all. -/
def Session.ThroughFacade (s : Session κ) : Move κ → Prop
  | .call c => ∃ call : FacadeCall κ, c = call.lower s.registry.aliases
  | _ => True

/-- A move that does not tell the cache that the destruction is over. -/
def Move.NeverReopens : Move κ → Prop
  | .call (.cache (.setInDestruction value)) => value = true
  | _ => True

theorem Session.ThroughFacade.neverReopens {s : Session κ} {move : Move κ}
    (facade : s.ThroughFacade move) : move.NeverReopens := by
  cases move with
  | call c =>
      rcases facade with ⟨call, rfl⟩
      cases call <;> trivial
  | finish | raise | attach => trivial

/-! ## The destruction goes on -/

namespace Cache

variable {c c' : Cache κ}

theorem Torn.inDestruction (torn : c.Torn c') (closed : c.inDestruction = true) :
    c'.inDestruction = true := by
  induction torn with
  | refl => exact closed
  | evict _ _ ih | clear _ ih => exact ih
  | shut => rfl

theorem Closing.inDestruction_eq {key : Name} {outcome : Outcome}
    {result : Except Fault Instance} (closing : c.Closing key outcome result c') :
    c'.inDestruction = c.inDestruction := by
  cases closing with
  | fresh => rw [inDestruction_finalize]
  | adopted => rfl
  | failed => rw [inDestruction_discardPartial]
  | unknown _ left =>
      rcases left with rfl | rfl
      · rfl
      · rw [inDestruction_discardPartial]

end Cache

namespace Session

theorem inDestruction_of_move? {s t : Session κ} {move : Move κ}
    (closed : s.registry.cache.inDestruction = true) (never : move.NeverReopens)
    (moved : s.move? move = some t) : t.registry.cache.inDestruction = true := by
  apply of_effect (fun c _ => c.inDestruction = true) moved
  intro c' stack' effect
  cases effect with
  | idle | track | evict | clear | expose | withhold => exact closed
  | take opened =>
      rcases Cache.eq_of_openEarly opened with ⟨_, _, _, _, rfl⟩
      exact closed
  | start opened =>
      rcases Cache.eq_of_openCreation opened with ⟨_, reopened, _⟩
      exact absurd (closed.symm.trans reopened) (by decide)
  | register => rw [Cache.inDestruction_finalize, closed]
  | announce => rw [Cache.inDestruction_registerPending, closed]
  | suppress =>
      rw [Cache.suppress_eq]
      exact closed
  | setInDestruction => exact never
  | tear _ torn => exact torn.inDestruction closed
  | close _ closing => rw [closing.inDestruction_eq, closed]
  | tearOn _ torn => exact torn.inDestruction closed

theorem inDestruction_of_moves? {s t : Session κ} {moves : List (Move κ)}
    (closed : s.registry.cache.inDestruction = true)
    (never : s.Along (fun _ move => move.NeverReopens) moves)
    (moved : s.moves? moves = some t) : t.registry.cache.inDestruction = true :=
  never.invariant (fun _ _ _ closed never moved => inDestruction_of_move? closed never moved) closed
    moved

/-- While a registry is being destroyed, a request is answered at once: with the finalized instance
of its key, or with a refusal.  It changes nothing but the ledger of faults. -/
theorem getOrCreate_of_inDestruction {s : Session κ}
    (closed : s.registry.cache.inDestruction = true) (key : Name) (factory : Option κ) :
    ∃ ledger result,
      (s.call (.cache (.getOrCreate key factory))).value =
        (⟨{ s.registry with ledger }, s.stack⟩, .answered result) := by
  cases factory with
  | none => exact ⟨_, _, rfl⟩
  | some factory =>
      cases found : s.registry.cache.get key with
      | none =>
          simp only [call, Registry.call, Registry.callCache, Cache.openCreation, found, closed,
            Logged.value_map, Logged.value_bind]
          exact ⟨_, _, rfl⟩
      | some object =>
          simp only [call, Registry.call, Registry.callCache, Cache.openCreation, found,
            Logged.value_map, Logged.value_bind]
          exact ⟨_, _, rfl⟩

end Session

end Lifecycle
