import Lifecycle.Proofs.Alias.WellFormed
import Lifecycle.Proofs.Session.Change
import Lifecycle.Proofs.Teardown.Remains
import Lifecycle.Registry.Facade

/-!
# Names through the facade

Look-ups through the facade go to the canonical name of what they are given; registering an instance
and destroying one do not.  For a name that is no alias the two meet.  An alias has a key of its
own, which no look-up comes to: an instance that is registered under an alias is not found under it,
and what is found under an alias is not destroyed under it, unless it falls with that key
(`Session.found_under_name_iff`).
-/

namespace Lifecycle

open Log

variable {κ : Type}

/-- A registration that succeeds leaves its key with the instance that is offered, and every other
key as it was. -/
theorem Cache.get_of_registered {c : Cache κ} {key : Name} {handle : Handle}
    (success : (c.registerFinalized key handle).value.1.status.isSuccess = true) :
    handle.isSome ∧ ∀ k,
      (c.registerFinalized key handle).value.2.get k = if k = key then handle else c.get k := by
  cases handle with
  | none =>
      by_cases keyEmpty : key = "" <;>
        simp [registerFinalized, keyEmpty, Registration.status, Status.saying, Status.isSuccess,
          Code.isSuccess] at success
  | some object =>
      refine ⟨rfl, fun k => ?_⟩
      by_cases keyEmpty : key = ""
      · simp [registerFinalized, keyEmpty, Registration.status, Status.saying, Status.isSuccess,
          Code.isSuccess] at success
      · cases found : c.get key with
        | none => simp [c.registerFinalized_of_absent object keyEmpty found, found]
        | some existing =>
            rw [c.registerFinalized_of_get object keyEmpty found] at success ⊢
            by_cases same : existing = object
            · by_cases here : k = key <;> simp [here, found, same]
            · simp [same, Registration.status, Status.saying, Status.isSuccess,
                Code.isSuccess] at success

namespace Session

/-- The aliases of every session are without circles. -/
theorem wellFormed_aliases_of_reaches {s : Session κ} {name : Name} {allowOverriding : Bool}
    {ledger : Ledger} (reached : (begin name allowOverriding ledger).Reaches s) :
    s.registry.aliases.targets.WellFormed := by
  rcases reached with ⟨moves, moved⟩
  apply @invariant κ (fun s => s.registry.aliases.targets.WellFormed) _ moves _ s _ moved
  · intro s move t wellFormed moved
    apply of_change (fun r _ => r.aliases.targets.WellFormed) moved
    intro r' pending' change
    cases change with
    | none | graph | register => exact wellFormed
    | aliases call => exact AliasTable.wellFormed_run wellFormed call
    | tear | tearOn => rwa [Registry.aliases_teardown]
  · exact AliasMap.wellFormed_empty

/-- When a key has been destroyed, with disposals that do not call the registry, a key is absent if
it falls with that key or was absent before. -/
theorem absent_after_destroy {s : Session κ} {name : Name} {allowOverriding : Bool}
    {ledger : Ledger} (reached : (begin name allowOverriding ledger).Reaches s) (key : Name) :
    ∃ (plan : Disposals κ) (left : Registry κ), s.Disposes (.destroy key) plan left ∧
      ∀ ran t, s.Tearing (.destroy key) ran t (.answered (.ok .done)) →
        t.registry.aliases = s.registry.aliases ∧
          ∀ k, t.registry.cache.get k = none ↔
            s.registry.graph.FallsWith k key ∨ s.registry.cache.get k = none := by
  rcases exists_tornDown reached key with ⟨torn, plan, left, closure, disposes, _, remains⟩
  refine ⟨plan, left, disposes, fun ran t ended => ?_⟩
  rcases disposes _ _ _ ended with ⟨_, _, same⟩ | ⟨_, _, _, _, _, contrary, _⟩
  · have aliases : t.registry.aliases = left.aliases := by rw [same]
    have cache : t.registry.cache = left.cache := by rw [same]
    rw [aliases, cache]
    constructor
    · exact remains.others.2.1
    · intro k
      rw [Cache.get, remains.finalized k, ← closure]
      by_cases fell : k ∈ torn <;> simp [fell, Cache.get]
  · contradiction

/-- A look-up goes to the canonical name. -/
theorem facade_get (s : Session κ) (name : Name) :
    (s.facade (.get name)).value =
      (s, .answered (.ok (.handle (s.registry.cache.get (s.registry.aliases.canonical name))))) :=
  rfl

theorem facade_contains (s : Session κ) (name : Name) :
    (s.facade (.contains name)).value = (s, .answered (.ok (.flag
      (s.registry.cache.get (s.registry.aliases.canonical name)).isSome))) :=
  rfl

/-- A name that is given to the facade and no alias is the key that a look-up of it comes to: an
instance that is registered under it is found there, and nothing is found there any more when it has
been destroyed.  An alias is not the key that its look-ups come to: whether an instance that is
registered under it is found there depends on what there was before at its canonical name, and
whether what is found there is gone when the alias has been destroyed depends on whether the
canonical name falls with the alias. -/
theorem found_under_name_iff {s : Session κ} {name : Name} {allowOverriding : Bool}
    {ledger : Ledger} (reached : (begin name allowOverriding ledger).Reaches s) (n : Name) :
    let key := s.registry.aliases.canonical n
    (∀ handle, ∃ t status,
      (s.facade (.registerFinalized n handle)).value = (t, .answered (.ok (.status status))) ∧
        (status.isSuccess = true → t.registry.cache.get n = handle ∧
          ((t.facade (.get n)).value = (t, .answered (.ok (.handle handle))) ↔
            s.registry.aliases.isAlias n = false ∨ s.registry.cache.get key = handle) ∧
          ((t.facade (.contains n)).value = (t, .answered (.ok (.flag true))) ↔
            s.registry.aliases.isAlias n = false ∨ key ∈ s.registry.cache.finalized))) ∧
      ∃ (plan : Disposals κ) (left : Registry κ), s.Disposes (.destroy n) plan left ∧
        ∀ ran t, s.Tearing (.destroy n) ran t (.answered (.ok .done)) →
          ((t.facade (.contains n)).value = (t, .answered (.ok (.flag false))) ↔
            s.registry.aliases.isAlias n = false ∨ s.registry.graph.FallsWith key n ∨
              key ∉ s.registry.cache.finalized) := by
  intro key
  have acyclic := (wellFormed_aliases_of_reaches reached).acyclic
  have same_iff : key = n ↔ s.registry.aliases.isAlias n = false :=
    ⟨AliasTable.isAlias_of_canonical_eq acyclic, AliasTable.canonical_eq_self⟩
  constructor
  · intro handle
    let registered := (s.registry.cache.registerFinalized n handle).value
    have answered : (s.facade (.registerFinalized n handle)).value =
        (⟨{ s.registry with cache := registered.2 }, s.stack⟩,
          .answered (.ok (.status registered.1.status))) := rfl
    refine ⟨_, _, answered, fun success => ?_⟩
    rcases Cache.get_of_registered success with ⟨offered, gets⟩
    have found : registered.2.get key = if key = n then handle else s.registry.cache.get key :=
      gets key
    refine ⟨?own, ?get, ?contains⟩
    case own => simpa using gets n
    case get =>
      rw [facade_get, ← same_iff]
      change (_, Reply.answered (.ok (.handle (registered.2.get key)))) = _ ↔ _
      rw [found]
      by_cases same : key = n <;> simp [same]
    case contains =>
      rw [facade_contains, ← same_iff, Cache.mem_finalized_iff]
      change (_, Reply.answered (.ok (.flag (registered.2.get key).isSome))) = _ ↔ _
      rw [found]
      by_cases same : key = n <;> simp [same, offered]
  · rcases absent_after_destroy reached n with ⟨plan, left, disposes, absent⟩
    refine ⟨plan, left, disposes, fun ran t ended => ?_⟩
    rcases absent ran t ended with ⟨aliases, absent⟩
    rw [facade_contains, ← same_iff, Cache.not_mem_finalized_iff, ← absent, aliases]
    change (t, Reply.answered (.ok (.flag (t.registry.cache.get key).isSome))) = _ ↔ _
    constructor
    · intro answered
      right
      simpa using answered
    · rintro (same | nothing)
      · have fell : s.registry.graph.FallsWith key n := same ▸ Graph.FallsWith.refl _ key
        rw [(absent key).mpr (.inl fell)]
        rfl
      · rw [nothing]
        rfl

/-- An instance is registered under a name that has an alias, and found under it; when the name has
been destroyed, it is found there no more. -/
theorem found_until_destroyed :
    let s := ((begin (κ := Unit) "default" true {}).call
      (.aliases (.register "app" "nick"))).value.1
    ∃ t u, (s.facade (.registerFinalized "app" (some ⟨"Service", 1⟩))).value =
        (t, .answered (.ok (.status .ok))) ∧
      (t.facade (.get "app")).value = (t, .answered (.ok (.handle (some ⟨"Service", 1⟩)))) ∧
      (t.facade (.contains "app")).value = (t, .answered (.ok (.flag true))) ∧
      (t.facade (.destroy "app")).value = (u, .answered (.ok .done)) ∧
      (u.facade (.contains "app")).value = (u, .answered (.ok (.flag false))) := by
  intro s
  let t := (s.facade (.registerFinalized "app" (some ⟨"Service", 1⟩))).value.1
  let u := (t.facade (.destroy "app")).value.1
  have reached : (begin (κ := Unit) "default" true {}).Reaches s := ⟨[.call _], rfl⟩
  have reached' : (begin (κ := Unit) "default" true {}).Reaches t := ⟨[.call _, .call _], rfl⟩
  have noAlias : s.registry.aliases.isAlias "app" = false := by decide +kernel
  have added : (s.facade (.registerFinalized "app" (some ⟨"Service", 1⟩))).value =
      (t, .answered (.ok (.status .ok))) := rfl
  have ended : u.stack = [] := by decide +kernel
  obtain ⟨_, _, answered, meets⟩ := (found_under_name_iff reached "app").1 (some ⟨"Service", 1⟩)
  rw [added] at answered
  obtain ⟨rfl, status⟩ := Prod.mk.inj answered
  simp only [Reply.answered.injEq, Except.ok.injEq, Answer.status.injEq] at status
  subst status
  obtain ⟨_, found, contained⟩ := meets rfl
  obtain ⟨_, _, disposes, absent⟩ := (found_under_name_iff reached' "app").2
  have tearing : t.Tearing (.destroy "app") [] u (t.facade (.destroy "app")).value.2 := .begun
  rcases disposes _ _ _ tearing with ⟨_, done, _⟩ | ⟨_, _, _, _, _, _, waiting⟩
  · have destroyed : (t.facade (.destroy "app")).value = (u, .answered (.ok .done)) :=
      Prod.ext rfl done
    rw [done] at tearing
    exact ⟨t, u, added, found.mpr (.inl noAlias), contained.mpr (.inl noAlias), destroyed,
      (absent _ _ tearing).mpr (.inl noAlias)⟩
  · rw [ended] at waiting
    contradiction

/-- An instance is registered under an alias with success, and not found under it; and an instance
that is found under an alias is still found there when the alias has been destroyed. -/
theorem alias_is_other_key :
    let s := ((begin (κ := Unit) "default" true {}).call
      (.aliases (.register "app" "nick"))).value.1
    let t := (s.facade (.registerFinalized "nick" (some ⟨"Service", 1⟩))).value.1
    let u := (s.facade (.registerFinalized "app" (some ⟨"Service", 1⟩))).value.1
    let v := (u.facade (.destroy "nick")).value.1
    (s.facade (.registerFinalized "nick" (some ⟨"Service", 1⟩))).value =
        (t, .answered (.ok (.status .ok))) ∧
      (t.facade (.get "nick")).value = (t, .answered (.ok (.handle none))) ∧
      (t.facade (.contains "nick")).value = (t, .answered (.ok (.flag false))) ∧
      v.stack = [] ∧ (v.facade (.contains "nick")).value = (v, .answered (.ok (.flag true))) := by
  intro s t u v
  have unfound : t.registry.cache.get (t.registry.aliases.canonical "nick") = none := by
    decide +kernel
  have left : v.registry.cache.get (v.registry.aliases.canonical "nick") = some ⟨"Service", 1⟩ := by
    decide +kernel
  rw [facade_get, facade_contains, facade_contains, unfound, left]
  exact ⟨rfl, rfl, rfl, by decide +kernel, rfl⟩

end Session

end Lifecycle
