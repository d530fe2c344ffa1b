import Lifecycle.Proofs.Alias.Redirection
import Lifecycle.Proofs.Session.Names

/-!
# Look-ups under names that change

The look-ups of the facade, and its requests for instances, go to the canonical name of what they
are given (`Session.Addresses`).  When an alias is registered, redefined or removed, they go
elsewhere from then on: under every name whose walk comes by the alias they go to the same new key,
and under no other name do they go to another key than before (`Session.Redirects`).
-/

namespace Lifecycle

namespace Session

variable {κ : Type} {s t : Session κ}

/-- The session, with other aliases. -/
def withAliases (s : Session κ) (aliases : AliasTable) : Session κ :=
  { s with registry := { s.registry with aliases } }

/-- A change of the aliases that is refused changes nothing. -/
theorem value_call_of_refused (call : AliasCall) {e : AliasError}
    (refused : (call.run s.registry.aliases).value = s.registry.aliases.settle (.error e)) :
    (s.call (.aliases call)).value = (s, .answered (.ok (.status e.status))) := by
  simp [Session.call, Registry.call, refused, AliasTable.settle, Registry.answer, after]

/-- A change of the aliases that is granted changes nothing else. -/
theorem value_call_of_granted (call : AliasCall) {aliases : AliasTable}
    (granted : (call.run s.registry.aliases).value = s.registry.aliases.settle (.ok aliases)) :
    (s.call (.aliases call)).value = (s.withAliases aliases, .answered (.ok (.status .ok))) := by
  simp [Session.call, Registry.call, granted, AliasTable.settle, Registry.answer, after,
    withAliases]

/-- What is looked up or requested through the facade under a name is looked up or requested for a
key. -/
structure Addresses (s : Session κ) (name key : Name) : Prop where
  get : s.facade (.get name) = s.call (.cache (.get key))
  getEarly : s.facade (.getEarly name) = s.call (.cache (.getEarly key))
  getOrCreate (factory : Option κ) :
    s.facade (.getOrCreate name factory) = s.call (.cache (.getOrCreate key factory))
  contains : s.facade (.contains name) = s.call (.cache (.contains key))

theorem addresses_canonical (s : Session κ) (name : Name) :
    s.Addresses name (s.registry.aliases.canonical name) :=
  ⟨rfl, rfl, fun _ => rfl, rfl⟩

/-- From one session to another nothing changes but the entry of one alias, and with it the key of
all names whose walk came by that alias. -/
structure Redirects (s t : Session κ) (nick key : Name) : Prop where
  others_unchanged : t = s.withAliases { s.registry.aliases with
    targets := t.registry.aliases.targets }
  changes : s.registry.aliases.targets.ChangesAt nick t.registry.aliases.targets
  redirected (name : Name) (meets : s.registry.aliases.targets.Meets name nick) :
    t.registry.aliases.canonical name = key ∧ t.Addresses name key
  kept (name : Name) (apart : ¬ s.registry.aliases.targets.Meets name nick) :
    t.registry.aliases.canonical name = s.registry.aliases.canonical name ∧
      t.Addresses name (s.registry.aliases.canonical name)

/-- A changed entry redirects to the new canonical name of its alias. -/
theorem redirects_withAliases {targets : AliasMap} {nick : Name}
    (acyclic : s.registry.aliases.targets.Acyclic) (acyclic' : targets.Acyclic)
    (changes : s.registry.aliases.targets.ChangesAt nick targets) :
    s.Redirects (s.withAliases { s.registry.aliases with targets }) nick
      (targets.canonical nick) := by
  let t := s.withAliases { s.registry.aliases with targets }
  have canonical_of_changed := acyclic.canonical_of_changed acyclic' changes
  constructor
  case others_unchanged => rfl
  case changes => exact changes
  case redirected =>
    intro name meets
    have key_eq : t.registry.aliases.canonical name = targets.canonical nick :=
      (canonical_of_changed name).1 meets
    exact ⟨key_eq, key_eq ▸ t.addresses_canonical name⟩
  case kept =>
    intro name apart
    have key_eq : t.registry.aliases.canonical name = s.registry.aliases.canonical name :=
      (canonical_of_changed name).2 apart
    exact ⟨key_eq, key_eq ▸ t.addresses_canonical name⟩

/-- When an alias is not one any more, the names whose walk came by it have it for their key. -/
theorem redirects_erase (acyclic : s.registry.aliases.targets.Acyclic) (nick : Name) :
    s.Redirects (s.withAliases { s.registry.aliases with
      targets := NameMap.erase s.registry.aliases.targets nick }) nick nick := by
  have redirects := redirects_withAliases acyclic (acyclic.erase nick)
    (s.registry.aliases.targets.changesAt_erase nick)
  rwa [AliasMap.canonical_of_last (NameMap.find?_erase_self _ nick)] at redirects

/-- What has been registered redirects to the canonical name that the target had before. -/
theorem redirects_of_registers {target nick : Name} {aliases : AliasTable}
    (acyclic : s.registry.aliases.targets.Acyclic)
    (registers : s.registry.aliases.Registers target nick (.ok aliases)) :
    s.Redirects (s.withAliases aliases) nick (s.registry.aliases.canonical target) := by
  cases registers with
  | known points =>
      have redirects := redirects_withAliases acyclic acyclic (.refl _ nick)
      rwa [acyclic.canonical_of_points points] at redirects
  | added _ _ opens =>
      have redirects := redirects_withAliases acyclic opens
        (s.registry.aliases.targets.changesAt_insert nick target)
      rwa [acyclic.canonical_insert_self opens] at redirects

/-- Two names, and a request through the facade to make one of them an alias of the other.  The
request is answered as `AliasTable.Registers` says; a refusal leaves everything as it was, and a
success leads the look-ups under the alias, and under every name whose walk comes by it, to the key
of the other name.  A request to make a name an alias of itself, and the removal of an alias, lead
them to the name itself; the removal of a name that is no alias is refused. -/
theorem lookups_redirected {name : Name} {allowOverriding : Bool} {ledger : Ledger}
    (reached : (begin name allowOverriding ledger).Reaches s) {target nick : Name}
    (targetNe : target ≠ "") (nickNe : nick ≠ "") (differ : nick ≠ target) :
    let aliases := s.registry.aliases
    (∃ t status result,
      (s.facade (.registerAlias target nick)).value = (t, .answered (.ok (.status status))) ∧
        aliases.Registers target nick result ∧
        match result with
        | .error e => status = .saying e.code e.message ∧ t = s
        | .ok aliases' => status = .ok ∧ t = s.withAliases aliases' ∧
            s.Redirects t nick (aliases.canonical target)) ∧
      (∃ t, (s.facade (.registerAlias nick nick)).value = (t, .answered (.ok (.status .ok))) ∧
        t.registry.aliases.isAlias nick = false ∧ s.Redirects t nick nick) ∧
      ∃ t status,
        (s.facade (.removeAlias nick)).value = (t, .answered (.ok (.status status))) ∧
          (aliases.isAlias nick = true → status = .ok ∧
            t.registry.aliases.isAlias nick = false ∧ s.Redirects t nick nick) ∧
          (aliases.isAlias nick = false → status.code = .notFound ∧ t = s) := by
  intro aliases
  have acyclic : aliases.targets.Acyclic := (wellFormed_aliases_of_reaches reached).acyclic
  have erased : AliasTable.isAlias { aliases with targets := NameMap.erase aliases.targets nick }
      nick = false := AliasTable.isAlias_eq_false_iff.mpr (NameMap.find?_erase_self _ nick)
  refine ⟨?register, ?self, ?remove⟩
  case register =>
    have registers := AliasTable.registers_register acyclic targetNe nickNe differ
    cases result : (aliases.register target nick).value with
    | error e =>
        rw [result] at registers
        have refused := value_call_of_refused (.register target nick)
          (congrArg aliases.settle result)
        exact ⟨s, e.status, .error e, refused, registers, rfl, rfl⟩
    | ok aliases' =>
        rw [result] at registers
        have granted := value_call_of_granted (.register target nick)
          (congrArg aliases.settle result)
        exact ⟨_, .ok, .ok aliases', granted, registers, rfl, rfl,
          redirects_of_registers acyclic registers⟩
  case self =>
    have unlinked : (aliases.register nick nick).value =
        .ok { aliases with targets := NameMap.erase aliases.targets nick } := by
      rw [AliasTable.register, if_neg nickNe, if_neg nickNe, if_pos rfl]
      rfl
    have granted := value_call_of_granted (.register nick nick)
      (congrArg aliases.settle unlinked)
    exact ⟨_, granted, erased, redirects_erase acyclic nick⟩
  case remove =>
    cases isAlias : aliases.isAlias nick with
    | true =>
        have removed : aliases.remove nick =
            .ok { aliases with targets := NameMap.erase aliases.targets nick } := if_pos isAlias
        have granted := value_call_of_granted (.remove nick)
          (congrArg aliases.settle removed)
        exact ⟨_, .ok, granted, fun _ => ⟨rfl, erased, redirects_erase acyclic nick⟩, by simp⟩
    | false =>
        have unknown : aliases.remove nick = .error (.unknownAlias nick) := by
          simp [AliasTable.remove, isAlias]
        have refused := value_call_of_refused (.remove nick)
          (congrArg aliases.settle unknown)
        exact ⟨s, _, refused, by simp, fun _ => ⟨rfl, rfl⟩⟩

/-- An alias is redefined: another alias that leads to it follows, and its look-ups go to the new
name. -/
theorem alias_of_alias_redirected :
    let s := (((begin (κ := Unit) "default" true {}).call
      (.aliases (.register "svc" "api"))).value.1.call (.aliases (.register "api" "web"))).value.1
    s.registry.aliases.canonical "web" = "svc" ∧
      ∃ t, (s.facade (.registerAlias "core" "api")).value = (t, .answered (.ok (.status .ok))) ∧
        t.registry.aliases.canonical "web" = "core" ∧ t.Addresses "web" "core" ∧
        t.registry.aliases.canonical "svc" = "svc" := by
  intro s
  have reached : (begin (κ := Unit) "default" true {}).Reaches s := ⟨[.call _, .call _], rfl⟩
  have before : NameMap.find? s.registry.aliases.targets "api" = some "svc" := by decide +kernel
  have follows : NameMap.find? s.registry.aliases.targets "web" = some "api" := by decide +kernel
  have free : s.registry.aliases.canonical "core" = "core" := by decide +kernel
  have final : NameMap.find? s.registry.aliases.targets "svc" = none := by decide +kernel
  have after : NameMap.find? (s.facade (.registerAlias "core" "api")).value.1.registry.aliases.targets
      "api" = some "core" := by decide +kernel
  obtain ⟨⟨t, status, result, answered, _, outcome⟩, _⟩ :=
    @lookups_redirected Unit s _ _ _ reached "core" "api" (by decide) (by decide) (by decide)
  rw [answered] at after
  cases result with
  | error e =>
      obtain ⟨_, rfl⟩ := outcome
      exact absurd (before.symm.trans after) (by decide)
  | ok aliases' =>
      obtain ⟨rfl, _, redirects⟩ := outcome
      have moved := redirects.redirected "web" (.inr (.single follows))
      rw [free] at moved
      have apart : ¬ s.registry.aliases.targets.Meets "svc" "api" := by
        rintro (same | chain)
        · exact absurd same (by decide)
        · exact AliasMap.not_chain_of_last final chain
      have stays := (redirects.kept "svc" apart).1
      rw [AliasTable.canonical_eq_self (AliasTable.isAlias_eq_false_iff.mpr final)] at stays
      exact ⟨by decide +kernel, t, answered, moved.1, moved.2, stays⟩

end Session

end Lifecycle
