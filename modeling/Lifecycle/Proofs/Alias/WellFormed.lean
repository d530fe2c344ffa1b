import Lifecycle.Proofs.Alias.Walk
import Lifecycle.Registry.Call

/-!
# Well-formed alias tables

A well-formed table has no circle and no empty name.  New tables are well-formed and every call
keeps them so, whether it is granted or refused; therefore all walks through the table of a
registry come to their end, and the canonical name of a name is final.
-/

namespace Lifecycle

open Log

namespace AliasMap

/-- No circles and no empty names. -/
structure WellFormed (m : AliasMap) : Prop where
  acyclic : m.Acyclic
  named {nick target : Name} (step : m.Points nick target) : nick ≠ "" ∧ target ≠ ""

theorem wellFormed_empty : WellFormed ∅ where
  acyclic := acyclic_empty
  named step := absurd step (by simp [Points])

/-- An entry that survives a renaming has two names, and different ones. -/
theorem names_of_renamed? {transform : Transform} {nick target nick' target' : Name}
    (renamed : renamed? transform nick target = some (nick', target')) :
    nick' ≠ "" ∧ target' ≠ "" ∧ nick' ≠ target' := by
  simp only [renamed?] at renamed
  split at renamed
  · split at renamed
    · contradiction
    · rename_i proper
      rcases Prod.mk.inj (Option.some.inj renamed) with ⟨rfl, rfl⟩
      simpa only [not_or] using proper
  · contradiction

namespace WellFormed

variable {m m' : AliasMap}

theorem erase (wellFormed : m.WellFormed) (dropped : Name) :
    WellFormed (NameMap.erase m dropped) where
  acyclic := wellFormed.acyclic.erase dropped
  named step := wellFormed.named (points_erase_iff.mp step).2

theorem insert (wellFormed : m.WellFormed) {nick target : Name} (nickNe : nick ≠ "")
    (targetNe : target ≠ "") (differ : nick ≠ target) (apart : ¬ m.Chain target nick) :
    WellFormed (NameMap.insert m nick target) where
  acyclic := wellFormed.acyclic.insert differ.symm apart
  named step := by
    rcases points_insert_iff.mp step with ⟨rfl, rfl⟩ | ⟨_, old⟩
    · exact ⟨nickNe, targetNe⟩
    · exact wellFormed.named old

theorem link (wellFormed : m.WellFormed) {canonical nick : Name} (canonicalNe : canonical ≠ "")
    (nickNe : nick ≠ "") (differ : nick ≠ canonical) (linked : m.link canonical nick = .ok m') :
    m'.WellFormed := by
  rw [AliasMap.link] at linked
  split at linked
  · contradiction
  · rename_i noReturn
    obtain rfl := Except.ok.inj linked
    apply wellFormed.insert nickNe canonicalNe differ
    intro chain
    exact noReturn (wellFormed.acyclic.leadsTo_iff_chain.mpr chain)

/-- The map stays well-formed while some of its entries are renamed and others are not yet. -/
theorem renameEntry (wellFormed : m.WellFormed) {transform : Transform} {entry : Name × Name}
    (renamed : m.renameEntry transform entry = .ok m') : m'.WellFormed := by
  rcases entry with ⟨nick, target⟩
  simp only [AliasMap.renameEntry] at renamed
  split at renamed
  · -- The entry is given up.
    obtain rfl := Except.ok.inj renamed
    exact wellFormed.erase nick
  · rename_i nick' target' survives
    rcases names_of_renamed? survives with ⟨nickNe, targetNe, differ⟩
    split at renamed
    · rename_i sameNick
      subst sameNick
      split at renamed
      · exact Except.ok.inj renamed ▸ wellFormed
      · exact (wellFormed.erase nick').link targetNe nickNe differ renamed
    · split at renamed
      · exact (wellFormed.erase nick).link targetNe nickNe differ renamed
      · split at renamed
        · exact Except.ok.inj renamed ▸ wellFormed.erase nick
        · contradiction

theorem renameEntries (wellFormed : m.WellFormed) {transform : Transform}
    {entries : List (Name × Name)}
    (renamed : entries.foldlM (AliasMap.renameEntry transform) m = .ok m') : m'.WellFormed := by
  induction entries generalizing m with
  | nil => exact Except.ok.inj renamed ▸ wellFormed
  | cons entry rest ih =>
      rw [List.foldlM_cons] at renamed
      cases first : m.renameEntry transform entry with
      | error e =>
          rw [first] at renamed
          contradiction
      | ok middle =>
          rw [first] at renamed
          exact ih (wellFormed.renameEntry first) renamed

end WellFormed

end AliasMap

namespace AliasTable

/-! ## Calls -/

/-- The table after a row of calls. -/
def afterCalls (t : AliasTable) (calls : List AliasCall) : AliasTable :=
  calls.foldl (fun t call => (call.run t).value.1) t

theorem wellFormed_link {t t' : AliasTable} (wellFormed : t.targets.WellFormed)
    {canonical nick : Name} (canonicalNe : canonical ≠ "") (nickNe : nick ≠ "")
    (differ : nick ≠ canonical) (linked : (t.link canonical nick).value = .ok t') :
    t'.targets.WellFormed := by
  rw [link] at linked
  split at linked
  · contradiction
  · rename_i targets closed
    obtain rfl := Except.ok.inj linked
    exact wellFormed.link canonicalNe nickNe differ closed

theorem wellFormed_register {t t' : AliasTable} (wellFormed : t.targets.WellFormed)
    {canonical nick : Name} (registered : (t.register canonical nick).value = .ok t') :
    t'.targets.WellFormed := by
  rw [register] at registered
  split at registered
  · contradiction
  · rename_i canonicalNe
    split at registered
    · contradiction
    · rename_i nickNe
      split at registered
      · obtain rfl := Except.ok.inj registered
        exact wellFormed.erase nick
      · rename_i differ
        split at registered
        · exact wellFormed_link wellFormed canonicalNe nickNe differ registered
        · split at registered
          · exact Except.ok.inj registered ▸ wellFormed
          · split at registered
            · contradiction
            · exact wellFormed_link wellFormed canonicalNe nickNe differ registered

theorem wellFormed_remove {t t' : AliasTable} (wellFormed : t.targets.WellFormed) {nick : Name}
    (removed : t.remove nick = .ok t') : t'.targets.WellFormed := by
  rw [remove] at removed
  split at removed
  · obtain rfl := Except.ok.inj removed
    exact wellFormed.erase nick
  · contradiction

theorem wellFormed_resolve {t t' : AliasTable} (wellFormed : t.targets.WellFormed)
    {transform : Option AliasMap.Transform}
    (resolved : (t.resolve transform).value = .ok t') : t'.targets.WellFormed := by
  cases transform with
  | none => contradiction
  | some transform =>
      rw [resolve] at resolved
      split at resolved
      · contradiction
      · rename_i targets renamed
        obtain rfl := Except.ok.inj resolved
        exact wellFormed.renameEntries renamed

/-- A refused change leaves the table as it was. -/
theorem wellFormed_settle {t : AliasTable} (wellFormed : t.targets.WellFormed)
    {result : Except AliasError AliasTable}
    (granted : ∀ t', result = .ok t' → t'.targets.WellFormed) :
    (t.settle result).1.targets.WellFormed := by
  cases result with
  | error e => exact wellFormed
  | ok t' => exact granted t' rfl

/-- Every call keeps the table well-formed. -/
theorem wellFormed_run {t : AliasTable} (wellFormed : t.targets.WellFormed) (call : AliasCall) :
    (call.run t).value.1.targets.WellFormed := by
  cases call with
  | register canonical nick =>
      exact wellFormed_settle wellFormed fun _ => wellFormed_register wellFormed
  | remove nick => exact wellFormed_settle wellFormed fun _ => wellFormed_remove wellFormed
  | resolve transform => exact wellFormed_settle wellFormed fun _ => wellFormed_resolve wellFormed
  | isAlias | hasAlias | aliasesOf | canonical | setOverriding | overriding => exact wellFormed

theorem wellFormed_afterCalls {t : AliasTable} (wellFormed : t.targets.WellFormed)
    (calls : List AliasCall) : (t.afterCalls calls).targets.WellFormed := by
  induction calls generalizing t with
  | nil => exact wellFormed
  | cons call rest ih => exact ih (wellFormed_run wellFormed call)

theorem isAlias_eq_false_iff {t : AliasTable} {name : Name} :
    t.isAlias name = false ↔ NameMap.find? t.targets name = none := by
  rw [isAlias, NameMap.contains, Option.isSome_eq_false_iff, Option.isNone_iff_eq_none]

theorem canonical_eq_self {t : AliasTable} {name : Name} (noAlias : t.isAlias name = false) :
    t.canonical name = name :=
  AliasMap.canonical_of_last (isAlias_eq_false_iff.mp noAlias)

/-- Without circles, a name that is its own canonical name is no alias. -/
theorem isAlias_of_canonical_eq {t : AliasTable} (acyclic : t.targets.Acyclic) {name : Name}
    (same : t.canonical name = name) : t.isAlias name = false := by
  have last := acyclic.find?_canonical name
  rw [← canonical, same] at last
  exact isAlias_eq_false_iff.mpr last

/-- Whatever has been asked of a new table, it has no circle, no entry from a name to itself and no
empty name; the unbounded walks through it come to their end and to the answers of the bounded
ones; a canonical name is no alias and its own canonical name; and an alias of a name has the
canonical name of that name. -/
theorem walks_end_afterCalls (allowOverriding : Bool) (calls : List AliasCall) :
    let m := (afterCalls { allowOverriding } calls).targets
    (∀ name, ¬ m.Chain name name) ∧
      (∀ nick target, m.Points nick target → nick ≠ target ∧ nick ≠ "" ∧ target ≠ "") ∧
      (∀ name, m.Ends name (m.canonical name)) ∧
      (∀ name nick, m.Decides name nick (m.leadsTo nick name)) ∧
      (∀ name, m.Collects name (NameMap.entries m) (m.aliasesOf name)) ∧
      (∀ name, NameMap.contains m (m.canonical name) = false) ∧
      (∀ name, m.canonical (m.canonical name) = m.canonical name) ∧
      ∀ name nick, m.leadsTo nick name = true → m.canonical nick = m.canonical name := by
  intro m
  have wellFormed : m.WellFormed := wellFormed_afterCalls AliasMap.wellFormed_empty calls
  have acyclic := wellFormed.acyclic
  refine ⟨acyclic, ?noLoop, acyclic.ends_canonical, ?decides, acyclic.collects_aliasesOf,
    ?final, ?idempotent, ?agree⟩
  case noLoop =>
    intro nick target step
    exact ⟨(acyclic.ne_of_points step).symm, wellFormed.named step⟩
  case decides =>
    intro name nick
    exact acyclic.decides_leadsTo nick name
  case final =>
    intro name
    simp [NameMap.contains, acyclic.find?_canonical name]
  case idempotent =>
    intro name
    exact AliasMap.canonical_of_last (acyclic.find?_canonical name)
  case agree =>
    intro name nick leads
    exact acyclic.canonical_of_chain (acyclic.leadsTo_iff_chain.mp leads)

end AliasTable

end Lifecycle
