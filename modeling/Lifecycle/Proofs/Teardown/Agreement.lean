import Lifecycle.Proofs.Alias.WellFormed
import Lifecycle.Proofs.Graph.Search
import Lifecycle.Proofs.Teardown.Remains

/-!
# Dependents that a teardown does not meet

Two walks go along the same edges.  The transitive question takes each name on its way for its
canonical name, a teardown takes it as it is.  They meet the same names as long as no alias stands
among the dependents: of an alias the teardown misses what depends on the instance that the alias
stands for, unless it comes there on another way (`Graph.dependsUnder_subset_fallsWith_iff`).  What
it misses keeps its instance and its disposal.
-/

namespace Lifecycle

open Log

variable {κ : Type}

/-! ## The two walks -/

namespace Graph

variable {aliases : AliasTable} {g : Graph} {key : Name}

/-- All that depends on a name that is no alias falls with it exactly if, for each alias among the
dependents, what depends on the instance that the alias stands for falls with it. -/
theorem dependsUnder_subset_fallsWith_iff (noAlias : aliases.isAlias key = false) :
    (∀ name, g.DependsUnder aliases name key → g.FallsWith name key) ↔
      ∀ nick, aliases.isAlias nick = true → g.DependsUnder aliases nick key →
        ∀ name ∈ g.dependents.of (aliases.canonical nick), g.FallsWith name key := by
  constructor
  · intro follows nick _ depends name further
    exact follows name (depends.tail further)
  · intro follows name depends
    induction depends with
    | single needs =>
        rw [Needs, AliasTable.canonical_eq_self noAlias] at needs
        exact (FallsWith.refl g key).dragged (.inl needs)
    | @tail middle name depends needs ih =>
        cases alias? : aliases.isAlias middle with
        | true => exact follows middle alias? depends name needs
        | false =>
            rw [Needs, AliasTable.canonical_eq_self alias?] at needs
            exact ih.dragged (.inl needs)

end Graph

/-! ## What is left of a name -/

namespace Registry

/-- A registry knows a name: a store holds it, or it has a disposal. -/
def Knows (r : Registry κ) (name : Name) : Prop :=
  name ∈ r.cache.finalized ∨ name ∈ r.cache.early ∨ name ∈ r.cache.pending ∨
    name ∈ r.disposals.keys

/-- A teardown has done away with a name: no store holds it any more, and the disposal that it had
before, if it had one, has run. -/
structure DoneAway (before : Registry κ) (plan : Disposals κ) (left : Registry κ) (name : Name) :
    Prop where
  finalized : name ∉ left.cache.finalized
  early : name ∉ left.cache.early
  pending : name ∉ left.cache.pending
  disposed (callback : κ) : (name, callback) ∈ before.disposals → (name, callback) ∈ plan

/-- A teardown does away with the names that it tears down, and with those of which there was
nothing. -/
theorem TornDown.doneAway_iff {r left : Registry κ} {torn : List Name} {plan : Disposals κ}
    (remains : r.TornDown torn left)
    (ran : ∀ name callback, (name, callback) ∈ plan ↔ (name, callback) ∈ r.disposals ∧ name ∈ torn)
    (name : Name) : r.DoneAway plan left name ↔ name ∈ torn ∨ ¬ r.Knows name := by
  have finalized : name ∈ left.cache.finalized ↔ name ∉ torn ∧ name ∈ r.cache.finalized := by
    by_cases fell : name ∈ torn <;> simp [NameMap.mem_iff_isSome, remains.finalized, fell]
  have early : name ∈ left.cache.early ↔ name ∉ torn ∧ name ∈ r.cache.early := by
    by_cases fell : name ∈ torn <;> simp [NameMap.mem_iff_isSome, remains.early, fell]
  have pending : name ∈ left.cache.pending ↔ name ∉ torn ∧ name ∈ r.cache.pending := by
    by_cases fell : name ∈ torn <;> simp [NameMap.mem_iff_isSome, remains.pending, fell]
  constructor
  · intro gone
    by_cases fell : name ∈ torn
    · exact .inl fell
    · right
      rintro (held | held | held | registered)
      · exact gone.finalized (finalized.mpr ⟨fell, held⟩)
      · exact gone.early (early.mpr ⟨fell, held⟩)
      · exact gone.pending (pending.mpr ⟨fell, held⟩)
      · rcases Disposals.mem_keys_iff.mp registered with ⟨callback, member⟩
        exact fell ((ran name callback).mp (gone.disposed callback member)).2
  · rintro (fell | unknown)
    · exact ⟨fun held => (finalized.mp held).1 fell, fun held => (early.mp held).1 fell,
        fun held => (pending.mp held).1 fell, fun callback member =>
          (ran name callback).mpr ⟨member, fell⟩⟩
    · exact ⟨fun held => unknown (.inl (finalized.mp held).2),
        fun held => unknown (.inr (.inl (early.mp held).2)),
        fun held => unknown (.inr (.inr (.inl (pending.mp held).2))), fun _ member =>
          absurd (.inr (.inr (.inr (Disposals.mem_keys_of_mem member)))) unknown⟩

end Registry

namespace Session

/-- Destroying a key that is no alias, with disposals that do not call the registry, does away with
the names that fall with the key and with no other name of which there is anything.  All names that
are said to depend on the key are among those that fall with it exactly if, for each alias that is
said to depend on the key, what depends on the instance that the alias stands for falls with the
key. -/
theorem dependents_done_away_iff {s : Session κ} {name : Name} {allowOverriding : Bool}
    {ledger : Ledger} (reached : (begin name allowOverriding ledger).Reaches s) {key : Name}
    (noAlias : s.registry.aliases.isAlias key = false) :
    let g := s.registry.graph
    let aliases := s.registry.aliases
    ∃ (plan : Disposals κ) (left : Registry κ), s.Disposes (.destroy key) plan left ∧
      (∀ k, s.registry.DoneAway plan left k ↔ g.FallsWith k key ∨ ¬ s.registry.Knows k) ∧
      ((∀ k, g.isDependent aliases key k = true → g.FallsWith k key) ↔
        ∀ nick, aliases.isAlias nick = true → g.isDependent aliases key nick = true →
          ∀ k ∈ g.dependents.of (aliases.canonical nick), g.FallsWith k key) := by
  intro g aliases
  rcases exists_tornDown reached key with ⟨torn, plan, left, closure, disposes, ran, remains⟩
  refine ⟨plan, left, disposes, ?away, ?agree⟩
  case away =>
    intro k
    rw [← closure]
    exact remains.doneAway_iff ran k
  case agree =>
    simp only [Graph.isDependent_iff]
    exact Graph.dependsUnder_subset_fallsWith_iff noAlias

/-- A key has a dependent and an alias of this dependent as dependents, and there is a dependent of
the dependent: destroying the key does away with all of them. -/
theorem alias_of_dependent_torn_down :
    ∃ s : Session Nat,
      (begin "default" true {}).moves? [.call (.aliases (.register "app" "nick")),
        .call (.graph (.addDependency "db" "app")), .call (.graph (.addDependency "db" "nick")),
        .call (.graph (.addDependency "nick" "page")),
        .call (.teardown (.registerDisposal "page" (some 1)))] = some s ∧
      s.registry.aliases.isAlias "db" = false ∧ s.registry.aliases.isAlias "nick" = true ∧
      s.registry.graph.isDependent s.registry.aliases "db" "nick" = true ∧
      ∃ (plan : Disposals Nat) (left : Registry Nat),
        s.Disposes (.destroy "db") plan left ∧ ("page", 1) ∈ plan ∧
          ∀ k, s.registry.graph.isDependent s.registry.aliases "db" k = true →
            s.registry.DoneAway plan left k := by
  have run : ((begin (κ := Nat) "default" true {}).moves? [
        .call (.aliases (.register "app" "nick")), .call (.graph (.addDependency "db" "app")),
        .call (.graph (.addDependency "db" "nick")), .call (.graph (.addDependency "nick" "page")),
        .call (.teardown (.registerDisposal "page" (some 1)))]).map
      (fun s => (s.registry.aliases.targets.keys, s.registry.disposals,
        (s.registry.graph.dependents.of (s.registry.aliases.canonical "nick")).toList,
        [(s.registry.graph.dependents.of (s.registry.aliases.canonical "db")).contains "nick",
          (s.registry.graph.dependents.of "db").contains "app",
          (s.registry.graph.dependents.of "app").contains "page"])) =
      some (["nick"], [("page", 1)], ["page"], [true, true, true]) := by
    decide +kernel
  rcases Option.map_eq_some_iff.mp run with ⟨s, moved, facts⟩
  simp only [Prod.mk.injEq, List.cons.injEq, and_true] at facts
  rcases facts with ⟨nicks, registered, ofNick, nickNeeds, appDepends, pageDepends⟩
  have isAlias : ∀ name, s.registry.aliases.isAlias name = true ↔ name = "nick" := by
    intro name
    rw [AliasTable.isAlias, NameMap.contains_iff_mem, ← NameMap.mem_keys_iff, nicks,
      List.mem_singleton]
  have noAlias : s.registry.aliases.isAlias "db" = false := by
    rw [Bool.eq_false_iff, Ne, isAlias]
    decide
  have pageFalls : s.registry.graph.FallsWith "page" "db" :=
    ((Graph.FallsWith.refl _ "db").dragged (.inl appDepends)).dragged (.inl pageDepends)
  rcases dependents_done_away_iff ⟨_, moved⟩ noAlias with ⟨plan, left, disposes, away, agree⟩
  have follows : ∀ nick, s.registry.aliases.isAlias nick = true →
      s.registry.graph.isDependent s.registry.aliases "db" nick = true →
        ∀ k ∈ s.registry.graph.dependents.of (s.registry.aliases.canonical nick),
          s.registry.graph.FallsWith k "db" := by
    intro nick alias? _ k depends
    obtain rfl := (isAlias nick).mp alias?
    rw [← NameSet.mem_toList, ofNick, List.mem_singleton] at depends
    exact depends ▸ pageFalls
  refine ⟨s, moved, noAlias, (isAlias "nick").mpr rfl,
    Graph.isDependent_iff.mpr (.single nickNeeds), plan, left, disposes, ?_, ?_⟩
  · exact ((away "page").mpr (.inl pageFalls)).disposed 1 (by simp [registered])
  · exact fun k depends => (away k).mpr (.inl (agree.mpr follows k depends))

/-- A key has an alias as its only dependent: what depends on the instance that the alias stands for
is said to depend on the key as well, but it is not torn down with it. -/
theorem dependent_of_alias_survives :
    ∃ s t : Session Nat,
      (begin "default" true {}).moves? [.call (.aliases (.register "app" "nick")),
        .call (.graph (.addDependency "db" "nick")), .call (.graph (.addDependency "app" "page")),
        .call (.cache (.registerFinalized "page" (some ⟨"Service", 1⟩))),
        .call (.teardown (.registerDisposal "page" (some 1)))] = some s ∧
      s.registry.aliases.isAlias "db" = false ∧
      s.registry.graph.isDependent s.registry.aliases "db" "page" = true ∧
      s.moves? [.call (.teardown (.destroy "db"))] = some t ∧ t.stack = [] ∧
      t.registry.cache.get "page" = some ⟨"Service", 1⟩ ∧
      t.registry.disposals.has "page" = true := by
  let moves : List (Move Nat) := [.call (.aliases (.register "app" "nick")),
    .call (.graph (.addDependency "db" "nick")), .call (.graph (.addDependency "app" "page")),
    .call (.cache (.registerFinalized "page" (some ⟨"Service", 1⟩))),
    .call (.teardown (.registerDisposal "page" (some 1)))]
  have run : ((begin (κ := Nat) "default" true {}).moves? moves).map (fun s =>
      (s.registry.aliases.isAlias "db",
        (s.registry.graph.dependents.of (s.registry.aliases.canonical "db")).contains "nick",
        (s.registry.graph.dependents.of (s.registry.aliases.canonical "nick")).contains "page")) =
      some (false, true, true) := by
    decide +kernel
  have onward : (((begin (κ := Nat) "default" true {}).moves? moves).bind fun s =>
      s.moves? [.call (.teardown (.destroy "db"))]).map (fun t =>
        (t.stack, t.registry.cache.get "page", t.registry.disposals.has "page")) =
      some ([], some ⟨"Service", 1⟩, true) := by
    decide +kernel
  rcases Option.map_eq_some_iff.mp run with ⟨s, reached, facts⟩
  rw [reached, Option.bind_some] at onward
  rcases Option.map_eq_some_iff.mp onward with ⟨t, moved, facts'⟩
  simp only [Prod.mk.injEq] at facts facts'
  rcases facts with ⟨noAlias, nickNeeds, pageNeeds⟩
  exact ⟨s, t, reached, noAlias,
    Graph.isDependent_iff.mpr (Relation.TransGen.tail (.single nickNeeds) pageNeeds), moved, facts'⟩

end Session

end Lifecycle
