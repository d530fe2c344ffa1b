import Lifecycle.Alias

/-!
# Chains in alias maps

How chains change when an entry of the map is dropped or set, and when that keeps the map free of
circles.  Setting an entry is safe exactly when the chain of the new target does not come back to
the alias; the entry that is replaced may still be in the map when this is checked, because a
chain that comes to the alias need not go on through it.
-/

namespace Lifecycle.AliasMap

/-! ## Chains -/

theorem Chain.trans {m : AliasMap} {nick middle target : Name} (first : m.Chain nick middle)
    (second : m.Chain middle target) : m.Chain nick target := by
  induction first with
  | single step => exact Chain.cons step second
  | cons step _ ih => exact Chain.cons step (ih second)

/-- A chain carries over to a map that has the entries it uses. -/
theorem Chain.mono {m m' : AliasMap}
    (sub : ∀ nick target, m.Points nick target → m'.Points nick target) {nick target : Name}
    (chain : m.Chain nick target) : m'.Chain nick target := by
  induction chain with
  | single step => exact Chain.single (sub _ _ step)
  | cons step _ ih => exact Chain.cons (sub _ _ step) ih

/-- The chain of an alias begins at its target. -/
theorem chain_iff_of_points {m : AliasMap} {nick target name : Name}
    (step : m.Points nick target) :
    m.Chain nick name ↔ target = name ∨ m.Chain target name := by
  constructor
  · intro chain
    cases chain with
    | single step' => exact .inl (Option.some.inj (step.symm.trans step'))
    | cons step' rest =>
        obtain rfl := Option.some.inj (step.symm.trans step')
        exact .inr rest
  · rintro (rfl | rest)
    · exact Chain.single step
    · exact Chain.cons step rest

/-- A name that is no alias has no chain. -/
theorem not_chain_of_last {m : AliasMap} {nick name : Name} (last : NameMap.find? m nick = none) :
    ¬ m.Chain nick name := by
  intro chain
  cases chain with
  | single step => exact Option.some_ne_none _ (step.symm.trans last)
  | cons step _ => exact Option.some_ne_none _ (step.symm.trans last)

theorem Acyclic.ne_of_points {m : AliasMap} (acyclic : m.Acyclic) {nick target : Name}
    (step : m.Points nick target) : target ≠ nick := by
  rintro rfl
  exact acyclic _ (Chain.single step)

/-- The chain of a target does not come back to its alias. -/
theorem Acyclic.not_chain_of_points {m : AliasMap} (acyclic : m.Acyclic) {nick target : Name}
    (step : m.Points nick target) : ¬ m.Chain target nick :=
  fun back => acyclic nick (Chain.cons step back)

/-! ## Dropping an entry -/

theorem points_erase_iff {m : AliasMap} {dropped nick target : Name} :
    AliasMap.Points (NameMap.erase m dropped) nick target ↔
      nick ≠ dropped ∧ m.Points nick target := by
  by_cases same : nick = dropped <;> simp [Points, NameMap.find?_erase, same]

theorem Chain.of_erase {m : AliasMap} {dropped nick target : Name}
    (chain : Chain (NameMap.erase m dropped) nick target) : m.Chain nick target :=
  chain.mono fun _ _ step => (points_erase_iff.mp step).2

/-- A chain that does not pass an entry does without it. -/
theorem Chain.erase {m : AliasMap} {dropped nick target : Name} (chain : m.Chain nick target)
    (differ : nick ≠ dropped) (apart : ¬ m.Chain nick dropped) :
    Chain (NameMap.erase m dropped) nick target := by
  induction chain with
  | single step => exact Chain.single (points_erase_iff.mpr ⟨differ, step⟩)
  | @cons nick middle _ step rest ih =>
      have middleNe : middle ≠ dropped := by
        rintro rfl
        exact apart (Chain.single step)
      have middleApart : ¬ m.Chain middle dropped := fun onward => apart (Chain.cons step onward)
      exact Chain.cons (points_erase_iff.mpr ⟨differ, step⟩) (ih middleNe middleApart)

theorem Acyclic.erase {m : AliasMap} (acyclic : m.Acyclic) (dropped : Name) :
    Acyclic (NameMap.erase m dropped) :=
  fun name chain => acyclic name chain.of_erase

/-- Without circles, the chain of a target is the same with and without the entry that leads to
it. -/
theorem Acyclic.chain_erase_iff {m : AliasMap} (acyclic : m.Acyclic) {nick target name : Name}
    (step : m.Points nick target) :
    Chain (NameMap.erase m nick) target name ↔ m.Chain target name :=
  ⟨Chain.of_erase, fun chain =>
    chain.erase (acyclic.ne_of_points step) (acyclic.not_chain_of_points step)⟩

/-! ## Setting an entry -/

theorem points_insert_iff {m : AliasMap} {set new nick target : Name} :
    AliasMap.Points (NameMap.insert m set new) nick target ↔
      (nick = set ∧ target = new) ∨ (nick ≠ set ∧ m.Points nick target) := by
  by_cases same : nick = set
  · subst same
    simp [Points, eq_comm]
  · simp [Points, NameMap.find?_insert, same]

/-- A chain in a map with a new entry is an old one, or it comes to the new entry along an old one
and goes on from its target along an old one. -/
theorem Chain.of_insert {m : AliasMap} {set new nick target : Name}
    (noReturn : ¬ (new = set ∨ m.Chain new set))
    (chain : Chain (NameMap.insert m set new) nick target) :
    m.Chain nick target ∨
      (nick = set ∨ m.Chain nick set) ∧ (new = target ∨ m.Chain new target) := by
  induction chain with
  | single step =>
      rcases points_insert_iff.mp step with ⟨rfl, rfl⟩ | ⟨_, old⟩
      · exact .inr ⟨.inl rfl, .inl rfl⟩
      · exact .inl (Chain.single old)
  | @cons nick _ _ step _ ih =>
      rcases points_insert_iff.mp step with ⟨rfl, rfl⟩ | ⟨_, old⟩
      · -- The chain begins with the new entry, and its rest does not come back to it.
        rcases ih with rest | ⟨back, _⟩
        · exact .inr ⟨.inl rfl, .inr rest⟩
        · exact absurd back noReturn
      · rcases ih with rest | ⟨onward, rest⟩
        · exact .inl (Chain.cons old rest)
        · have toSet : m.Chain nick set := by
            rcases onward with rfl | onward
            · exact Chain.single old
            · exact Chain.cons old onward
          exact .inr ⟨.inr toSet, rest⟩

/-- An entry whose target does not lead back to the alias closes no circle, whatever stood for the
alias before. -/
theorem Acyclic.insert {m : AliasMap} (acyclic : m.Acyclic) {set new : Name} (differ : new ≠ set)
    (apart : ¬ m.Chain new set) : Acyclic (NameMap.insert m set new) := by
  have noReturn : ¬ (new = set ∨ m.Chain new set) := by
    rintro (same | back)
    · exact differ same
    · exact apart back
  intro name chain
  rcases chain.of_insert noReturn with old | ⟨toSet, fromNew⟩
  · exact acyclic name old
  · apply noReturn
    rcases fromNew with rfl | fromNew
    · exact toSet
    · rcases toSet with rfl | toSet
      · exact .inr fromNew
      · exact .inr (fromNew.trans toSet)

theorem acyclic_empty : Acyclic ∅ :=
  fun _ => not_chain_of_last (NameMap.find?_empty _)

end Lifecycle.AliasMap
