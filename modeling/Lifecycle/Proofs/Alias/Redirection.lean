import Lifecycle.Proofs.Alias.WellFormed

/-!
# What one changed entry does to the canonical names

An alias is registered anew, or removed, while other aliases lead to it.  The entry of one name
changes, and with it the canonical name of every name whose walk comes by that name
(`AliasMap.Meets`); all other walks stay as they are (`AliasMap.Acyclic.canonical_of_changed`).

The test for circles looks at the map as it is before the change, with the entry that is going to be
replaced still in it.  It is exact all the same, because a walk that comes to the alias does not use
the entry of the alias on its way (`AliasMap.Acyclic.insert_iff`).
-/

namespace Lifecycle

namespace AliasMap

/-- The walk from a name comes by another one: it begins there, or its chain leads there. -/
def Meets (m : AliasMap) (name met : Name) : Prop := name = met ∨ m.Chain name met

/-- Two maps have the same entries, but for the entry of one name. -/
def ChangesAt (m : AliasMap) (changed : Name) (m' : AliasMap) : Prop :=
  ∀ name, name ≠ changed → NameMap.find? m' name = NameMap.find? m name

variable {m m' : AliasMap} {name changed new : Name}

theorem ChangesAt.refl (m : AliasMap) (changed : Name) : m.ChangesAt changed m := fun _ _ => rfl

theorem changesAt_insert (m : AliasMap) (changed new : Name) :
    m.ChangesAt changed (NameMap.insert m changed new) := by
  intro name differ
  rw [NameMap.find?_insert, if_neg differ]

theorem changesAt_erase (m : AliasMap) (changed : Name) :
    m.ChangesAt changed (NameMap.erase m changed) := by
  intro name differ
  rw [NameMap.find?_erase, if_neg differ]

theorem points_insert_self : AliasMap.Points (NameMap.insert m changed new) changed new :=
  NameMap.find?_insert_self m changed new

/-- A chain that leads to the changed name does not use the changed entry. -/
theorem ChangesAt.chain (changes : m.ChangesAt changed m') (acyclic : m.Acyclic)
    (chain : m.Chain name changed) : m'.Chain name changed := by
  have differ : name ≠ changed := by
    rintro rfl
    exact acyclic name chain
  induction chain with
  | single step => exact .single ((changes _ differ).trans step)
  | @cons name middle changed step rest ih =>
      have differ' : middle ≠ changed := by
        rintro rfl
        exact acyclic middle rest
      exact .cons ((changes name differ).trans step) (ih changes differ')

/-- A walk that does not come by the changed name stays as it is. -/
theorem ChangesAt.ends (changes : m.ChangesAt changed m') {last : Name} (ends : m.Ends name last)
    (apart : ¬ m.Meets name changed) : m'.Ends name last := by
  induction ends with
  | @here name noTarget => exact .here ((changes name (apart ∘ .inl)).trans noTarget)
  | @step name target _ step _ ih =>
      have onward : ¬ m.Meets target changed := fun meets =>
        apart (.inr ((chain_iff_of_points step).mpr meets))
      exact .step ((changes name (apart ∘ .inl)).trans step) (ih onward)

namespace Acyclic

/-- When the entry of one name changes, the names whose walk comes by it get its new canonical name,
and all others keep theirs. -/
theorem canonical_of_changed (acyclic : m.Acyclic) (acyclic' : m'.Acyclic)
    (changes : m.ChangesAt changed m') (name : Name) :
    (m.Meets name changed → m'.canonical name = m'.canonical changed) ∧
      (¬ m.Meets name changed → m'.canonical name = m.canonical name) := by
  constructor
  · rintro (rfl | chain)
    · rfl
    · exact acyclic'.canonical_of_chain (changes.chain acyclic chain)
  · intro apart
    exact acyclic'.canonical_eq_of_ends (changes.ends (acyclic.ends_canonical name) apart)

/-- A new entry closes a circle exactly if the walk from its target comes by its alias, whatever
stood for the alias before. -/
theorem insert_iff (acyclic : m.Acyclic) :
    Acyclic (NameMap.insert m changed new) ↔ ¬ m.Meets new changed := by
  constructor
  · rintro acyclic' (rfl | chain)
    · exact acyclic' new (.single points_insert_self)
    · have back := (m.changesAt_insert changed new).chain acyclic chain
      exact acyclic' changed (.cons points_insert_self back)
  · intro apart
    exact acyclic.insert (apart ∘ .inl) (apart ∘ .inr)

/-- A new entry gives its alias the canonical name that its target had before. -/
theorem canonical_insert_self (acyclic : m.Acyclic)
    (acyclic' : Acyclic (NameMap.insert m changed new)) :
    canonical (NameMap.insert m changed new) changed = m.canonical new := by
  rw [acyclic'.canonical_of_points points_insert_self]
  exact (acyclic.canonical_of_changed acyclic' (m.changesAt_insert changed new) new).2
    (acyclic.insert_iff.mp acyclic')

/-- The test for circles is exact. -/
theorem link_eq (acyclic : m.Acyclic) (differ : changed ≠ new) :
    (¬ Acyclic (NameMap.insert m changed new) ∧ m.link new changed = .error (.circular changed new)) ∨
      Acyclic (NameMap.insert m changed new) ∧
        m.link new changed = .ok (NameMap.insert m changed new) := by
  rw [acyclic.insert_iff, Meets, or_iff_right differ.symm, ← acyclic.leadsTo_iff_chain]
  unfold link
  split
  · rename_i leads
    exact .inl ⟨fun apart => apart leads, rfl⟩
  · rename_i apart
    exact .inr ⟨apart, rfl⟩

end Acyclic

end AliasMap

namespace AliasTable

/-- What becomes of a request to register an alias for another name, by what the alias stands for
already and what the table allows. -/
inductive Registers (t : AliasTable) (canonical nick : Name) : Except AliasError AliasTable → Prop
  /-- The alias stands for the name already. -/
  | known (points : t.targets.Points nick canonical) : Registers t canonical nick (.ok t)
  | taken {current : Name} (points : t.targets.Points nick current) (differ : current ≠ canonical)
      (fixed : t.allowOverriding = false) :
      Registers t canonical nick (.error (.taken nick canonical current))
  /-- The alias is free, or may be redefined, but the entry would close a circle. -/
  | circular (apart : ¬ t.targets.Points nick canonical)
      (may : t.isAlias nick = true → t.allowOverriding = true)
      (closes : ¬ AliasMap.Acyclic (NameMap.insert t.targets nick canonical)) :
      Registers t canonical nick (.error (.circular nick canonical))
  | added (apart : ¬ t.targets.Points nick canonical)
      (may : t.isAlias nick = true → t.allowOverriding = true)
      (opens : AliasMap.Acyclic (NameMap.insert t.targets nick canonical)) :
      Registers t canonical nick (.ok { t with targets := NameMap.insert t.targets nick canonical })

variable {t : AliasTable} {canonical nick : Name}

/-- An alias that is free or may be redefined is registered unless that closes a circle. -/
theorem registers_link (acyclic : t.targets.Acyclic) (differ : nick ≠ canonical)
    (apart : ¬ t.targets.Points nick canonical)
    (may : t.isAlias nick = true → t.allowOverriding = true) :
    t.Registers canonical nick (t.link canonical nick).value := by
  rcases acyclic.link_eq differ with ⟨closes, linked⟩ | ⟨opens, linked⟩
  · rw [link, linked]
    exact .circular apart may closes
  · rw [link, linked]
    exact .added apart may opens

theorem registers_register (acyclic : t.targets.Acyclic) (canonicalNe : canonical ≠ "")
    (nickNe : nick ≠ "") (differ : nick ≠ canonical) :
    t.Registers canonical nick (t.register canonical nick).value := by
  rw [register, if_neg canonicalNe, if_neg nickNe, if_neg differ]
  cases found : NameMap.find? t.targets nick with
  | none =>
      have free : t.isAlias nick = false := isAlias_eq_false_iff.mpr found
      apply registers_link acyclic differ
      · simp [AliasMap.Points, found]
      · simp [free]
  | some current =>
      have points : t.targets.Points nick current := found
      by_cases same : current = canonical
      · subst same
        simp only [if_true]
        exact .known points
      · have apart : ¬ t.targets.Points nick canonical := by
          simp [AliasMap.Points, found, same]
        cases policy : t.allowOverriding with
        | false =>
            simp only [if_neg same, Bool.not_false, if_true]
            exact .taken points same policy
        | true =>
            simp only [if_neg same, Bool.not_true, Bool.false_eq_true, if_false]
            exact registers_link acyclic differ apart fun _ => policy

end AliasTable

end Lifecycle
