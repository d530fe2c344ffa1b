import Lifecycle.Proofs.Alias.Chain

/-!
# Walks without a bound

The walks through an alias map leave out each entry once it is used, and so they end on any map.
Here the same walks go on without that precaution, as relations: a derivation is a walk that comes
to its end, and a walk that is caught in a circle has none.  In a map without circles each of them
comes to its end, with the result of the bounded walk.
-/

namespace Lifecycle.AliasMap

/-- The walk from a name, one target after the other, ends at a name that is no alias. -/
inductive Ends (m : AliasMap) : Name → Name → Prop where
  | here {name : Name} (last : NameMap.find? m name = none) : Ends m name name
  | step {name target last : Name} (step : m.Points name target) (rest : Ends m target last) :
      Ends m name last

/-- The walk from a name in search of another one comes to an answer. -/
inductive Decides (m : AliasMap) (sought : Name) : Name → Bool → Prop where
  | absent {name : Name} (last : NameMap.find? m name = none) : Decides m sought name false
  | found {name : Name} (step : m.Points name sought) : Decides m sought name true
  | onward {name target : Name} {answer : Bool} (step : m.Points name target)
      (differ : target ≠ sought) (rest : Decides m sought target answer) :
      Decides m sought name answer

/-- The walk down from a name through a list of entries collects the aliases that stand for the
name, each followed by the aliases that a walk through the whole map collects for it. -/
inductive Collects (m : AliasMap) : Name → List (Name × Name) → List Name → Prop where
  | done {name : Name} : Collects m name [] []
  | skip {name nick target : Name} {entries : List (Name × Name)} {names : List Name}
      (differ : target ≠ name) (rest : Collects m name entries names) :
      Collects m name ((nick, target) :: entries) names
  | take {name nick : Name} {entries : List (Name × Name)} {below names : List Name}
      (down : Collects m nick (NameMap.entries m) below) (rest : Collects m name entries names) :
      Collects m name ((nick, name) :: entries) (nick :: below ++ names)

/-! ## Canonical names -/

/-- A name that is no alias is its own canonical name. -/
theorem canonical_of_last {m : AliasMap} {name : Name} (last : NameMap.find? m name = none) :
    m.canonical name = name := by
  rw [canonical]
  split
  · rfl
  · simp_all

theorem canonical_eq_erase {m : AliasMap} {nick target : Name} (step : m.Points nick target) :
    m.canonical nick = canonical (NameMap.erase m nick) target := by
  rw [canonical]
  split <;> simp_all [Points]

theorem Ends.last {m : AliasMap} {name last : Name} (ends : m.Ends name last) :
    NameMap.find? m last = none := by
  induction ends with
  | here last => exact last
  | step _ _ ih => exact ih

theorem Ends.unique {m : AliasMap} {name last last' : Name} (ends : m.Ends name last)
    (ends' : m.Ends name last') : last = last' := by
  induction ends with
  | here noTarget =>
      cases ends' with
      | here => rfl
      | step step' _ => exact absurd (noTarget.symm.trans step') (Option.some_ne_none _).symm
  | step step _ ih =>
      cases ends' with
      | here noTarget' => exact absurd (noTarget'.symm.trans step) (Option.some_ne_none _).symm
      | step step' rest' =>
          obtain rfl := Option.some.inj (step.symm.trans step')
          exact ih rest'

/-- A walk that does not pass an entry is the same with that entry. -/
theorem Ends.of_erase {m : AliasMap} {dropped name last : Name}
    (ends : Ends (NameMap.erase m dropped) name last) (differ : name ≠ dropped)
    (apart : ¬ m.Chain name dropped) : m.Ends name last := by
  induction ends with
  | here noTarget =>
      rw [NameMap.find?_erase, if_neg differ] at noTarget
      exact Ends.here noTarget
  | @step name target _ step _ ih =>
      have old : m.Points name target := (points_erase_iff.mp step).2
      have targetNe : target ≠ dropped := by
        rintro rfl
        exact apart (Chain.single old)
      exact Ends.step old (ih targetNe fun onward => apart (Chain.cons old onward))

/-- Without circles, the walk from a name ends at its canonical name. -/
theorem Acyclic.ends_canonical {m : AliasMap} (acyclic : m.Acyclic) (name : Name) :
    m.Ends name (m.canonical name) := by
  induction m, name using canonical.induct with
  | case1 m name last =>
      rw [canonical_of_last last]
      exact Ends.here last
  | case2 m name target step ih =>
      rw [canonical_eq_erase step]
      have rest := ih (acyclic.erase name)
      exact Ends.step step
        (rest.of_erase (acyclic.ne_of_points step) (acyclic.not_chain_of_points step))

theorem Acyclic.canonical_eq_of_ends {m : AliasMap} (acyclic : m.Acyclic) {name last : Name}
    (ends : m.Ends name last) : m.canonical name = last :=
  (acyclic.ends_canonical name).unique ends

/-- A canonical name is no alias. -/
theorem Acyclic.find?_canonical {m : AliasMap} (acyclic : m.Acyclic) (name : Name) :
    NameMap.find? m (m.canonical name) = none :=
  (acyclic.ends_canonical name).last

theorem Acyclic.canonical_of_points {m : AliasMap} (acyclic : m.Acyclic) {nick target : Name}
    (step : m.Points nick target) : m.canonical nick = m.canonical target :=
  acyclic.canonical_eq_of_ends (Ends.step step (acyclic.ends_canonical target))

/-- All names of a chain have one canonical name. -/
theorem Acyclic.canonical_of_chain {m : AliasMap} (acyclic : m.Acyclic) {nick target : Name}
    (chain : m.Chain nick target) : m.canonical nick = m.canonical target := by
  induction chain with
  | single step => exact acyclic.canonical_of_points step
  | cons step _ ih => exact (acyclic.canonical_of_points step).trans ih

/-! ## Whether an alias leads to a name -/

theorem leadsTo_of_last {m : AliasMap} {nick name : Name}
    (last : NameMap.find? m nick = none) : m.leadsTo nick name = false := by
  rw [leadsTo]
  split
  · rfl
  · simp_all

theorem leadsTo_eq_erase {m : AliasMap} {nick target name : Name} (step : m.Points nick target) :
    m.leadsTo nick name = (target = name || leadsTo (NameMap.erase m nick) target name) := by
  rw [leadsTo]
  split <;> simp_all [Points]

/-- Without circles, an alias leads to the names of its chain. -/
theorem Acyclic.leadsTo_iff_chain {m : AliasMap} (acyclic : m.Acyclic) {nick name : Name} :
    m.leadsTo nick name = true ↔ m.Chain nick name := by
  induction m, nick using leadsTo.induct with
  | case1 m nick last =>
      rw [leadsTo_of_last last]
      simpa using not_chain_of_last last
  | case2 m nick target step ih =>
      rw [leadsTo_eq_erase step, Bool.or_eq_true, decide_eq_true_iff, ih (acyclic.erase nick),
        acyclic.chain_erase_iff step, chain_iff_of_points step]

theorem Decides.of_erase {m : AliasMap} {dropped sought name : Name} {answer : Bool}
    (decides : Decides (NameMap.erase m dropped) sought name answer) (differ : name ≠ dropped)
    (apart : ¬ m.Chain name dropped) : m.Decides sought name answer := by
  induction decides with
  | absent noTarget =>
      rw [NameMap.find?_erase, if_neg differ] at noTarget
      exact Decides.absent noTarget
  | found step => exact Decides.found (points_erase_iff.mp step).2
  | @onward name target _ step notSought _ ih =>
      have old : m.Points name target := (points_erase_iff.mp step).2
      have targetNe : target ≠ dropped := by
        rintro rfl
        exact apart (Chain.single old)
      exact Decides.onward old notSought
        (ih targetNe fun onward => apart (Chain.cons old onward))

/-- Without circles, the search for a name comes to an answer. -/
theorem Acyclic.decides_leadsTo {m : AliasMap} (acyclic : m.Acyclic) (nick name : Name) :
    m.Decides name nick (m.leadsTo nick name) := by
  induction m, nick using leadsTo.induct with
  | case1 m nick last =>
      rw [leadsTo_of_last last]
      exact Decides.absent last
  | case2 m nick target step ih =>
      rw [leadsTo_eq_erase step]
      by_cases direct : target = name
      · subst direct
        simpa using Decides.found step
      · have rest : m.Decides name target (leadsTo (NameMap.erase m nick) target name) :=
          (ih (acyclic.erase nick)).of_erase (acyclic.ne_of_points step)
            (acyclic.not_chain_of_points step)
        simpa [direct] using Decides.onward step direct rest

/-! ## The aliases of a name -/

theorem aliasesOf_eq_erase (m : AliasMap) (name : Name) :
    m.aliasesOf name = (NameMap.entries m).flatMap fun entry =>
      if entry.2 = name then
        entry.1 :: aliasesOf (NameMap.erase m entry.1) entry.1
      else
        [] := by
  rw [aliasesOf]
  refine (List.flatMap_map Subtype.val (fun entry : Name × Name =>
    if entry.2 = name then entry.1 :: aliasesOf (NameMap.erase m entry.1) entry.1 else [])
    (NameMap.entries m).attach).symm.trans ?_
  rw [List.attach_map_subtype_val]

private theorem flatMap_filter_eq {α β : Type} {keep : α → Bool} {f g : α → List β}
    {items : List α} (kept : ∀ item ∈ items, keep item = true → f item = g item)
    (left : ∀ item ∈ items, keep item = false → g item = []) :
    (items.filter keep).flatMap f = items.flatMap g := by
  induction items with
  | nil => rfl
  | cons head rest ih =>
      have rest_eq := ih (fun item member => kept item (List.mem_cons_of_mem _ member))
        fun item member => left item (List.mem_cons_of_mem _ member)
      cases test : keep head with
      | true => simp [test, rest_eq, kept head List.mem_cons_self test]
      | false => simp [test, rest_eq, left head List.mem_cons_self test]

/-- An entry that does not lead to a name plays no part in the collection of its aliases. -/
theorem aliasesOf_erase {m : AliasMap} {dropped name : Name} (apart : ¬ m.Chain dropped name) :
    aliasesOf (NameMap.erase m dropped) name = m.aliasesOf name := by
  induction size : NameMap.size m using Nat.strongRecOn generalizing m name with
  | ind _ ih =>
      rw [aliasesOf_eq_erase, aliasesOf_eq_erase m]
      apply flatMap_filter_eq
      · rintro ⟨nick, target⟩ member _
        by_cases direct : target = name
        · subst direct
          have step : m.Points nick target := NameMap.find?_eq_some_of_mem member
          have nickApart : ¬ Chain (NameMap.erase m nick) dropped nick := fun chain =>
            apart (chain.of_erase.trans (Chain.single step))
          have smaller : NameMap.size (NameMap.erase m nick) < NameMap.size m :=
            NameMap.size_erase_lt_of_mem member
          simp only [if_true]
          rw [NameMap.erase_comm, ih _ (size ▸ smaller) nickApart rfl]
        · simp [direct]
      · rintro ⟨nick, target⟩ member isDropped
        have step : m.Points nick target := NameMap.find?_eq_some_of_mem member
        have same : nick = dropped := by simpa using isDropped
        have differ : target ≠ name := by
          rintro rfl
          exact apart (same ▸ Chain.single step)
        simp [differ]

/-- Without circles, the aliases of a name are the entries that stand for it, each followed by its
own aliases. -/
theorem Acyclic.aliasesOf_eq {m : AliasMap} (acyclic : m.Acyclic) (name : Name) :
    m.aliasesOf name = (NameMap.entries m).flatMap fun entry =>
      if entry.2 = name then entry.1 :: m.aliasesOf entry.1 else [] := by
  rw [aliasesOf_eq_erase]
  congr 1
  funext entry
  rw [aliasesOf_erase (acyclic entry.1)]

/-- An alias has fewer aliases than the name it stands for. -/
theorem Acyclic.length_aliasesOf_lt {m : AliasMap} (acyclic : m.Acyclic) {nick name : Name}
    (step : m.Points nick name) : (m.aliasesOf nick).length < (m.aliasesOf name).length := by
  have member : (nick, name) ∈ NameMap.entries m := NameMap.mem_entries_iff.mpr step
  rcases List.append_of_mem member with ⟨before, after, entries_eq⟩
  rw [acyclic.aliasesOf_eq name, entries_eq]
  simp
  omega

/-- Without circles, the collection of the aliases of a name comes to its end. -/
theorem Acyclic.collects_aliasesOf {m : AliasMap} (acyclic : m.Acyclic) (name : Name) :
    m.Collects name (NameMap.entries m) (m.aliasesOf name) := by
  induction length : (m.aliasesOf name).length using Nat.strongRecOn generalizing name with
  | ind _ ih =>
      rw [acyclic.aliasesOf_eq name]
      -- The inner induction is on the entries that are still to be looked at.
      suffices scan : ∀ entries : List (Name × Name), (∀ entry ∈ entries, entry ∈ m.entries) →
          m.Collects name entries (entries.flatMap fun entry =>
            if entry.2 = name then entry.1 :: m.aliasesOf entry.1 else []) from
        scan _ fun _ member => member
      intro entries listed
      induction entries with
      | nil => exact Collects.done
      | cons entry rest ihRest =>
          rcases entry with ⟨nick, target⟩
          have restCollects := ihRest fun entry member => listed entry (List.mem_cons_of_mem _ member)
          by_cases direct : target = name
          · subst direct
            have step : m.Points nick target :=
              NameMap.mem_entries_iff.mp (listed _ List.mem_cons_self)
            have down := ih _ (length ▸ acyclic.length_aliasesOf_lt step) nick rfl
            simpa using Collects.take down restCollects
          · simpa [direct] using Collects.skip direct restCollects

end Lifecycle.AliasMap
