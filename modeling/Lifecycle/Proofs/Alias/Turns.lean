import Lifecycle.Proofs.Alias.Renaming
import Mathlib.Logic.Relation

/-!
# When a renaming succeeds

The entries of a map are renamed in ascending order of their aliases, and each one is tested against
the map as it is at its turn: the entries before it have been renamed and those after it have not
(`AliasMap.Halfway`).  A renaming succeeds exactly if every entry that it keeps passes at its turn
(`AliasMap.exists_rename_iff`).

The tests at the turns ask for more than that the renamed entries, taken together, give every alias
one target and have no circle.  An alias whose new name is that of a later alias is compared with
what the later one stood for before, and a chain may lead through entries that the renaming is about
to drop; so the verdict depends on the order of the names (`AliasTable.conflict_depends_on_order`).
-/

namespace Lifecycle

open Log

namespace AliasMap

/-- What the entries of a map become by a renaming, all of them taken together. -/
def Renamed (m : AliasMap) (transform : Transform) (nick target : Name) : Prop :=
  ∃ oldNick oldTarget, m.Points oldNick oldTarget ∧
    renamed? transform oldNick oldTarget = some (nick, target)

/-- What the other names stand for when it is the turn of an alias to be renamed: the aliases before
it have been renamed, and those after it have not. -/
def Halfway (m : AliasMap) (transform : Transform) (turn nick target : Name) : Prop :=
  turn < nick ∧ m.Points nick target ∨
    nick ≠ turn ∧ ∃ oldNick oldTarget, oldNick < turn ∧ m.Points oldNick oldTarget ∧
      renamed? transform oldNick oldTarget = some (nick, target)

/-- A name that a renaming does not give up. -/
def Transform.Keeps (transform : Transform) (name : Name) : Prop :=
  ∃ name', transform name = some name' ∧ name' ≠ ""

theorem chain_iff_transGen {m : AliasMap} {nick target : Name} :
    m.Chain nick target ↔ Relation.TransGen m.Points nick target := by
  constructor
  · intro chain
    induction chain with
    | single step => exact .single step
    | cons step _ ih => exact .head step ih
  · intro chain
    induction chain using Relation.TransGen.head_induction_on with
    | single step => exact .single step
    | head step _ ih => exact .cons step ih

/-! ## One entry -/

theorem exists_link_iff {m : AliasMap} (acyclic : m.Acyclic) {canonical nick : Name} :
    (∃ m', m.link canonical nick = .ok m') ↔ ¬ m.Chain canonical nick := by
  rw [← acyclic.leadsTo_iff_chain, link]
  split <;> simp_all

/-- An entry can be renamed exactly if, in the rest of the map, its new alias stands for nothing but
its new target, and the new target does not lead to the new alias. -/
theorem exists_renameEntry_iff {m : AliasMap} (acyclic : m.Acyclic) {transform : Transform}
    {nick target : Name} (held : m.Points nick target) :
    (∃ m', m.renameEntry transform (nick, target) = .ok m') ↔
      ∀ nick' target', renamed? transform nick target = some (nick', target') →
        (∀ current, AliasMap.Points (NameMap.erase m nick) nick' current → current = target') ∧
          ¬ Chain (NameMap.erase m nick) target' nick' := by
  have others := acyclic.erase nick
  simp only [renameEntry]
  split
  · -- The entry is given up.
    rename_i lost
    simp [lost]
  · rename_i nick' target' survives
    simp only [survives, Option.some.injEq, Prod.mk.injEq, and_imp, forall_apply_eq_imp_iff,
      forall_eq']
    by_cases sameNick : nick' = nick
    · subst sameNick
      have free : ∀ current, ¬ AliasMap.Points (NameMap.erase m nick') nick' current := fun _ points =>
        (points_erase_iff.mp points).1 rfl
      rw [if_pos rfl]
      split
      · -- The entry stays as it is.
        rename_i sameTarget
        subst sameTarget
        have apart : ¬ Chain (NameMap.erase m nick') target' nick' := fun back =>
          acyclic.not_chain_of_points held back.of_erase
        simp [free, apart]
      · simp [free, exists_link_iff others]
    · rw [if_neg sameNick]
      have same : ∀ current, AliasMap.Points (NameMap.erase m nick) nick' current ↔
          m.Points nick' current := by simp [points_erase_iff, sameNick]
      simp only [same]
      cases found : NameMap.find? m nick' with
      | none =>
          have free : ∀ current, ¬ m.Points nick' current := by simp [Points, found]
          simp [free, exists_link_iff others]
      | some current =>
          have points : m.Points nick' current := found
          have only : ∀ current', m.Points nick' current' ↔ current = current' := fun current' =>
            ⟨points_unique points, fun equal => equal ▸ points⟩
          by_cases redundant : current = target'
          · subst redundant
            have apart : ¬ Chain (NameMap.erase m nick) current nick' := fun back =>
              acyclic.not_chain_of_points points back.of_erase
            simp [only, apart]
          · simp [only, redundant]

/-! ## All entries -/

section

variable {m m' : AliasMap} {transform : Transform} {entries : List (Name × Name)}

/-- A row of entries can be renamed exactly if each of them can when those before it have been. -/
theorem exists_renameEntries_iff :
    (∃ m', entries.foldlM (renameEntry transform) m = .ok m') ↔
      ∀ first entry rest, entries = first ++ entry :: rest → ∀ middle,
        first.foldlM (renameEntry transform) m = .ok middle →
          ∃ m', middle.renameEntry transform entry = .ok m' := by
  induction entries generalizing m with
  | nil => exact iff_of_true ⟨m, rfl⟩ (by simp)
  | cons head tail ih =>
      constructor
      · rintro ⟨m', renamed⟩ first entry rest split middle before
        obtain ⟨next, step, others⟩ := exists_renameEntry_of_cons renamed
        cases first with
        | nil =>
            obtain ⟨rfl, rfl⟩ := List.cons.inj split
            obtain rfl := Except.ok.inj before
            exact ⟨next, step⟩
        | cons head' first =>
            obtain ⟨rfl, rfl⟩ := List.cons.inj split
            obtain ⟨next', step', before⟩ := exists_renameEntry_of_cons before
            obtain rfl := Except.ok.inj (step.symm.trans step')
            exact ih.mp ⟨m', others⟩ first entry rest rfl middle before
      · intro each
        obtain ⟨next, step⟩ := each [] head tail rfl m rfl
        have others : ∃ m', tail.foldlM (renameEntry transform) next = .ok m' := by
          apply ih.mpr
          rintro first entry rest rfl middle before
          apply each (head :: first) entry rest rfl middle
          rw [List.foldlM_cons, step]
          exact before
        obtain ⟨m', others⟩ := others
        refine ⟨m', ?_⟩
        rw [List.foldlM_cons, step]
        exact others

/-- An entry whose turn does not come stays. -/
theorem points_renameEntries_of_left (holds : m.Holds entries)
    (renamed : entries.foldlM (renameEntry transform) m = .ok m') {nick target : Name}
    (left : nick ∉ entries.map Prod.fst) (points : m.Points nick target) :
    m'.Points nick target := by
  induction entries generalizing m with
  | nil => exact Except.ok.inj renamed ▸ points
  | cons entry rest ih =>
      obtain ⟨middle, first, others⟩ := exists_renameEntry_of_cons renamed
      rw [List.map_cons, List.mem_cons, not_or] at left
      apply ih (holds.after_renameEntry first) others left.2
      exact (points_renameEntry_iff (holds.points List.mem_cons_self) first).mpr
        (.inl ⟨left.1, points⟩)

/-- If the renaming is idempotent, the map has, after some of its entries have been renamed, the
other entries of before and the renamed ones. -/
theorem points_renameEntries_iff (idempotent : transform.Idempotent) (holds : m.Holds entries)
    (renamed : entries.foldlM (renameEntry transform) m = .ok m') {nick target : Name} :
    m'.Points nick target ↔
      (nick ∉ entries.map Prod.fst ∧ m.Points nick target) ∨
        ∃ entry ∈ entries, renamed? transform entry.1 entry.2 = some (nick, target) := by
  constructor
  · exact points_of_renameEntries holds renamed
  · rintro (⟨left, points⟩ | ⟨entry, member, result⟩)
    · exact points_renameEntries_of_left holds renamed left points
    · exact points_renameEntries_of_renamed? idempotent holds renamed member result

/-- The first ones of the entries that a map holds it holds as well. -/
theorem Holds.of_append {first rest : List (Name × Name)} (holds : m.Holds (first ++ rest)) :
    m.Holds first where
  distinct := by
    have distinct := holds.distinct
    rw [List.map_append] at distinct
    exact (List.nodup_append.mp distinct).1
  points member := holds.points (List.mem_append_left rest member)

/-- At the turn of an alias, the rest of the map is what it is halfway. -/
theorem points_erase_iff_halfway (idempotent : transform.Idempotent)
    {first rest : List (Name × Name)} {turn target : Name}
    (split : NameMap.entries m = first ++ (turn, target) :: rest) {middle : AliasMap}
    (renamed : first.foldlM (renameEntry transform) m = .ok middle) {nick target' : Name} :
    AliasMap.Points (NameMap.erase middle turn) nick target' ↔
      m.Halfway transform turn nick target' := by
  have holds : m.Holds first := Holds.of_append (split ▸ m.holds_entries)
  have ascending := m.ascending
  rw [split, List.pairwise_append, List.pairwise_cons] at ascending
  obtain ⟨-, ⟨below, -⟩, before⟩ := ascending
  have mem_first {entry : Name × Name} :
      entry ∈ first ↔ entry.1 < turn ∧ m.Points entry.1 entry.2 := by
    constructor
    · intro member
      exact ⟨before entry member _ List.mem_cons_self, holds.points member⟩
    · rintro ⟨earlier, points⟩
      have member : entry ∈ first ++ (turn, target) :: rest :=
        split ▸ NameMap.mem_entries_iff.mpr points
      rcases List.mem_append.mp member with inFirst | later
      · exact inFirst
      · rcases List.mem_cons.mp later with rfl | inRest
        · exact absurd earlier (String.lt_irrefl _)
        · exact absurd (String.lt_trans earlier (below entry inRest)) (String.lt_irrefl _)
  -- An entry that is neither before the turn nor at it comes after it.
  have left_iff (points : m.Points nick target') :
      nick ≠ turn ∧ nick ∉ first.map Prod.fst ↔ turn < nick := by
    have named : nick ∈ first.map Prod.fst ↔ nick < turn := by
      rw [List.mem_map]
      constructor
      · rintro ⟨entry, member, rfl⟩
        exact (mem_first.mp member).1
      · intro earlier
        exact ⟨(nick, target'), mem_first.mpr ⟨earlier, points⟩, rfl⟩
    rw [named, String.not_lt]
    constructor
    · rintro ⟨differ, after⟩
      exact String.not_le.mp fun notAfter => differ (String.le_antisymm notAfter after)
    · intro after
      exact ⟨(String.ne_of_lt after).symm, String.not_lt.mp (String.lt_asymm after)⟩
  rw [points_erase_iff, points_renameEntries_iff idempotent holds renamed, Halfway]
  constructor
  · rintro ⟨differ, ⟨left, points⟩ | ⟨entry, member, result⟩⟩
    · exact .inl ⟨(left_iff points).mp ⟨differ, left⟩, points⟩
    · obtain ⟨earlier, points⟩ := mem_first.mp member
      exact .inr ⟨differ, entry.1, entry.2, earlier, points, result⟩
  · rintro (⟨after, points⟩ | ⟨differ, oldNick, oldTarget, earlier, points, result⟩)
    · obtain ⟨differ, left⟩ := (left_iff points).mpr after
      exact ⟨differ, .inl ⟨left, points⟩⟩
    · exact ⟨differ, .inr ⟨(oldNick, oldTarget), mem_first.mpr ⟨earlier, points⟩, result⟩⟩

theorem exists_before_of_append {first rest : List (Name × Name)}
    (renamed : (first ++ rest).foldlM (renameEntry transform) m = .ok m') :
    ∃ middle, first.foldlM (renameEntry transform) m = .ok middle := by
  rw [List.foldlM_append] at renamed
  cases before : first.foldlM (renameEntry transform) m with
  | error e =>
      rw [before] at renamed
      contradiction
  | ok middle => exact ⟨middle, rfl⟩

/-- An entry that a renaming keeps passes at its turn: in the map as it is then, its new alias stands
for nothing but its new target, and the new target does not lead to the new alias. -/
def Passes (m : AliasMap) (transform : Transform) (nick target : Name) : Prop :=
  ∀ nick' target', renamed? transform nick target = some (nick', target') →
    (∀ current, m.Halfway transform nick nick' current → current = target') ∧
      ¬ Relation.TransGen (m.Halfway transform nick) target' nick'

theorem exists_renameEntry_iff_passes (wellFormed : m.WellFormed)
    (idempotent : transform.Idempotent) {first rest : List (Name × Name)} {nick target : Name}
    (split : NameMap.entries m = first ++ (nick, target) :: rest) {middle : AliasMap}
    (before : first.foldlM (renameEntry transform) m = .ok middle) :
    (∃ m', middle.renameEntry transform (nick, target) = .ok m') ↔
      m.Passes transform nick target := by
  have holds : m.Holds (first ++ (nick, target) :: rest) := split ▸ m.holds_entries
  have left : nick ∉ first.map Prod.fst := by
    have distinct := holds.distinct
    rw [List.map_append, List.nodup_append] at distinct
    intro member
    exact distinct.2.2 nick member nick List.mem_cons_self rfl
  have points : m.Points nick target := holds.points (by simp)
  have held := points_renameEntries_of_left holds.of_append before left points
  have acyclic := (wellFormed.renameEntries before).acyclic
  have halfway : AliasMap.Points (NameMap.erase middle nick) = m.Halfway transform nick := by
    funext nick' target'
    exact propext (points_erase_iff_halfway idempotent split before)
  simp only [exists_renameEntry_iff acyclic held, chain_iff_transGen, halfway, Passes]

/-- A renaming succeeds exactly if all entries pass at their turns. -/
theorem exists_rename_iff (wellFormed : m.WellFormed) (idempotent : transform.Idempotent) :
    (∃ m', m.rename transform = .ok m') ↔
      ∀ nick target, m.Points nick target → m.Passes transform nick target := by
  rw [rename, exists_renameEntries_iff]
  constructor
  · intro each nick target points
    obtain ⟨first, rest, split⟩ := List.append_of_mem (NameMap.mem_entries_iff.mpr points)
    obtain ⟨m', renamed⟩ := exists_renameEntries_iff.mpr each
    obtain ⟨middle, before⟩ := exists_before_of_append (split ▸ renamed)
    exact (exists_renameEntry_iff_passes wellFormed idempotent split before).mp
      (each first (nick, target) rest split middle before)
  · rintro passes first ⟨nick, target⟩ rest split middle before
    have points : m.Points nick target := NameMap.mem_entries_iff.mp (by simp [split])
    exact (exists_renameEntry_iff_passes wellFormed idempotent split before).mpr
      (passes nick target points)

/-! ## Entries that agree in the end -/

/-- Taken together, the renamed entries give each alias one target and have no circle. -/
structure Consistent (m : AliasMap) (transform : Transform) : Prop where
  unique {nick target target' : Name} (renamed : m.Renamed transform nick target)
    (renamed' : m.Renamed transform nick target') : target = target'
  acyclic (name : Name) : ¬ Relation.TransGen (m.Renamed transform) name name

/-- The renamed entries agree if they are all the same one. -/
theorem consistent_of_single {nick target : Name} (differ : nick ≠ target)
    (single : ∀ entry ∈ (NameMap.entries m).filterMap fun entry =>
      renamed? transform entry.1 entry.2, entry = (nick, target)) :
    m.Consistent transform := by
  have only : ∀ nick' target', m.Renamed transform nick' target' →
      nick' = nick ∧ target' = target := by
    rintro nick' target' ⟨old, oldTarget, points, result⟩
    apply Prod.mk.inj
    apply single
    exact List.mem_filterMap.mpr ⟨(old, oldTarget), NameMap.mem_entries_iff.mpr points, result⟩
  constructor
  · intro _ _ _ renamed renamed'
    rw [(only _ _ renamed).2, (only _ _ renamed').2]
  · intro name circle
    obtain ⟨_, first, _⟩ := Relation.TransGen.head'_iff.mp circle
    obtain ⟨_, _, last⟩ := Relation.TransGen.tail'_iff.mp circle
    exact differ ((only _ _ first).1.symm.trans (only _ _ last).2)

/-- Of two names of which one stands for the other halfway, neither is given up: they become the same,
or one stands for the other in the end. -/
theorem renamed_of_halfway (idempotent : transform.Idempotent) {turn nick target : Name}
    (halfway : m.Halfway transform turn nick target) {nick' target' : Name}
    (nickValue : transform nick = some nick') (nickNe : nick' ≠ "")
    (targetValue : transform target = some target') (targetNe : target' ≠ "") :
    nick' = target' ∨ m.Renamed transform nick' target' := by
  rcases halfway with ⟨-, points⟩ | ⟨-, oldNick, oldTarget, -, points, result⟩
  · by_cases same : nick' = target'
    · exact .inl same
    · exact .inr ⟨nick, target, points,
        renamed?_eq_some_iff.mpr ⟨⟨nickValue, targetValue⟩, nickNe, targetNe, same⟩⟩
  · obtain ⟨⟨oldNickValue, oldTargetValue⟩, -⟩ := renamed?_eq_some_iff.mp result
    obtain rfl := Option.some.inj ((idempotent _ _ oldNickValue).symm.trans nickValue)
    obtain rfl := Option.some.inj ((idempotent _ _ oldTargetValue).symm.trans targetValue)
    exact .inr ⟨oldNick, oldTarget, points, result⟩

/-- A chain halfway on which no name is given up becomes a chain of renamed entries, unless its ends
become the same. -/
theorem transGen_renamed_of_halfway (idempotent : transform.Idempotent)
    {turn nick target : Name} (chain : Relation.TransGen (m.Halfway transform turn) nick target)
    (kept : ∀ middle, Relation.TransGen (m.Halfway transform turn) nick middle →
      Relation.TransGen (m.Halfway transform turn) middle target → transform.Keeps middle)
    {nick' target' : Name} (nickValue : transform nick = some nick') (nickNe : nick' ≠ "")
    (targetValue : transform target = some target') (targetNe : target' ≠ "") :
    nick' = target' ∨ Relation.TransGen (m.Renamed transform) nick' target' := by
  induction chain generalizing target' with
  | single halfway =>
      exact (renamed_of_halfway idempotent halfway nickValue nickNe targetValue targetNe).imp id
        .single
  | @tail middle target before halfway ih =>
      obtain ⟨middle', middleValue, middleNe⟩ := kept middle before (.single halfway)
      have keptBefore : ∀ name, Relation.TransGen (m.Halfway transform turn) nick name →
          Relation.TransGen (m.Halfway transform turn) name middle → transform.Keeps name := by
        intro name toName fromName
        exact kept name toName (fromName.tail halfway)
      have last := renamed_of_halfway idempotent halfway middleValue middleNe targetValue targetNe
      rcases ih keptBefore middleValue middleNe with rfl | chain
      · exact last.imp id .single
      · rcases last with rfl | last
        · exact .inr chain
        · exact .inr (chain.tail last)

/-- When the renamed entries agree in the end, an entry passes at its turn exactly if its new alias is
not a later one that stands for something else than the new target, and no chain from the new target
to the new alias leads through a name that is given up. -/
theorem Consistent.passes_iff (consistent : m.Consistent transform)
    (idempotent : transform.Idempotent) {nick target : Name} (points : m.Points nick target) :
    m.Passes transform nick target ↔
      ∀ nick' target', renamed? transform nick target = some (nick', target') →
        (nick < nick' → ∀ current, m.Points nick' current → current = target') ∧
          ∀ name, Relation.TransGen (m.Halfway transform nick) target' name →
            Relation.TransGen (m.Halfway transform nick) name nick' → transform.Keeps name := by
  constructor
  · intro passes nick' target' result
    obtain ⟨only, apart⟩ := passes nick' target' result
    constructor
    · intro later current stands
      exact only current (.inl ⟨later, stands⟩)
    · intro name toName fromName
      exact absurd (toName.trans fromName) apart
  · intro agrees nick' target' result
    obtain ⟨free, kept⟩ := agrees nick' target' result
    have renamed : m.Renamed transform nick' target' := ⟨nick, target, points, result⟩
    obtain ⟨⟨nickValue, targetValue⟩, nickNe, targetNe, differ⟩ := renamed?_eq_some_iff.mp result
    constructor
    · rintro current (⟨later, stands⟩ | ⟨-, oldNick, oldTarget, -, old, result'⟩)
      · exact free later current stands
      · exact consistent.unique ⟨oldNick, oldTarget, old, result'⟩ renamed
    · intro chain
      rcases transGen_renamed_of_halfway idempotent chain kept (idempotent _ _ targetValue) targetNe
        (idempotent _ _ nickValue) nickNe with same | back
      · exact differ same.symm
      · exact consistent.acyclic nick' (.head renamed back)

end

end AliasMap

namespace AliasTable

/-- A request to rename all aliases is granted. -/
def Resolves (t : AliasTable) (transform : AliasMap.Transform) : Prop :=
  ∃ t', ((AliasCall.resolve (some transform)).run t).value = (t', .status .ok)

theorem resolves_iff {t : AliasTable} {transform : AliasMap.Transform} :
    t.Resolves transform ↔ ∃ m', t.targets.rename transform = .ok m' := by
  cases renamed : t.targets.rename transform with
  | error e =>
      have refused : e.status ≠ .ok := fun same =>
        Option.some_ne_none e.message (congrArg Status.message same)
      simp [Resolves, AliasCall.run, resolve, renamed, settle, refused]
  | ok m' => simp [Resolves, AliasCall.run, resolve, renamed, settle]

/-- Whatever has been asked of a new table, an idempotent renaming of all its aliases is granted
exactly if every entry passes at its turn.  If the renamed entries agree in the end, this means that
no alias takes the name of a later one that stands for something else than the new target by then, and
that no chain from a new target to its new alias leads through a name that is given up. -/
theorem resolves_afterCalls_iff (allowOverriding : Bool) (calls : List AliasCall)
    {rename : AliasMap.Transform} (idempotent : rename.Idempotent) :
    let t := afterCalls { allowOverriding } calls
    let m := t.targets
    (t.Resolves rename ↔ ∀ nick target, m.Points nick target → m.Passes rename nick target) ∧
      (m.Consistent rename →
        (t.Resolves rename ↔ ∀ nick target, m.Points nick target →
          ∀ nick' target', AliasMap.renamed? rename nick target = some (nick', target') →
            (nick < nick' → ∀ current, m.Points nick' current → current = target') ∧
              ∀ name, Relation.TransGen (m.Halfway rename nick) target' name →
                Relation.TransGen (m.Halfway rename nick) name nick' → rename.Keeps name)) := by
  intro t m
  have wellFormed : m.WellFormed := wellFormed_afterCalls AliasMap.wellFormed_empty calls
  have granted : t.Resolves rename ↔
      ∀ nick target, m.Points nick target → m.Passes rename nick target := by
    rw [resolves_iff, AliasMap.exists_rename_iff wellFormed idempotent]
  refine ⟨granted, fun consistent => ?_⟩
  rw [granted]
  constructor
  · intro passes nick target points
    exact (consistent.passes_iff idempotent points).mp (passes nick target points)
  · intro agrees nick target points
    exact (consistent.passes_iff idempotent points).mpr (agrees nick target points)

/-- The renamed entries agree in the end, but when the first one gets its new target, the target still
leads to the alias through a name that is to be given up: the renaming is refused. -/
theorem refused_through_dropped_name :
    let t := afterCalls {} [.register "p" "a", .register "r" "q", .register "a" "r"]
    let rename : AliasMap.Transform := fun name =>
      if name = "p" then some "q" else if name = "r" then none else some name
    rename.Idempotent ∧ t.targets.Consistent rename ∧ ¬ rename.Keeps "r" ∧
      ¬ t.Resolves rename := by
  intro t rename
  have idempotent : rename.Idempotent := by
    intro name name' value
    grind
  have consistent : t.targets.Consistent rename :=
    AliasMap.consistent_of_single (show "a" ≠ "q" by decide) (by decide +kernel)
  have dropped : ¬ rename.Keeps "r" := by
    rintro ⟨name', value, -⟩
    exact Option.some_ne_none name' value.symm
  refine ⟨idempotent, consistent, dropped, ?_⟩
  rw [(resolves_afterCalls_iff true _ idempotent).2 consistent]
  intro agrees
  have entryA : NameMap.find? t.targets "a" = some "p" := by decide +kernel
  have entryQ : NameMap.find? t.targets "q" = some "r" := by decide +kernel
  have entryR : NameMap.find? t.targets "r" = some "a" := by decide +kernel
  have kept := (agrees "a" "p" entryA "a" "q" (by decide +kernel)).2 "r"
  have toName : t.targets.Halfway rename "a" "q" "r" := .inl ⟨by decide, entryQ⟩
  have fromName : t.targets.Halfway rename "a" "r" "a" := .inl ⟨by decide, entryR⟩
  exact dropped (kept (.single toName) (.single fromName))

/-- Two aliases become one, and so do the names they stand for.  If the alias that is renamed comes
first, it is compared with what the other one stood for before, and the renaming is refused; with the
two names exchanged it is granted. -/
theorem conflict_depends_on_order :
    let t := afterCalls {} [.register "x" "a", .register "y" "b"]
    let rename : AliasMap.Transform := fun name =>
      if name = "a" then some "b" else if name = "x" ∨ name = "y" then some "z" else some name
    let t' := afterCalls {} [.register "x" "b", .register "y" "a"]
    let rename' : AliasMap.Transform := fun name =>
      if name = "b" then some "a" else if name = "x" ∨ name = "y" then some "z" else some name
    (rename.Idempotent ∧ t.targets.Consistent rename ∧ ¬ t.Resolves rename) ∧
      rename'.Idempotent ∧ t'.targets.Consistent rename' ∧ t'.Resolves rename' := by
  intro t rename t' rename'
  have consistent : t.targets.Consistent rename :=
    AliasMap.consistent_of_single (show "b" ≠ "z" by decide) (by decide +kernel)
  have consistent' : t'.targets.Consistent rename' :=
    AliasMap.consistent_of_single (show "a" ≠ "z" by decide) (by decide +kernel)
  have refused : ((AliasCall.resolve (some rename)).run t).value.2 =
      .status (AliasError.conflict "b" "a" "z" "y").status := by
    decide +kernel
  have granted : ((AliasCall.resolve (some rename')).run t').value.2 = .status .ok := by
    decide +kernel
  refine ⟨⟨?_, consistent, ?_⟩, ?_, consistent', _, Prod.ext rfl granted⟩
  · intro name name' value
    grind
  · rintro ⟨t'', resolved⟩
    rw [resolved] at refused
    simp [AliasError.status, Status.ok, Status.saying] at refused
  · intro name name' value
    grind

end AliasTable

end Lifecycle
