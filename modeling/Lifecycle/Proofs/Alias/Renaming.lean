import Lifecycle.Proofs.Alias.WellFormed

/-!
# Renaming all aliases

`AliasMap.rename` walks through the entries of the map it starts from and changes a map that holds
renamed entries beside entries whose turn is still to come.  Whichever branch an entry takes, the
map afterwards has the other entries of before and the renamed entry
(`AliasMap.points_renameEntry_iff`): the branch that drops an entry as redundant does so because
the map has the renamed entry already.  That one may be an entry that is renamed itself later on;
only if renaming is idempotent does it stay for certain.
-/

namespace Lifecycle

open Log

namespace AliasMap

/-- Names that a renaming produces it leaves as they are. -/
def Transform.Idempotent (transform : Transform) : Prop :=
  ∀ name name', transform name = some name' → transform name' = some name'

theorem points_unique {m : AliasMap} {nick target target' : Name} (points : m.Points nick target)
    (points' : m.Points nick target') : target = target' :=
  Option.some.inj (points.symm.trans points')

theorem renamed?_eq_some_iff {transform : Transform} {nick target nick' target' : Name} :
    renamed? transform nick target = some (nick', target') ↔
      (transform nick = some nick' ∧ transform target = some target') ∧
        nick' ≠ "" ∧ target' ≠ "" ∧ nick' ≠ target' := by
  constructor
  · intro renamed
    have proper := names_of_renamed? renamed
    simp only [renamed?] at renamed
    split at renamed
    · rename_i nickValue targetValue
      split at renamed
      · contradiction
      · obtain ⟨rfl, rfl⟩ := Prod.mk.inj (Option.some.inj renamed)
        exact ⟨⟨nickValue, targetValue⟩, proper⟩
    · contradiction
  · rintro ⟨⟨nickValue, targetValue⟩, nickNe, targetNe, differ⟩
    simp [renamed?, nickValue, targetValue, nickNe, targetNe, differ]

/-- An idempotent renaming keeps the entries it produces. -/
theorem Transform.Idempotent.renamed?_self {transform : Transform}
    (idempotent : transform.Idempotent) {nick target nick' target' : Name}
    (renamed : renamed? transform nick target = some (nick', target')) :
    renamed? transform nick' target' = some (nick', target') := by
  obtain ⟨⟨nickValue, targetValue⟩, proper⟩ := renamed?_eq_some_iff.mp renamed
  exact renamed?_eq_some_iff.mpr
    ⟨⟨idempotent nick nick' nickValue, idempotent target target' targetValue⟩, proper⟩

/-! ## One entry -/

/-- A link from a free alias is one entry more. -/
theorem points_link_iff {m m' : AliasMap} {canonical nick : Name}
    (free : NameMap.find? m nick = none) (linked : m.link canonical nick = .ok m')
    {nick' target' : Name} :
    m'.Points nick' target' ↔ m.Points nick' target' ∨ (nick = nick' ∧ canonical = target') := by
  rw [link] at linked
  split at linked
  · contradiction
  · obtain rfl := Except.ok.inj linked
    rw [points_insert_iff]
    constructor
    · rintro (⟨rfl, rfl⟩ | ⟨_, points⟩)
      · exact .inr ⟨rfl, rfl⟩
      · exact .inl points
    · rintro (points | ⟨rfl, rfl⟩)
      · have other : nick' ≠ nick := by
          rintro rfl
          exact Option.some_ne_none _ (points.symm.trans free)
        exact .inr ⟨other, points⟩
      · exact .inl ⟨rfl, rfl⟩

/-- Renaming an entry of the map takes it out and puts the renamed entry in, if there is one. -/
theorem points_renameEntry_iff {m m' : AliasMap} {transform : Transform} {nick target : Name}
    (held : m.Points nick target) (renamed : m.renameEntry transform (nick, target) = .ok m')
    {nick' target' : Name} :
    m'.Points nick' target' ↔
      (nick' ≠ nick ∧ m.Points nick' target') ∨
        renamed? transform nick target = some (nick', target') := by
  simp only [renameEntry] at renamed
  split at renamed
  · -- The entry is given up.
    rename_i lost
    obtain rfl := Except.ok.inj renamed
    simp only [points_erase_iff, lost, reduceCtorEq, or_false]
  · rename_i newNick newTarget survives
    simp only [survives, Option.some.injEq, Prod.mk.injEq]
    split at renamed
    · rename_i sameNick
      subst sameNick
      split at renamed
      · -- The entry stays as it is.
        rename_i sameTarget
        subst sameTarget
        obtain rfl := Except.ok.inj renamed
        by_cases same : newNick = nick'
        · subst same
          have only : m.Points newNick target' ↔ newTarget = target' :=
            ⟨points_unique held, fun sameTarget => sameTarget ▸ held⟩
          simp [only]
        · simp [same, Ne.symm same]
      · -- The alias stands for another name.
        have free := NameMap.find?_erase_self m newNick
        rw [points_link_iff free renamed, points_erase_iff]
    · rename_i differ
      split at renamed
      · -- The new alias is free.
        rename_i free
        have free' : NameMap.find? (NameMap.erase m nick) newNick = none := by
          rw [NameMap.find?_erase, if_neg differ, free]
        rw [points_link_iff free' renamed, points_erase_iff]
      · rename_i current found
        split at renamed
        · -- The renamed entry is in the map already.
          rename_i redundant
          subst redundant
          obtain rfl := Except.ok.inj renamed
          rw [points_erase_iff]
          constructor
          · exact .inl
          · rintro (kept | ⟨rfl, rfl⟩)
            · exact kept
            · exact ⟨differ, found⟩
        · contradiction

/-! ## All entries -/

section

variable {m m' : AliasMap} {transform : Transform} {entries : List (Name × Name)}

/-- A row of entries is renamed by renaming the first one and then the others. -/
theorem exists_renameEntry_of_cons {entry : Name × Name}
    (renamed : (entry :: entries).foldlM (renameEntry transform) m = .ok m') :
    ∃ middle, m.renameEntry transform entry = .ok middle ∧
      entries.foldlM (renameEntry transform) middle = .ok m' := by
  rw [List.foldlM_cons] at renamed
  cases first : m.renameEntry transform entry with
  | error e =>
      rw [first] at renamed
      contradiction
  | ok middle =>
      rw [first] at renamed
      exact ⟨middle, rfl, renamed⟩

/-- Entries with different aliases that a map has, all of them at once. -/
structure Holds (m : AliasMap) (entries : List (Name × Name)) : Prop where
  distinct : (entries.map Prod.fst).Nodup
  points {nick target : Name} (member : (nick, target) ∈ entries) : m.Points nick target

theorem holds_entries (m : AliasMap) : m.Holds (NameMap.entries m) where
  distinct := (NameMap.keys_ascending m).imp fun below => String.ne_of_lt below
  points member := NameMap.mem_entries_iff.mp member

/-- While one entry is renamed, the entries whose turn is still to come stay in the map. -/
theorem Holds.after_renameEntry {entry : Name × Name} (holds : m.Holds (entry :: entries))
    (renamed : m.renameEntry transform entry = .ok m') : m'.Holds entries where
  distinct := (List.nodup_cons.mp holds.distinct).2
  points {nick target} member := by
    have other : nick ≠ entry.1 := by
      intro same
      have named : nick ∈ entries.map Prod.fst := List.mem_map_of_mem (f := Prod.fst) member
      exact (List.nodup_cons.mp holds.distinct).1 (same ▸ named)
    have held := holds.points List.mem_cons_self
    exact (points_renameEntry_iff held renamed).mpr
      (.inl ⟨other, holds.points (List.mem_cons_of_mem entry member)⟩)

/-- What is in the map after a row of entries has been renamed was left alone, or is one of them
renamed. -/
theorem points_of_renameEntries (holds : m.Holds entries)
    (renamed : entries.foldlM (renameEntry transform) m = .ok m') {nick target : Name}
    (points : m'.Points nick target) :
    (nick ∉ entries.map Prod.fst ∧ m.Points nick target) ∨
      ∃ entry ∈ entries, renamed? transform entry.1 entry.2 = some (nick, target) := by
  induction entries generalizing m with
  | nil =>
      obtain rfl := Except.ok.inj renamed
      exact .inl ⟨List.not_mem_nil, points⟩
  | cons entry rest ih =>
      obtain ⟨middle, first, others⟩ := exists_renameEntry_of_cons renamed
      rcases ih (holds.after_renameEntry first) others with ⟨unnamed, before⟩ | ⟨e, member, result⟩
      · rcases (points_renameEntry_iff (holds.points List.mem_cons_self) first).mp before with
          ⟨other, old⟩ | result
        · exact .inl ⟨List.not_mem_cons_of_ne_of_not_mem other unnamed, old⟩
        · exact .inr ⟨entry, List.mem_cons_self, result⟩
      · exact .inr ⟨e, List.mem_cons_of_mem entry member, result⟩

/-- An entry that the renaming leaves as it is stays, whether its turn comes or not. -/
theorem points_renameEntries_of_fixed (holds : m.Holds entries)
    (renamed : entries.foldlM (renameEntry transform) m = .ok m') {nick target : Name}
    (points : m.Points nick target)
    (fixed : renamed? transform nick target = some (nick, target)) : m'.Points nick target := by
  induction entries generalizing m with
  | nil => exact Except.ok.inj renamed ▸ points
  | cons entry rest ih =>
      obtain ⟨middle, first, others⟩ := exists_renameEntry_of_cons renamed
      apply ih (holds.after_renameEntry first) others
      have held := holds.points List.mem_cons_self
      by_cases same : nick = entry.1
      · subst same
        obtain rfl := points_unique held points
        exact (points_renameEntry_iff held first).mpr (.inr fixed)
      · exact (points_renameEntry_iff held first).mpr (.inl ⟨same, points⟩)

/-- If the renaming is idempotent, every renamed entry is in the map at the end. -/
theorem points_renameEntries_of_renamed? (idempotent : transform.Idempotent)
    (holds : m.Holds entries) (renamed : entries.foldlM (renameEntry transform) m = .ok m')
    {entry : Name × Name} (member : entry ∈ entries) {nick target : Name}
    (result : renamed? transform entry.1 entry.2 = some (nick, target)) :
    m'.Points nick target := by
  induction entries generalizing m with
  | nil => contradiction
  | cons first rest ih =>
      obtain ⟨middle, step, others⟩ := exists_renameEntry_of_cons renamed
      have holds' := holds.after_renameEntry step
      rcases List.mem_cons.mp member with rfl | later
      · have arrived : middle.Points nick target :=
          (points_renameEntry_iff (holds.points List.mem_cons_self) step).mpr (.inr result)
        exact points_renameEntries_of_fixed holds' others arrived (idempotent.renamed?_self result)
      · exact ih holds' others later

/-- Every entry after a renaming is an entry of before with both names renamed. -/
theorem exists_points_of_rename (renamed : m.rename transform = .ok m') {nick target : Name}
    (points : m'.Points nick target) :
    ∃ oldNick oldTarget, m.Points oldNick oldTarget ∧
      renamed? transform oldNick oldTarget = some (nick, target) := by
  rcases points_of_renameEntries m.holds_entries renamed points with
    ⟨unnamed, old⟩ | ⟨⟨oldNick, oldTarget⟩, member, result⟩
  · exact absurd (List.mem_map_of_mem (f := Prod.fst) (NameMap.mem_entries_iff.mpr old)) unnamed
  · exact ⟨oldNick, oldTarget, NameMap.mem_entries_iff.mp member, result⟩

theorem points_rename_iff (idempotent : transform.Idempotent)
    (renamed : m.rename transform = .ok m') {nick target : Name} :
    m'.Points nick target ↔
      ∃ oldNick oldTarget, m.Points oldNick oldTarget ∧
        renamed? transform oldNick oldTarget = some (nick, target) := by
  constructor
  · exact exists_points_of_rename renamed
  · rintro ⟨oldNick, oldTarget, old, result⟩
    exact points_renameEntries_of_renamed? idempotent m.holds_entries renamed
      (NameMap.mem_entries_iff.mpr old) result

end

end AliasMap

namespace AliasTable

/-- A request to rename all aliases answers with a status.  If that is an error, the table is as it
was.  If not, there was something to rename by, and every entry is an entry of before with both
names renamed; and if renaming is idempotent, the table has exactly the entries of before with both
names renamed, except those for which a name has no value or an empty one or both become the
same. -/
theorem resolve_all_or_nothing (t : AliasTable) (transform : Option AliasMap.Transform) :
    ∃ t' status, ((AliasCall.resolve transform).run t).value = (t', .status status) ∧
      t'.allowOverriding = t.allowOverriding ∧
      (status.isSuccess = false → t' = t) ∧
      (status.isSuccess = true →
        ∃ rename, transform = some rename ∧
          (∀ nick target, t'.targets.Points nick target →
            ∃ oldNick oldTarget, t.targets.Points oldNick oldTarget ∧
              rename oldNick = some nick ∧ rename oldTarget = some target) ∧
          (rename.Idempotent → ∀ nick target, t'.targets.Points nick target ↔
            ∃ oldNick oldTarget, t.targets.Points oldNick oldTarget ∧
              (rename oldNick = some nick ∧ rename oldTarget = some target) ∧
                nick ≠ "" ∧ target ≠ "" ∧ nick ≠ target)) := by
  cases transform with
  | none =>
      have refused : AliasError.noTransform.status.isSuccess ≠ true := Bool.false_ne_true
      exact ⟨t, _, rfl, rfl, fun _ => rfl, fun success => absurd success refused⟩
  | some rename =>
      cases renamed : t.targets.rename rename with
      | error e =>
          have answered : ((AliasCall.resolve (some rename)).run t).value =
              (t, .status e.status) := by
            simp [AliasCall.run, resolve, renamed, settle]
          have refused : e.status.isSuccess ≠ true := by cases e <;> exact Bool.false_ne_true
          exact ⟨t, e.status, answered, rfl, fun _ => rfl, fun success => absurd success refused⟩
      | ok targets =>
          have answered : ((AliasCall.resolve (some rename)).run t).value =
              ({ t with targets }, .status .ok) := by
            simp [AliasCall.run, resolve, renamed, settle]
          have sound : ∀ nick target, targets.Points nick target →
              ∃ oldNick oldTarget, t.targets.Points oldNick oldTarget ∧
                rename oldNick = some nick ∧ rename oldTarget = some target := by
            intro nick target points
            obtain ⟨oldNick, oldTarget, old, result⟩ :=
              AliasMap.exists_points_of_rename renamed points
            obtain ⟨⟨nickValue, targetValue⟩, _⟩ := AliasMap.renamed?_eq_some_iff.mp result
            exact ⟨oldNick, oldTarget, old, nickValue, targetValue⟩
          have complete : rename.Idempotent → ∀ nick target, targets.Points nick target ↔
              ∃ oldNick oldTarget, t.targets.Points oldNick oldTarget ∧
                (rename oldNick = some nick ∧ rename oldTarget = some target) ∧
                  nick ≠ "" ∧ target ≠ "" ∧ nick ≠ target := by
            intro idempotent nick target
            simp only [AliasMap.points_rename_iff idempotent renamed,
              AliasMap.renamed?_eq_some_iff]
          have granted : Status.ok.isSuccess ≠ false := Ne.symm Bool.false_ne_true
          exact ⟨{ t with targets }, .ok, answered, rfl, fun failure => absurd failure granted,
            fun _ => ⟨rename, rfl, sound, complete⟩⟩

/-- Two aliases become one, and an alias without a new name is lost. -/
example :
    let t := afterCalls {} [.register "service" "svc", .register "service" "srv",
      .register "service" "tmp"]
    let rename : AliasMap.Transform := fun name =>
      if name = "svc" ∨ name = "srv" then some "api" else if name = "tmp" then none else some name
    (((AliasCall.resolve (some rename)).run t).value.1.targets).entries =
      [("api", "service")] := by
  decide +kernel

end AliasTable

end Lifecycle
