import Lifecycle.Graph
import Mathlib.Logic.Relation

/-!
# The transitive question

`Graph.isDependent` looks for a chain of dependents, and goes on from each name under its canonical
name (`Graph.DependsUnder`).  It expands each name once.  That loses nothing, because of a name that
has been expanded all dependents have been expanded or are waiting (`Graph.Searches`).
-/

namespace Lifecycle

namespace Graph

variable {aliases : AliasTable} {g : Graph} {name key dependent : Name}

/-- A name depends on a key, directly or through others, where each name on the way stands for its
canonical name. -/
def DependsUnder (aliases : AliasTable) (g : Graph) (name key : Name) : Prop :=
  Relation.TransGen (fun key name => g.Needs aliases name key) key name

/-! ## The names that can be expanded -/

theorem mem_foldl_add {targets : List Name} {names : NameSet} :
    name ∈ targets.foldl NameSet.add names ↔ name ∈ targets ∨ name ∈ names := by
  induction targets generalizing names with
  | nil => simp
  | cons target targets ih =>
      rw [List.foldl_cons, ih, NameSet.mem_add, List.mem_cons, or_left_comm, or_assoc]

theorem mem_allDependents {source : Name} (depends : name ∈ g.dependents.of source) :
    name ∈ g.allDependents := by
  have gathers : ∀ (entries : List (Name × NameSet)) (names : NameSet),
      (name ∈ names ∨ ∃ entry ∈ entries, name ∈ entry.2) →
        name ∈ entries.foldl (fun names entry => entry.2.toList.foldl NameSet.add names) names := by
    intro entries
    induction entries with
    | nil => simp
    | cons entry entries ih =>
        intro names member
        apply ih
        rw [mem_foldl_add, NameSet.mem_toList]
        rcases member with old | ⟨entry', member, depends⟩
        · exact .inl (.inr old)
        · rcases List.mem_cons.mp member with rfl | later
          · exact .inl (.inl depends)
          · exact .inr ⟨entry', later, depends⟩
  rw [EdgeMap.of] at depends
  cases found : NameMap.find? g.dependents source with
  | none =>
      rw [found] at depends
      exact absurd depends (NameMap.not_mem_empty name)
  | some targets =>
      rw [found] at depends
      exact gathers _ _ (.inr ⟨(source, targets), NameMap.mem_entries_iff.mpr found, depends⟩)

/-! ## The search -/

theorem exists_of_search {fresh : NameSet} {waiting : List Name}
    (found : search aliases g dependent fresh waiting = true) :
    ∃ key ∈ waiting, g.DependsUnder aliases dependent key := by
  induction fresh, waiting using search.induct aliases g with
  | case1 => simp [search] at found
  | case2 fresh key waiting isFresh next ih =>
      rw [search, dif_pos isFresh, Bool.or_eq_true, decide_eq_true_eq] at found
      rcases found with depends | found
      · exact ⟨key, List.mem_cons_self, .single depends⟩
      · rcases ih found with ⟨name, member, depends⟩
        rcases List.mem_append.mp member with new | old
        · exact ⟨key, List.mem_cons_self, .head (NameSet.mem_toList.mp new) depends⟩
        · exact ⟨name, List.mem_cons_of_mem _ old, depends⟩
  | case3 fresh key waiting stale ih =>
      rw [search, dif_neg stale] at found
      rcases ih found with ⟨name, member, depends⟩
      exact ⟨name, List.mem_cons_of_mem _ member, depends⟩

/-- How a search stands to the names that it can expand, among which are all dependents.  Those that
are waiting are among them; and no dependent of a name that has been expanded is the one that is
sought, and each of them has been expanded or is waiting. -/
structure Searches (aliases : AliasTable) (g : Graph) (dependent : Name) (known : Name → Prop)
    (fresh : NameSet) (waiting : List Name) : Prop where
  needs_known {key name : Name} (needs : g.Needs aliases name key) : known name
  waiting_known {name : Name} (member : name ∈ waiting) : known name
  expanded {key name : Name} (keyKnown : known key) (expanded : key ∉ fresh)
    (needs : g.Needs aliases name key) : name ≠ dependent ∧ (name ∉ fresh ∨ name ∈ waiting)

namespace Searches

variable {known : Name → Prop} {fresh : NameSet} {waiting : List Name}

theorem expand (searches : Searches aliases g dependent known fresh (key :: waiting))
    (missed : dependent ∉ g.dependents.of (aliases.canonical key)) :
    Searches aliases g dependent known (NameMap.erase fresh key)
      ((g.dependents.of (aliases.canonical key)).toList ++ waiting) := by
  constructor
  case needs_known => exact searches.needs_known
  case waiting_known =>
    intro name member
    rcases List.mem_append.mp member with new | old
    · exact searches.needs_known (NameSet.mem_toList.mp new)
    · exact searches.waiting_known (List.mem_cons_of_mem _ old)
  case expanded =>
    intro source name sourceKnown expanded needs
    by_cases same : source = key
    · subst same
      have differ : name ≠ dependent := by
        rintro rfl
        exact missed needs
      exact ⟨differ, .inr (List.mem_append_left _ (NameSet.mem_toList.mpr needs))⟩
    · have before : source ∉ fresh := fun isFresh =>
        expanded (NameMap.mem_erase.mpr ⟨same, isFresh⟩)
      rcases searches.expanded sourceKnown before needs with ⟨differ, stale | member⟩
      · exact ⟨differ, .inl fun isFresh => stale (NameMap.mem_erase.mp isFresh).2⟩
      · rcases List.mem_cons.mp member with rfl | later
        · exact ⟨differ, .inl fun isFresh => (NameMap.mem_erase.mp isFresh).1 rfl⟩
        · exact ⟨differ, .inr (List.mem_append_right _ later)⟩

theorem skip (searches : Searches aliases g dependent known fresh (key :: waiting))
    (stale : key ∉ fresh) : Searches aliases g dependent known fresh waiting := by
  constructor
  case needs_known => exact searches.needs_known
  case waiting_known => exact fun member => searches.waiting_known (List.mem_cons_of_mem _ member)
  case expanded =>
    intro source name sourceKnown expanded needs
    rcases searches.expanded sourceKnown expanded needs with ⟨differ, old | member⟩
    · exact ⟨differ, .inl old⟩
    · rcases List.mem_cons.mp member with rfl | later
      · exact ⟨differ, .inl stale⟩
      · exact ⟨differ, .inr later⟩

/-- Where nothing is waiting, the name that is sought depends on none that has been expanded. -/
theorem not_dependsUnder_of_expanded (searches : Searches aliases g dependent known fresh [])
    (keyKnown : known key) (expanded : key ∉ fresh) : ¬ g.DependsUnder aliases dependent key := by
  intro depends
  induction depends using Relation.TransGen.head_induction_on with
  | single needs => exact (searches.expanded keyKnown expanded needs).1 rfl
  | head needs _ ih =>
      exact ih (searches.needs_known needs)
        ((searches.expanded keyKnown expanded needs).2.resolve_right List.not_mem_nil)

/-- A search that finds nothing misses nothing: the name that is sought depends on none of those
that have been expanded or are waiting. -/
theorem not_dependsUnder (searches : Searches aliases g dependent known fresh waiting)
    (missed : search aliases g dependent fresh waiting = false) (keyKnown : known key)
    (met : key ∈ waiting ∨ key ∉ fresh) : ¬ g.DependsUnder aliases dependent key := by
  induction fresh, waiting using search.induct aliases g with
  | case1 fresh =>
      exact searches.not_dependsUnder_of_expanded keyKnown (met.resolve_left List.not_mem_nil)
  | case2 fresh name waiting isFresh next ih =>
      rw [search, dif_pos isFresh, Bool.or_eq_false_iff, decide_eq_false_iff_not] at missed
      apply ih (searches.expand missed.1) missed.2
      rcases met with member | stale
      · rcases List.mem_cons.mp member with rfl | later
        · exact .inr fun isFresh => (NameMap.mem_erase.mp isFresh).1 rfl
        · exact .inl (List.mem_append_right _ later)
      · exact .inr fun isFresh => stale (NameMap.mem_erase.mp isFresh).2
  | case3 fresh name waiting stale ih =>
      rw [search, dif_neg stale] at missed
      apply ih (searches.skip stale) missed
      rcases met with member | old
      · rcases List.mem_cons.mp member with rfl | later
        · exact .inr stale
        · exact .inl later
      · exact .inr old

end Searches

/-- The answer to the transitive question is whether there is such a chain. -/
theorem isDependent_iff :
    g.isDependent aliases key dependent = true ↔ g.DependsUnder aliases dependent key := by
  constructor
  · intro found
    rcases exists_of_search found with ⟨_, member, depends⟩
    obtain rfl := List.mem_singleton.mp member
    exact depends
  · intro depends
    have start : Searches aliases g dependent (· ∈ g.allDependents.add key)
        (g.allDependents.add key) [key] := by
      constructor
      case needs_known => exact fun needs => NameSet.mem_add.mpr (.inr (mem_allDependents needs))
      case waiting_known =>
        exact fun member => NameSet.mem_add.mpr (.inl (List.mem_singleton.mp member))
      case expanded => exact fun isFresh stale => absurd isFresh stale
    rw [isDependent, ← Bool.not_eq_false]
    intro missed
    exact start.not_dependsUnder missed (NameSet.mem_add.mpr (.inl rfl)) (.inl List.mem_cons_self)
      depends

end Graph

end Lifecycle
