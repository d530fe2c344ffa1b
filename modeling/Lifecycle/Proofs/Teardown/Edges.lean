import Lifecycle.Graph
import Mathlib.Logic.Relation

/-!
# What falls with a key

Destroying a key destroys its dependents and what it contains, and with each of these again its
dependents and what it contains (`Graph.FallsWith`).  What falls with a dependent of a key is
destroyed before the key itself is disposed of (`Graph.FallsAheadOf`); among it are all names that
depend on the key, directly or through others (`Graph.DependsOn`), but a containment may bring in
further names.
-/

namespace Lifecycle

/-! ## Taking edges out -/

namespace EdgeMap

variable {edges : EdgeMap} {key source target : Name}

theorem of_eq_empty (absent : NameMap.find? edges source = none) : edges.of source = ∅ := by
  rw [of, absent, Option.getD_none]

@[simp]
theorem mem_of_erase :
    target ∈ EdgeMap.of (NameMap.erase edges key) source ↔
      source ≠ key ∧ target ∈ edges.of source := by
  rw [of, NameMap.find?_erase]
  by_cases same : source = key <;> simp [same, of]

theorem find?_withoutTarget :
    NameMap.find? (edges.withoutTarget key) source =
      ((NameMap.find? edges source).map fun targets => NameMap.erase targets key).filter
        fun targets => !NameMap.isEmpty targets := by
  rw [withoutTarget, NameMap.find?_filter, NameMap.find?_mapValues]

theorem find?_withoutTarget_eq_none (absent : NameMap.find? edges source = none) :
    NameMap.find? (edges.withoutTarget key) source = none := by
  rw [find?_withoutTarget, absent]
  rfl

@[simp]
theorem mem_of_withoutTarget :
    target ∈ (edges.withoutTarget key).of source ↔ target ≠ key ∧ target ∈ edges.of source := by
  rw [of, of, find?_withoutTarget]
  cases NameMap.find? edges source with
  | none => simp
  | some targets =>
      rw [Option.map_some, Option.getD_some, ← NameMap.mem_erase, Option.filter_some]
      constructor
      · intro member
        split at member
        · exact member
        · simp at member
      · intro member
        rw [NameMap.isEmpty_eq_false_of_mem member]
        exact member

end EdgeMap

namespace Graph

variable {g : Graph} {name other key : Name}

/-! ## What falls with a key -/

/-- A key that is destroyed drags its dependents along, and what it contains. -/
def Drags (g : Graph) (key name : Name) : Prop :=
  name ∈ g.dependents.of key ∨ name ∈ g.contained.of key

/-- A name is destroyed when a key is: it is the key, or it is dragged along by a name that falls
with the key. -/
def FallsWith (g : Graph) (name key : Name) : Prop := Relation.ReflTransGen g.Drags key name

/-- A name depends on a key, directly or through others. -/
def DependsOn (g : Graph) (name key : Name) : Prop :=
  Relation.TransGen (fun key dependent => dependent ∈ g.dependents.of key) key name

/-- A name falls with a dependent of a key. -/
def FallsAheadOf (g : Graph) (name key : Name) : Prop :=
  ∃ dependent ∈ g.dependents.of key, g.FallsWith name dependent

@[refl]
theorem FallsWith.refl (g : Graph) (key : Name) : g.FallsWith key key :=
  Relation.ReflTransGen.refl

theorem FallsWith.dragged (falls : g.FallsWith name key) (drags : g.Drags name other) :
    g.FallsWith other key :=
  Relation.ReflTransGen.tail falls drags

theorem FallsAheadOf.of_dependent (depends : name ∈ g.dependents.of key) :
    g.FallsAheadOf name key :=
  ⟨name, depends, FallsWith.refl g name⟩

theorem FallsAheadOf.dragged (falls : g.FallsAheadOf name key) (drags : g.Drags name other) :
    g.FallsAheadOf other key := by
  rcases falls with ⟨dependent, depends, falls⟩
  exact ⟨dependent, depends, falls.dragged drags⟩

theorem FallsAheadOf.trans (falls : g.FallsAheadOf name key) (further : g.FallsWith other name) :
    g.FallsAheadOf other key := by
  rcases falls with ⟨dependent, depends, falls⟩
  exact ⟨dependent, depends, Relation.ReflTransGen.trans falls further⟩

theorem DependsOn.fallsAheadOf (depends : g.DependsOn name key) : g.FallsAheadOf name key := by
  induction depends with
  | single depends => exact .of_dependent depends
  | tail _ depends ih => exact ih.dragged (.inl depends)

/-- Where every dependent comes after the key by name, nothing depends on itself. -/
theorem acyclic_of_ascending
    (ascending : ∀ entry ∈ g.dependents.entries, ∀ name ∈ entry.2.keys, entry.1 < name)
    (key : Name) : ¬ g.DependsOn key key := by
  have edge : ∀ {key name}, name ∈ g.dependents.of key → key < name := by
    intro key name depends
    cases found : NameMap.find? g.dependents key with
    | none =>
        rw [EdgeMap.of_eq_empty found] at depends
        exact absurd depends (NameMap.not_mem_empty name)
    | some targets =>
        rw [EdgeMap.of, found] at depends
        exact ascending (key, targets) (NameMap.mem_entries_iff.mpr found) name
          (NameMap.mem_keys_iff.mpr depends)
  have upwards : ∀ {name}, g.DependsOn name key → key < name := by
    intro name depends
    induction depends with
    | single depends => exact edge depends
    | tail _ depends ih => exact String.lt_trans ih (edge depends)
  intro back
  exact String.lt_irrefl key (upwards back)

/-- A name that falls ahead of a key without depending on it does so because of a containment. -/
theorem FallsAheadOf.dependsOn_or_contained (falls : g.FallsAheadOf name key) :
    g.DependsOn name key ∨
      ∃ outer inner, g.DependsOn outer key ∧ inner ∈ g.contained.of outer ∧
        g.FallsWith name inner := by
  rcases falls with ⟨dependent, depends, falls⟩
  induction falls with
  | refl => exact .inl (.single depends)
  | @tail middle name _ drags ih =>
      rcases ih with ih | ⟨outer, inner, further, contains, falls⟩
      · rcases drags with depends | contains
        · exact .inl (ih.tail depends)
        · exact .inr ⟨middle, name, ih, contains, FallsWith.refl g name⟩
      · exact .inr ⟨outer, inner, further, contains, falls.dragged drags⟩

/-- Where nothing is contained in anything, what falls with a key is the key and what depends on
it. -/
theorem FallsWith.eq_or_dependsOn (uncontained : ∀ outer inner, inner ∉ g.contained.of outer)
    (falls : g.FallsWith name key) : name = key ∨ g.DependsOn name key := by
  induction falls with
  | refl => exact .inl rfl
  | tail _ drags ih =>
      rcases drags with depends | contained
      · rcases ih with rfl | ih
        · exact .inr (.single depends)
        · exact .inr (ih.tail depends)
      · exact absurd contained (uncontained _ _)

theorem FallsAheadOf.dependsOn (uncontained : ∀ outer inner, inner ∉ g.contained.of outer)
    (falls : g.FallsAheadOf name key) : g.DependsOn name key := by
  rcases falls with ⟨dependent, depends, falls⟩
  rcases falls.eq_or_dependsOn uncontained with rfl | further
  · exact .single depends
  · exact .head depends further

/-- What falls ahead of a key falls with a dependent of it also when the edges to the dependents
have been taken out. -/
theorem FallsAheadOf.takeDependents (falls : g.FallsAheadOf name key) :
    ∃ dependent ∈ g.dependents.of key, (g.takeDependents key).2.FallsWith name dependent := by
  rcases falls with ⟨dependent, depends, falls⟩
  induction falls with
  | refl => exact ⟨dependent, depends, FallsWith.refl _ dependent⟩
  | @tail name other _ drags ih =>
      rcases ih with ⟨first, member, falls⟩
      rcases drags with supports | contains
      · by_cases same : name = key
        · -- The way comes back to the key; it may as well begin with the next name.
          subst same
          exact ⟨other, supports, FallsWith.refl _ other⟩
        · exact ⟨first, member, falls.dragged (.inl (EdgeMap.mem_of_erase.mpr ⟨same, supports⟩))⟩
      · exact ⟨first, member, falls.dragged (.inr contains)⟩

end Graph

end Lifecycle
