/-!
# Maps and sets of names

Aliases, instances, edges and log channels are all kept under names, and wherever a table is
walked the walk goes through the names in ascending order.  A `NameMap` is therefore a list of
entries that carries the proof that its names ascend strictly: an entry is found by its name,
a walk is the list itself, and two maps with the same look-ups are equal (`NameMap.ext_find?`).
-/

namespace Lifecycle

universe u

/-- A name of an instance, an alias, a registry or a log tag.  Names compare by code point,
which is also the order of their encoded bytes. -/
abbrev Name := String

/-- A finite map from names whose entries are listed in ascending order of the name. -/
structure NameMap (α : Type u) where
  entries : List (Name × α)
  ascending : entries.Pairwise fun first second => first.1 < second.1

namespace NameMap

variable {α : Type u}

/-- The map without entries. -/
def empty : NameMap α := ⟨[], .nil⟩

instance : EmptyCollection (NameMap α) := ⟨empty⟩
instance : Inhabited (NameMap α) := ⟨empty⟩

instance [DecidableEq α] : DecidableEq (NameMap α) := fun first second =>
  decidable_of_iff (first.entries = second.entries) <| by
    cases first
    cases second
    simp

/-- The value of the first entry with a name. -/
def lookup (k : Name) : List (Name × α) → Option α
  | [] => none
  | entry :: rest => if k = entry.1 then some entry.2 else lookup k rest

/-- The value kept under a name. -/
def find? (m : NameMap α) (k : Name) : Option α := lookup k m.entries

/-- Whether a name has an entry. -/
def contains (m : NameMap α) (k : Name) : Bool := (m.find? k).isSome

instance : Membership Name (NameMap α) := ⟨fun m k => (m.find? k).isSome⟩

instance (k : Name) (m : NameMap α) : Decidable (k ∈ m) :=
  inferInstanceAs (Decidable ((m.find? k).isSome = true))

/-- The names with an entry, ascending. -/
def keys (m : NameMap α) : List Name := m.entries.map Prod.fst

/-- The number of entries. -/
def size (m : NameMap α) : Nat := m.entries.length

/-- Whether there is no entry. -/
def isEmpty (m : NameMap α) : Bool := m.entries.isEmpty

/-- Put an entry at its place in an ascending list, in the place of the name's old one. -/
def place (k : Name) (v : α) : List (Name × α) → List (Name × α)
  | [] => [(k, v)]
  | entry :: rest =>
      if k < entry.1 then
        (k, v) :: entry :: rest
      else if entry.1 < k then
        entry :: place k v rest
      else
        (k, v) :: rest

theorem mem_place {k : Name} {v : α} {entry : Name × α} {entries : List (Name × α)}
    (member : entry ∈ place k v entries) : entry = (k, v) ∨ entry ∈ entries := by
  induction entries with
  | nil => simpa [place] using member
  | cons head rest ih =>
      simp only [place] at member
      split at member
      · simpa using member
      · split at member
        · rcases List.mem_cons.mp member with same | later
          · exact .inr (same ▸ List.mem_cons_self)
          · exact (ih later).imp id (List.mem_cons_of_mem _)
        · rcases List.mem_cons.mp member with same | later
          · exact .inl same
          · exact .inr (List.mem_cons_of_mem _ later)

theorem place_ascending (k : Name) (v : α) {entries : List (Name × α)}
    (ascending : entries.Pairwise fun first second => first.1 < second.1) :
    (place k v entries).Pairwise fun first second => first.1 < second.1 := by
  induction entries with
  | nil => simp [place]
  | cons head rest ih =>
      have ⟨below, restAscending⟩ := List.pairwise_cons.mp ascending
      simp only [place]
      split
      · rename_i before
        refine List.pairwise_cons.mpr ⟨fun entry member => ?_, ascending⟩
        rcases List.mem_cons.mp member with rfl | later
        · exact before
        · exact String.lt_trans before (below entry later)
      · split
        · rename_i after
          refine List.pairwise_cons.mpr ⟨fun entry member => ?_, ih restAscending⟩
          rcases mem_place member with rfl | later
          · exact after
          · exact below entry later
        · rename_i notBefore notAfter
          have same : k = head.1 :=
            String.le_antisymm (String.not_lt.mp notAfter) (String.not_lt.mp notBefore)
          exact List.pairwise_cons.mpr ⟨fun entry member => same ▸ below entry member, restAscending⟩

/-- Keep a value under a name, in the place of the name's old value. -/
def insert (m : NameMap α) (k : Name) (v : α) : NameMap α :=
  ⟨place k v m.entries, place_ascending k v m.ascending⟩

/-- Drop a name's entry. -/
def erase (m : NameMap α) (k : Name) : NameMap α :=
  ⟨m.entries.filter (·.1 != k), m.ascending.filter _⟩

/-- Keep the entries that pass a test. -/
def filter (keep : Name → α → Bool) (m : NameMap α) : NameMap α :=
  ⟨m.entries.filter fun entry => keep entry.1 entry.2, m.ascending.filter _⟩

/-- Change every value. -/
def mapValues {β : Type u} (f : α → β) (m : NameMap α) : NameMap β :=
  ⟨m.entries.map fun entry => (entry.1, f entry.2), m.ascending.map _ fun _ _ lt => lt⟩

/-! ## Look-ups -/

@[simp]
theorem find?_empty (k : Name) : (∅ : NameMap α).find? k = none :=
  rfl

theorem contains_iff_mem {m : NameMap α} {k : Name} : m.contains k = true ↔ k ∈ m :=
  Iff.rfl

@[simp]
theorem not_mem_empty (k : Name) : k ∉ (∅ : NameMap α) := Bool.false_ne_true

theorem mem_iff_isSome {m : NameMap α} {k : Name} : k ∈ m ↔ (m.find? k).isSome :=
  Iff.rfl

private theorem lookup_place (k k' : Name) (v : α) (entries : List (Name × α)) :
    lookup k' (place k v entries) = if k' = k then some v else lookup k' entries := by
  induction entries with
  | nil => rfl
  | cons head rest ih =>
      simp only [place]
      split
      · rfl
      · split
        · rename_i after
          simp only [lookup, ih]
          by_cases same : k' = k
          · have differ : k' ≠ head.1 := fun equal => String.lt_irrefl _ (equal ▸ same ▸ after)
            simp only [same ▸ differ, same, if_true, if_false]
          · simp only [same, if_false]
        · rename_i notBefore notAfter
          have equal : k = head.1 :=
            String.le_antisymm (String.not_lt.mp notAfter) (String.not_lt.mp notBefore)
          by_cases same : k' = k
          · simp [lookup, same]
          · simp [lookup, same, equal ▸ same]

/-- An insertion is seen at its own name only. -/
theorem find?_insert (m : NameMap α) (k k' : Name) (v : α) :
    (m.insert k v).find? k' = if k' = k then some v else m.find? k' :=
  lookup_place k k' v m.entries

@[simp]
theorem find?_insert_self (m : NameMap α) (k : Name) (v : α) : (m.insert k v).find? k = some v := by
  simp [find?_insert]

private theorem lookup_filter_ne (k k' : Name) (entries : List (Name × α)) :
    lookup k' (entries.filter (·.1 != k)) = if k' = k then none else lookup k' entries := by
  induction entries with
  | nil => simp [lookup]
  | cons head rest ih =>
      by_cases here : head.1 = k
      · have dropped : (head :: rest).filter (·.1 != k) = rest.filter (·.1 != k) := by
          simp [here]
        rw [dropped, ih]
        by_cases same : k' = k <;> simp [lookup, here, same]
      · have kept : (head :: rest).filter (·.1 != k) = head :: rest.filter (·.1 != k) := by
          simp [here]
        rw [kept, lookup, ih]
        by_cases same : k' = k <;> simp [lookup, same, Ne.symm here]

/-- An erasure is seen at its own name only. -/
theorem find?_erase (m : NameMap α) (k k' : Name) :
    (m.erase k).find? k' = if k' = k then none else m.find? k' :=
  lookup_filter_ne k k' m.entries

@[simp]
theorem find?_erase_self (m : NameMap α) (k : Name) : (m.erase k).find? k = none := by
  simp [find?_erase]

/-- Where a name may have been taken out of a map, a look-up gives what it gave before, unless the
name is the one that has been taken out. -/
theorem find?_ite_erase {m : NameMap α} {taken : Bool} {k k' : Name} {v : α} :
    (if taken then m.erase k else m).find? k' = some v ↔
      m.find? k' = some v ∧ (taken && k' == k) = false := by
  cases taken with
  | false => simp
  | true => by_cases same : k' = k <;> simp [find?_erase, same]

@[simp]
theorem mem_insert {m : NameMap α} {k k' : Name} {v : α} :
    k' ∈ m.insert k v ↔ k' = k ∨ k' ∈ m := by
  simp only [mem_iff_isSome, find?_insert]
  by_cases same : k' = k <;> simp [same]

@[simp]
theorem mem_erase {m : NameMap α} {k k' : Name} : k' ∈ m.erase k ↔ k' ≠ k ∧ k' ∈ m := by
  simp only [mem_iff_isSome, find?_erase]
  by_cases same : k' = k <;> simp [same]

theorem erase_comm (m : NameMap α) (k k' : Name) :
    (m.erase k).erase k' = (m.erase k').erase k := by
  simp only [erase, List.filter_filter, Bool.and_comm]

/-- An entry is listed exactly when a look-up of its name gives its value. -/
theorem mem_entries_iff {m : NameMap α} {k : Name} {v : α} :
    (k, v) ∈ m.entries ↔ m.find? k = some v := by
  obtain ⟨entries, ascending⟩ := m
  simp only [find?]
  induction entries with
  | nil => simp [lookup]
  | cons head rest ih =>
      have ⟨below, restAscending⟩ := List.pairwise_cons.mp ascending
      obtain ⟨name, value⟩ := head
      by_cases here : k = name
      · subst here
        have absent : (k, v) ∉ rest := fun later => String.lt_irrefl k (below _ later)
        simp [lookup, absent, eq_comm]
      · simp [lookup, here, ih restAscending]

theorem find?_eq_some_of_mem {m : NameMap α} {entry : Name × α} (member : entry ∈ m.entries) :
    m.find? entry.1 = some entry.2 :=
  mem_entries_iff.mp member

theorem mem_keys_iff {m : NameMap α} {k : Name} : k ∈ m.keys ↔ k ∈ m := by
  rw [mem_iff_isSome, Option.isSome_iff_exists]
  simp only [keys, List.mem_map, Prod.exists, exists_and_right, exists_eq_right, mem_entries_iff]

/-- An entry is filtered by its name and its value. -/
theorem find?_filter (m : NameMap α) (keep : Name → α → Bool) (k : Name) :
    (m.filter keep).find? k = (m.find? k).filter (keep k) := by
  apply Option.ext
  intro v
  rw [← mem_entries_iff, Option.filter_eq_some_iff, ← mem_entries_iff, filter, List.mem_filter]

theorem find?_mapValues {β : Type u} (m : NameMap α) (f : α → β) (k : Name) :
    (m.mapValues f).find? k = (m.find? k).map f := by
  apply Option.ext
  intro v
  rw [← mem_entries_iff, Option.map_eq_some_iff]
  simp only [mapValues, List.mem_map, Prod.mk.injEq, Prod.exists]
  constructor
  · rintro ⟨_, value, member, rfl, rfl⟩
    exact ⟨value, mem_entries_iff.mp member, rfl⟩
  · rintro ⟨value, found, rfl⟩
    exact ⟨k, value, mem_entries_iff.mpr found, rfl, rfl⟩

/-- A map in which a name has an entry is not empty. -/
theorem isEmpty_eq_false_of_mem {m : NameMap α} {k : Name} (member : k ∈ m) :
    m.isEmpty = false := by
  obtain ⟨v, found⟩ := Option.isSome_iff_exists.mp (mem_iff_isSome.mp member)
  rw [isEmpty, List.isEmpty_eq_false_iff]
  exact List.ne_nil_of_mem (mem_entries_iff.mpr found)

theorem nodup_entries (m : NameMap α) : m.entries.Nodup := by
  apply m.ascending.imp
  rintro entry _ before rfl
  exact String.lt_irrefl _ before

theorem keys_ascending (m : NameMap α) : m.keys.Pairwise (· < ·) :=
  m.ascending.map _ fun _ _ lt => lt

/-! ## Sizes -/

theorem size_erase_lt_of_mem {m : NameMap α} {k : Name} {v : α} (member : (k, v) ∈ m.entries) :
    (m.erase k).size < m.size :=
  List.length_filter_lt_length_iff_exists.mpr ⟨(k, v), member, by simp⟩

theorem size_erase_lt {m : NameMap α} {k : Name} {v : α} (found : m.find? k = some v) :
    (m.erase k).size < m.size :=
  size_erase_lt_of_mem (mem_entries_iff.mpr found)

/-! ## Extensionality -/

private theorem lookup_eq_none_of_below {k : Name} {entries : List (Name × α)}
    (below : ∀ entry ∈ entries, k < entry.1) : lookup k entries = none := by
  induction entries with
  | nil => rfl
  | cons head rest ih =>
      have differ : k ≠ head.1 := fun equal =>
        String.lt_irrefl _ (equal ▸ below head List.mem_cons_self)
      simp [lookup, differ, ih fun entry member => below entry (List.mem_cons_of_mem _ member)]

private theorem head_le_of_lookup_eq {head head' : Name × α} {rest rest' : List (Name × α)}
    (below : ∀ entry ∈ rest, head.1 < entry.1)
    (same : ∀ k, lookup k (head :: rest) = lookup k (head' :: rest')) :
    head.1 ≤ head'.1 := by
  refine String.not_lt.mp fun before => ?_
  have absent : lookup head'.1 (head :: rest) = none :=
    lookup_eq_none_of_below fun entry member => by
      rcases List.mem_cons.mp member with rfl | later
      · exact before
      · exact String.lt_trans before (below entry later)
  rw [same head'.1] at absent
  simp [lookup] at absent

/-- Maps with the same look-ups are equal. -/
theorem ext_find? {m m' : NameMap α} (same : ∀ k, m.find? k = m'.find? k) : m = m' := by
  obtain ⟨entries, ascending⟩ := m
  obtain ⟨entries', ascending'⟩ := m'
  simp only [find?] at same
  simp only [NameMap.mk.injEq]
  induction entries generalizing entries' with
  | nil =>
      cases entries' with
      | nil => rfl
      | cons head' rest' => simp [lookup] at same; exact absurd (same head'.1) (by simp)
  | cons head rest ih =>
      cases entries' with
      | nil => simp [lookup] at same; exact absurd (same head.1) (by simp)
      | cons head' rest' =>
          have ⟨below, restAscending⟩ := List.pairwise_cons.mp ascending
          have ⟨below', restAscending'⟩ := List.pairwise_cons.mp ascending'
          have nameEq : head.1 = head'.1 :=
            String.le_antisymm (head_le_of_lookup_eq below same)
              (head_le_of_lookup_eq below' fun k => (same k).symm)
          have valueEq : head.2 = head'.2 := by
            simpa [lookup, nameEq] using same head'.1
          obtain rfl : head = head' := Prod.ext nameEq valueEq
          refine congrArg _ (ih restAscending rest' restAscending' fun k => ?_)
          by_cases here : k = head.1
          · subst here
            rw [lookup_eq_none_of_below below, lookup_eq_none_of_below below']
          · simpa [lookup, here] using same k

/-- A map without names is the empty one. -/
theorem eq_empty_of_forall_not_mem {m : NameMap α} (absent : ∀ k, k ∉ m) : m = ∅ :=
  ext_find? fun k => by simpa [mem_iff_isSome] using absent k

end NameMap

/-! ## Sets of names -/

/-- A finite set of names, listed in ascending order. -/
abbrev NameSet := NameMap Unit

namespace NameSet

/-- The members, ascending. -/
def toList (s : NameSet) : List Name := NameMap.keys s

/-- Add a member. -/
def add (s : NameSet) (k : Name) : NameSet := NameMap.insert s k ()

@[simp]
theorem mem_add {s : NameSet} {k k' : Name} : k' ∈ s.add k ↔ k' = k ∨ k' ∈ s :=
  NameMap.mem_insert

/-- Sets with the same members are the same. -/
theorem ext_mem {s s' : NameSet} (same : ∀ k, k ∈ s ↔ k ∈ s') : s = s' := by
  apply NameMap.ext_find?
  intro k
  have sameHere := same k
  rw [NameMap.mem_iff_isSome, NameMap.mem_iff_isSome] at sameHere
  cases found : s.find? k <;> cases found' : s'.find? k <;> simp_all

theorem mem_toList {s : NameSet} {k : Name} : k ∈ s.toList ↔ k ∈ s :=
  NameMap.mem_keys_iff

end NameSet

end Lifecycle
