import Lifecycle.Proofs.Alias.WellFormed
import Mathlib.Data.List.Nodup

/-!
# The list of aliases

The aliases of a name are collected downwards: the entries that stand for the name, and after each
of them the aliases of its own.  Whether an alias leads to a name, and what its canonical name is,
is found upwards, along its chain.  Without circles the two agree: the collection has exactly the
names whose chain comes to the name (`AliasMap.Acyclic.mem_aliasesOf_iff`).  It has each of them
once, because a chain is a line: it does not come to a name by way of two different aliases.
-/

namespace Lifecycle

namespace AliasMap

variable {m : AliasMap} {nick nick' target name : Name}

/-! ## Chains, from their ends -/

/-- A chain comes to its last name from an alias of that name. -/
theorem chain_iff_exists_last :
    m.Chain nick name ↔ ∃ last, m.Points last name ∧ (nick = last ∨ m.Chain nick last) := by
  constructor
  · intro chain
    induction chain with
    | @single nick _ step => exact ⟨nick, step, .inl rfl⟩
    | cons step _ ih =>
        rcases ih with ⟨last, final, rfl | rest⟩
        · exact ⟨_, final, .inr (.single step)⟩
        · exact ⟨last, final, .inr (.cons step rest)⟩
  · rintro ⟨last, final, rfl | rest⟩
    · exact .single final
    · exact rest.trans (.single final)

/-- Of two names on the chain of an alias, one leads to the other. -/
theorem Chain.linear (first : m.Chain nick target) (second : m.Chain nick name) :
    target = name ∨ m.Chain target name ∨ m.Chain name target := by
  induction first with
  | single step => exact ((chain_iff_of_points step).mp second).imp id .inl
  | cons step rest ih =>
      rcases (chain_iff_of_points step).mp second with rfl | onward
      · exact .inr (.inr rest)
      · exact ih onward

/-- What an entry adds to the aliases of a name: nothing, unless it stands for the name. -/
theorem mem_added_iff {source : Name} {entry : Name × Name} :
    source ∈ (if entry.2 = name then entry.1 :: m.aliasesOf entry.1 else []) ↔
      entry.2 = name ∧ (source = entry.1 ∨ source ∈ m.aliasesOf entry.1) := by
  split <;> simp [*]

namespace Acyclic

/-- An alias of a name does not lead to another alias of that name. -/
theorem not_chain_of_same_target (acyclic : m.Acyclic) (step : m.Points nick name)
    (step' : m.Points nick' name) : ¬ m.Chain nick nick' := by
  intro chain
  rcases (chain_iff_of_points step).mp chain with same | back
  · exact acyclic.ne_of_points step' same
  · exact acyclic.not_chain_of_points step' back

/-- No chain comes to a name by way of two aliases of that name. -/
theorem eq_of_same_target (acyclic : m.Acyclic) (step : m.Points nick name)
    (step' : m.Points nick' name) {source : Name} (toNick : source = nick ∨ m.Chain source nick)
    (toNick' : source = nick' ∨ m.Chain source nick') : nick = nick' := by
  have apart := acyclic.not_chain_of_same_target step step'
  have apart' := acyclic.not_chain_of_same_target step' step
  rcases toNick with rfl | chain
  · exact toNick'.resolve_right apart
  · rcases toNick' with rfl | chain'
    · exact absurd chain apart'
    · rcases chain.linear chain' with same | onward | back
      · exact same
      · exact absurd onward apart
      · exact absurd back apart'

/-! ## The collection -/

/-- What holds of a name whenever it holds of all aliases that stand for the name holds of every
name. -/
theorem induction_down (acyclic : m.Acyclic) {motive : Name → Prop}
    (step : ∀ name, (∀ nick, m.Points nick name → motive nick) → motive name) (name : Name) :
    motive name := by
  induction length : (m.aliasesOf name).length using Nat.strongRecOn generalizing name with
  | ind _ ih =>
      apply step
      intro nick points
      exact ih _ (length ▸ acyclic.length_aliasesOf_lt points) nick rfl

theorem mem_aliasesOf_iff_exists (acyclic : m.Acyclic) :
    nick ∈ m.aliasesOf name ↔
      ∃ last, m.Points last name ∧ (nick = last ∨ nick ∈ m.aliasesOf last) := by
  rw [acyclic.aliasesOf_eq name, List.mem_flatMap]
  simp only [mem_added_iff]
  constructor
  · rintro ⟨⟨last, _⟩, member, rfl, listed⟩
    exact ⟨last, NameMap.mem_entries_iff.mp member, listed⟩
  · rintro ⟨last, points, listed⟩
    exact ⟨(last, name), NameMap.mem_entries_iff.mpr points, rfl, listed⟩

/-- The aliases of a name are the names whose chain comes to it. -/
theorem mem_aliasesOf_iff (acyclic : m.Acyclic) :
    nick ∈ m.aliasesOf name ↔ m.Chain nick name := by
  induction name using acyclic.induction_down with
  | step name ih =>
      rw [acyclic.mem_aliasesOf_iff_exists, chain_iff_exists_last]
      constructor
      · rintro ⟨last, points, listed⟩
        exact ⟨last, points, listed.imp id (ih last points).mp⟩
      · rintro ⟨last, points, chain⟩
        exact ⟨last, points, chain.imp id (ih last points).mpr⟩

/-- No alias is listed twice. -/
theorem nodup_aliasesOf (acyclic : m.Acyclic) (name : Name) : (m.aliasesOf name).Nodup := by
  induction name using acyclic.induction_down with
  | step name ih =>
      rw [acyclic.aliasesOf_eq name, List.nodup_flatMap]
      constructor
      · rintro ⟨nick, target⟩ member
        split
        · rename_i direct
          subst direct
          have noLoop : nick ∉ m.aliasesOf nick := fun listed =>
            acyclic nick (acyclic.mem_aliasesOf_iff.mp listed)
          exact List.nodup_cons.mpr ⟨noLoop, ih nick (NameMap.mem_entries_iff.mp member)⟩
        · exact List.nodup_nil
      · -- What is listed under two different entries has different chains.
        apply m.ascending.imp_of_mem
        rintro ⟨nick, target⟩ ⟨nick', target'⟩ member member' below source listed listed'
        obtain ⟨rfl, toNick⟩ := mem_added_iff.mp listed
        obtain ⟨rfl, toNick'⟩ := mem_added_iff.mp listed'
        rw [acyclic.mem_aliasesOf_iff] at toNick toNick'
        have same : nick = nick' := acyclic.eq_of_same_target (NameMap.mem_entries_iff.mp member)
          (NameMap.mem_entries_iff.mp member') toNick toNick'
        exact String.lt_irrefl nick (same ▸ below)

/-- An alias that stands for a name is listed for it, and followed by its own aliases. -/
theorem cons_aliasesOf_sublist (acyclic : m.Acyclic) (step : m.Points nick name) :
    (nick :: m.aliasesOf nick).Sublist (m.aliasesOf name) := by
  have member : (nick, name) ∈ NameMap.entries m := NameMap.mem_entries_iff.mpr step
  rcases List.append_of_mem member with ⟨before, after, entries_eq⟩
  rw [acyclic.aliasesOf_eq name, entries_eq, List.flatMap_append, List.flatMap_cons, if_pos rfl]
  exact (List.sublist_append_left _ _).trans (List.sublist_append_right _ _)

/-- What stands for a listed alias is listed after it. -/
theorem listed_after_target (acyclic : m.Acyclic) (step : m.Points nick target)
    (listed : target ∈ m.aliasesOf name) : [target, nick].Sublist (m.aliasesOf name) := by
  induction name using acyclic.induction_down with
  | step name ih =>
      rcases acyclic.mem_aliasesOf_iff_exists.mp listed with ⟨last, points, rfl | below⟩
      · have own : nick ∈ m.aliasesOf target := acyclic.mem_aliasesOf_iff.mpr (.single step)
        exact ((List.singleton_sublist.mpr own).cons_cons target).trans
          (acyclic.cons_aliasesOf_sublist points)
      · exact ((ih last points below).cons last).trans (acyclic.cons_aliasesOf_sublist points)

end Acyclic

/-! ## Canonical names -/

/-- A walk that ends elsewhere than where it began is a chain. -/
theorem Ends.eq_or_chain {last : Name} (ends : m.Ends name last) : name = last ∨ m.Chain name last := by
  induction ends with
  | here => exact .inl rfl
  | step step _ ih =>
      right
      rcases ih with rfl | rest
      · exact .single step
      · exact .cons step rest

/-- To a name that is no alias lead the other names of which it is the canonical one. -/
theorem Acyclic.chain_iff_canonical (acyclic : m.Acyclic) (last : NameMap.find? m name = none) :
    m.Chain nick name ↔ nick ≠ name ∧ m.canonical nick = name := by
  constructor
  · intro chain
    constructor
    · rintro rfl
      exact acyclic nick chain
    · exact (acyclic.canonical_of_chain chain).trans (canonical_of_last last)
  · rintro ⟨differ, rfl⟩
    exact (acyclic.ends_canonical nick).eq_or_chain.resolve_left differ

end AliasMap

/-- Whatever has been asked of a new table, the collection of the aliases of a name comes to its end
and is the answer.  It has no name twice; it has the names of which the table says that they are
aliases of the name; what stands for a listed alias comes after it; and the aliases of a name that
is no alias are the other names of which it is the canonical one. -/
theorem AliasTable.aliasesOf_afterCalls (allowOverriding : Bool) (calls : List AliasCall)
    (name : Name) :
    let t := afterCalls { allowOverriding } calls
    ∃ names, ((AliasCall.aliasesOf name).run t).value = (t, .names names) ∧
      t.targets.Collects name (NameMap.entries t.targets) names ∧
      names.Nodup ∧
      (∀ nick, nick ∈ names ↔ ((AliasCall.hasAlias name nick).run t).value = (t, .flag true)) ∧
      (∀ nick target, t.targets.Points nick target → target ∈ names →
        [target, nick].Sublist names) ∧
      (t.isAlias name = false →
        ∀ nick, nick ∈ names ↔ nick ≠ name ∧ t.canonical nick = name) := by
  intro t
  have acyclic : t.targets.Acyclic :=
    (wellFormed_afterCalls AliasMap.wellFormed_empty calls).acyclic
  refine ⟨t.targets.aliasesOf name, rfl, acyclic.collects_aliasesOf name,
    acyclic.nodup_aliasesOf name, ?has, ?order, ?canonical⟩
  case has =>
    intro nick
    rw [acyclic.mem_aliasesOf_iff, ← acyclic.leadsTo_iff_chain]
    simp [AliasCall.run]
  case order =>
    intro nick target points listed
    exact acyclic.listed_after_target points listed
  case canonical =>
    intro noAlias nick
    rw [acyclic.mem_aliasesOf_iff]
    exact acyclic.chain_iff_canonical (isAlias_eq_false_iff.mp noAlias)

/-- The aliases of an alias come right after it, before the next alias of the name. -/
example :
    let t := AliasTable.afterCalls {} [.register "app" "a", .register "app" "b", .register "a" "c"]
    t.targets.aliasesOf "app" = ["a", "c", "b"] := by
  decide +kernel

end Lifecycle
