import Lifecycle.Proofs.Alias.WellFormed
import Lifecycle.Proofs.Graph.Search

/-!
# The transitive question, asked again for each dependent

`Graph.search` keeps a list of names that are waiting and knows beforehand which names it can
expand.  Here the same search is a descent: the question is asked again for each dependent, with the
names that have been seen handed on from one dependent to the next, and nothing that says beforehand
that it will end.  A derivation of `Graph.Seeks` is a descent that comes to its end.  Every descent
does, on any graph, and it comes to the answer of the bounded search (`Graph.isDependent_comes_to`).

A name without dependents is not remembered, and neither is one at which the answer is found; only
what has been expanded counts as seen.
-/

namespace Lifecycle

namespace Graph

/-- The descent in search of a dependent, for each of a list of names in turn, comes to an answer.
It begins with the names that have been seen and ends with those that have been seen by then. -/
inductive Seeks (aliases : AliasTable) (g : Graph) (dependent : Name) :
    List Name → NameSet → Bool → NameSet → Prop where
  | done {seen : NameSet} : Seeks aliases g dependent [] seen false seen
  | again {name : Name} {waiting : List Name} {seen seen' : NameSet} {answer : Bool}
      (old : name ∈ seen) (rest : Seeks aliases g dependent waiting seen answer seen') :
      Seeks aliases g dependent (name :: waiting) seen answer seen'
  /-- The canonical name has no dependents. -/
  | bare {name key : Name} {waiting : List Name} {seen seen' : NameSet} {answer : Bool}
      (new : name ∉ seen) (ends : aliases.targets.Ends name key)
      (edges : NameMap.find? g.dependents key = none)
      (rest : Seeks aliases g dependent waiting seen answer seen') :
      Seeks aliases g dependent (name :: waiting) seen answer seen'
  | found {name key : Name} {next : NameSet} {waiting : List Name} {seen : NameSet}
      (new : name ∉ seen) (ends : aliases.targets.Ends name key)
      (edges : NameMap.find? g.dependents key = some next) (member : dependent ∈ next) :
      Seeks aliases g dependent (name :: waiting) seen true seen
  /-- The answer is found below the name. -/
  | deeper {name key : Name} {next : NameSet} {waiting : List Name} {seen seen' : NameSet}
      (new : name ∉ seen) (ends : aliases.targets.Ends name key)
      (edges : NameMap.find? g.dependents key = some next) (missed : dependent ∉ next)
      (down : Seeks aliases g dependent next.toList (seen.add name) true seen') :
      Seeks aliases g dependent (name :: waiting) seen true seen'
  /-- The answer is not found below the name, and the search goes on with the others. -/
  | onward {name key : Name} {next : NameSet} {waiting : List Name} {seen middle seen' : NameSet}
      {answer : Bool} (new : name ∉ seen) (ends : aliases.targets.Ends name key)
      (edges : NameMap.find? g.dependents key = some next) (missed : dependent ∉ next)
      (down : Seeks aliases g dependent next.toList (seen.add name) false middle)
      (rest : Seeks aliases g dependent waiting middle answer seen') :
      Seeks aliases g dependent (name :: waiting) seen answer seen'

variable {aliases : AliasTable} {g : Graph} {dependent : Name}

namespace Seeks

variable {first second waiting : List Name} {seen seen' seen'' : NameSet} {answer answer' : Bool}

/-- A descent through two lists finds the answer in the first, or it goes through the first in vain
and then through the second. -/
theorem of_append (seeks : Seeks aliases g dependent (first ++ second) seen answer seen') :
    answer = true ∧ Seeks aliases g dependent first seen true seen' ∨
      ∃ middle, Seeks aliases g dependent first seen false middle ∧
        Seeks aliases g dependent second middle answer seen' := by
  induction first generalizing seen with
  | nil => exact .inr ⟨seen, .done, seeks⟩
  | cons name first ih =>
      cases seeks with
      | again old rest =>
          rcases ih rest with ⟨yes, within⟩ | ⟨middle, within, after⟩
          · exact .inl ⟨yes, .again old within⟩
          · exact .inr ⟨middle, .again old within, after⟩
      | bare new ends edges rest =>
          rcases ih rest with ⟨yes, within⟩ | ⟨middle, within, after⟩
          · exact .inl ⟨yes, .bare new ends edges within⟩
          · exact .inr ⟨middle, .bare new ends edges within, after⟩
      | found new ends edges member => exact .inl ⟨rfl, .found new ends edges member⟩
      | deeper new ends edges missed down => exact .inl ⟨rfl, .deeper new ends edges missed down⟩
      | onward new ends edges missed down rest =>
          rcases ih rest with ⟨yes, within⟩ | ⟨middle, within, after⟩
          · exact .inl ⟨yes, .onward new ends edges missed down within⟩
          · exact .inr ⟨middle, .onward new ends edges missed down within, after⟩

/-- The walk to the canonical name leads to one set of dependents at most. -/
theorem edges_unique {name key key' : Name} {edges edges' : Option NameSet}
    (ends : aliases.targets.Ends name key) (ends' : aliases.targets.Ends name key')
    (at_key : NameMap.find? g.dependents key = edges)
    (at_key' : NameMap.find? g.dependents key' = edges') : edges = edges' := by
  obtain rfl := ends.unique ends'
  exact at_key.symm.trans at_key'

/-- A descent comes to one answer only. -/
theorem unique (seeks : Seeks aliases g dependent waiting seen answer seen')
    (seeks' : Seeks aliases g dependent waiting seen answer' seen'') :
    answer = answer' ∧ seen' = seen'' := by
  induction seeks generalizing answer' seen'' with
  | done =>
      cases seeks'
      exact ⟨rfl, rfl⟩
  | again old _ ih =>
      cases seeks' with
      | again _ rest => exact ih rest
      | bare new | found new | deeper new | onward new => exact absurd old new
  | bare new ends edges _ ih =>
      cases seeks' with
      | again old => exact absurd old new
      | bare _ _ _ rest => exact ih rest
      | found _ ends' edges' | deeper _ ends' edges' | onward _ ends' edges' =>
          exact absurd (edges_unique ends ends' edges edges') (by simp)
  | found new ends edges member =>
      cases seeks' with
      | again old => exact absurd old new
      | bare _ ends' edges' => exact absurd (edges_unique ends ends' edges edges') (by simp)
      | found => exact ⟨rfl, rfl⟩
      | deeper _ ends' edges' missed | onward _ ends' edges' missed =>
          obtain rfl := Option.some.inj (edges_unique ends ends' edges edges')
          exact absurd member missed
  | deeper new ends edges missed _ ih =>
      cases seeks' with
      | again old => exact absurd old new
      | bare _ ends' edges' => exact absurd (edges_unique ends ends' edges edges') (by simp)
      | found _ ends' edges' member =>
          obtain rfl := Option.some.inj (edges_unique ends ends' edges edges')
          exact absurd member missed
      | deeper _ ends' edges' _ down =>
          obtain rfl := Option.some.inj (edges_unique ends ends' edges edges')
          exact ⟨rfl, (ih down).2⟩
      | onward _ ends' edges' _ down =>
          obtain rfl := Option.some.inj (edges_unique ends ends' edges edges')
          exact absurd (ih down).1 (by simp)
  | onward new ends edges missed _ _ ih ihRest =>
      cases seeks' with
      | again old => exact absurd old new
      | bare _ ends' edges' => exact absurd (edges_unique ends ends' edges edges') (by simp)
      | found _ ends' edges' member =>
          obtain rfl := Option.some.inj (edges_unique ends ends' edges edges')
          exact absurd member missed
      | deeper _ ends' edges' _ down =>
          obtain rfl := Option.some.inj (edges_unique ends ends' edges edges')
          exact absurd (ih down).1 (by simp)
      | onward _ ends' edges' _ down rest =>
          obtain rfl := Option.some.inj (edges_unique ends ends' edges edges')
          obtain ⟨_, rfl⟩ := ih down
          exact ihRest rest

end Seeks

/-! ## The bounded search -/

/-- How the names that a bounded search can still expand stand to those that a descent has seen,
among the names that either can meet: what is not to be expanded any more has been seen, or has no
dependents. -/
structure Remembers (aliases : AliasTable) (g : Graph) (known : Name → Prop) (fresh seen : NameSet) :
    Prop where
  stale_of_seen {name : Name} (old : name ∈ seen) : name ∉ fresh
  seen_or_bare {name : Name} (nameKnown : known name) (stale : name ∉ fresh) :
    name ∈ seen ∨ NameMap.find? g.dependents (aliases.canonical name) = none

namespace Remembers

variable {known : Name → Prop} {fresh seen : NameSet} {name : Name}

theorem expand (remembers : Remembers aliases g known fresh seen) :
    Remembers aliases g known (NameMap.erase fresh name) (seen.add name) := by
  constructor
  case stale_of_seen =>
    intro other old isFresh
    rcases NameSet.mem_add.mp old with rfl | old
    · exact (NameMap.mem_erase.mp isFresh).1 rfl
    · exact remembers.stale_of_seen old (NameMap.mem_erase.mp isFresh).2
  case seen_or_bare =>
    intro other otherKnown stale
    by_cases same : other = name
    · exact .inl (NameSet.mem_add.mpr (.inl same))
    · have before : other ∉ fresh := fun isFresh => stale (NameMap.mem_erase.mpr ⟨same, isFresh⟩)
      exact (remembers.seen_or_bare otherKnown before).imp (NameSet.mem_add.mpr ∘ .inr) id

theorem skip (remembers : Remembers aliases g known fresh seen)
    (bare : NameMap.find? g.dependents (aliases.canonical name) = none) :
    Remembers aliases g known (NameMap.erase fresh name) seen := by
  constructor
  case stale_of_seen =>
    intro other old isFresh
    exact remembers.stale_of_seen old (NameMap.mem_erase.mp isFresh).2
  case seen_or_bare =>
    intro other otherKnown stale
    by_cases same : other = name
    · exact .inr (same ▸ bare)
    · exact remembers.seen_or_bare otherKnown fun isFresh =>
        stale (NameMap.mem_erase.mpr ⟨same, isFresh⟩)

end Remembers

/-- On aliases without circles, the descent comes to the answer of the bounded search. -/
theorem exists_seeks_search (acyclic : aliases.targets.Acyclic) {known : Name → Prop}
    (needs_known : ∀ key name, g.Needs aliases name key → known name) (fresh : NameSet)
    (waiting : List Name) (waiting_known : ∀ name ∈ waiting, known name) :
    ∀ seen, Remembers aliases g known fresh seen →
      ∃ seen', Seeks aliases g dependent waiting seen (search aliases g dependent fresh waiting)
        seen' := by
  induction fresh, waiting using search.induct aliases g with
  | case1 fresh =>
      intro seen _
      rw [search]
      exact ⟨seen, .done⟩
  | case2 fresh name waiting isFresh next ih =>
      intro seen remembers
      have new : name ∉ seen := fun old => remembers.stale_of_seen old isFresh
      have ends : aliases.targets.Ends name (aliases.canonical name) := acyclic.ends_canonical name
      have onward := ih fun other member => by
        rcases List.mem_append.mp member with needs | later
        · exact needs_known name other (NameSet.mem_toList.mp needs)
        · exact waiting_known other (List.mem_cons_of_mem _ later)
      have next_eq : (NameMap.find? g.dependents (aliases.canonical name)).getD ∅ = next := rfl
      rw [search, dif_pos isFresh]
      change ∃ seen', Seeks aliases g dependent (name :: waiting) seen (decide (dependent ∈ next) ||
        search aliases g dependent (NameMap.erase fresh name) (next.toList ++ waiting)) seen'
      clear_value next
      cases edges : NameMap.find? g.dependents (aliases.canonical name) with
      | none =>
          rw [edges, Option.getD_none] at next_eq
          subst next_eq
          have nothing : NameSet.toList ∅ = [] := rfl
          obtain ⟨seen', rest⟩ := onward seen (remembers.skip edges)
          rw [nothing, List.nil_append] at rest
          rw [decide_eq_false (NameMap.not_mem_empty dependent), Bool.false_or, nothing,
            List.nil_append]
          exact ⟨seen', .bare new ends edges rest⟩
      | some targets =>
          rw [edges, Option.getD_some] at next_eq
          subst next_eq
          by_cases member : dependent ∈ targets
          · rw [decide_eq_true member, Bool.true_or]
            exact ⟨seen, .found new ends edges member⟩
          · rw [decide_eq_false member, Bool.false_or]
            obtain ⟨seen', seeks⟩ := onward (seen.add name) remembers.expand
            rcases seeks.of_append with ⟨yes, down⟩ | ⟨middle, down, rest⟩
            · rw [yes]
              exact ⟨seen', .deeper new ends edges member down⟩
            · exact ⟨seen', .onward new ends edges member down rest⟩
  | case3 fresh name waiting stale ih =>
      intro seen remembers
      rw [search, dif_neg stale]
      obtain ⟨seen', rest⟩ := ih (fun other later =>
        waiting_known other (List.mem_cons_of_mem _ later)) seen remembers
      by_cases old : name ∈ seen
      · exact ⟨seen', .again old rest⟩
      · have bare := remembers.seen_or_bare (waiting_known name List.mem_cons_self) stale
        exact ⟨seen', .bare old (acyclic.ends_canonical name) (bare.resolve_left old) rest⟩

/-- On the aliases of a table of which anything has been asked, and on any graph, circles included,
the question whether a name depends on a key has an answer: the descent from the key comes to its
end, in one way only, and finds the name exactly if there is a chain from the key to it, each of
whose names is a dependent of the canonical name of the one before. -/
theorem isDependent_comes_to (allowOverriding : Bool) (calls : List AliasCall) (g : Graph)
    (key dependent : Name) :
    let aliases := AliasTable.afterCalls { allowOverriding } calls
    ∃ answer seen,
      ((GraphCall.isDependent key dependent).run aliases g).value = (g, .flag answer) ∧
      (∀ answer' seen', Seeks aliases g dependent [key] ∅ answer' seen' ↔
        answer' = answer ∧ seen' = seen) ∧
      (answer = true ↔
        Relation.TransGen (fun key name => name ∈ g.dependents.of (aliases.canonical key))
          key dependent) := by
  intro aliases
  have acyclic : aliases.targets.Acyclic :=
    (AliasTable.wellFormed_afterCalls AliasMap.wellFormed_empty calls).acyclic
  have start : Remembers aliases g (· ∈ g.allDependents.add key) (g.allDependents.add key) ∅ := by
    constructor
    case stale_of_seen => exact fun old => absurd old (NameMap.not_mem_empty _)
    case seen_or_bare => exact fun isFresh stale => absurd isFresh stale
  obtain ⟨seen, seeks⟩ := @exists_seeks_search aliases g dependent acyclic _
    (fun _ _ needs => NameSet.mem_add.mpr (.inr (mem_allDependents needs))) (g.allDependents.add key)
    [key] (fun _ member => NameSet.mem_add.mpr (.inl (List.mem_singleton.mp member))) ∅ start
  refine ⟨g.isDependent aliases key dependent, seen, rfl, fun answer' seen' => ?_, isDependent_iff⟩
  constructor
  · exact fun seeks' => seeks'.unique seeks
  · rintro ⟨rfl, rfl⟩
    exact seeks

/-- Two keys that depend on each other, one of them under an alias, and a third name that depends on
none of them. -/
example :
    let aliases := AliasTable.afterCalls {} [.register "hub" "nick"]
    let g : Graph := { dependents := (EdgeMap.add ∅ "core" "nick").add "hub" "core" }
    g.isDependent aliases "core" "core" = true ∧ g.isDependent aliases "core" "page" = false := by
  cbv

end Graph

end Lifecycle
