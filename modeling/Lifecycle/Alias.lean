import Lifecycle.NameMap

/-!
# Chains of aliases

An alias map sends each alias to the name it stands for, and that name may be an alias again.
Following a name through the map ends at its canonical name (`AliasMap.canonical`); whether an
alias leads to a given name is `AliasMap.leadsTo`; going the other way, `AliasMap.aliasesOf` lists
everything that leads to a name.

A walk never takes the same entry twice: each step goes on in the map without the entry it has
just used.  This bounds every walk by the size of the map, and in a map without circles it leaves
out nothing, because there no walk comes back to an entry.
-/

namespace Lifecycle

/-- A map from aliases to the names they stand for. -/
abbrev AliasMap := NameMap Name

namespace AliasMap

/-- The name at the end of a chain of aliases. -/
def canonical (m : AliasMap) (name : Name) : Name :=
  match _found : NameMap.find? m name with
  | none => name
  | some target => canonical (NameMap.erase m name) target
termination_by NameMap.size m
decreasing_by exact NameMap.size_erase_lt _found

/-- Whether the chain of an alias passes through a name or ends there. -/
def leadsTo (m : AliasMap) (nick name : Name) : Bool :=
  match _found : NameMap.find? m nick with
  | none => false
  | some target => target = name || leadsTo (NameMap.erase m nick) target name
termination_by NameMap.size m
decreasing_by exact NameMap.size_erase_lt _found

/-- All aliases that lead to a name: each in ascending order, followed by the aliases of its
own. -/
def aliasesOf (m : AliasMap) (name : Name) : List Name :=
  (NameMap.entries m).attach.flatMap fun ⟨entry, _member⟩ =>
    if entry.2 = name then
      entry.1 :: aliasesOf (NameMap.erase m entry.1) entry.1
    else
      []
termination_by NameMap.size m
decreasing_by exact NameMap.size_erase_lt_of_mem _member

/-- One step from a name to the name it is an alias of. -/
def Points (m : AliasMap) (nick target : Name) : Prop := NameMap.find? m nick = some target

/-- A chain of at least one step from an alias to a name. -/
inductive Chain (m : AliasMap) : Name → Name → Prop where
  | single {nick target : Name} (step : m.Points nick target) : Chain m nick target
  | cons {nick middle target : Name} (step : m.Points nick middle)
      (rest : Chain m middle target) : Chain m nick target

/-- No alias leads back to itself. -/
def Acyclic (m : AliasMap) : Prop := ∀ name, ¬ Chain m name name

end AliasMap

end Lifecycle
