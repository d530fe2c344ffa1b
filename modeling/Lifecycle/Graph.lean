import Lifecycle.Alias.Table
import Lifecycle.Log.Record
import Lifecycle.NameMap

/-!
# The graph of dependencies

Three edge maps say how instances hang together: who depends on a key (`dependents`), on what a
key depends (`dependencies`), and what an instance contains (`contained`).  An instance that
contains another depends on it as well.

Edges go to the canonical name of what is depended on; the dependent is kept under the name it was
given by.  `Graph.isDependent` answers the transitive question, under any name.
-/

namespace Lifecycle

open Log

/-- Edges from a name to a set of names. -/
abbrev EdgeMap := NameMap NameSet

namespace EdgeMap

/-- The names at the other ends of the edges from a name. -/
def of (edges : EdgeMap) (name : Name) : NameSet := (NameMap.find? edges name).getD ∅

/-- Add an edge. -/
def add (edges : EdgeMap) (source target : Name) : EdgeMap :=
  NameMap.insert edges source ((edges.of source).add target)

/-- Remove all edges to a name, and the sources that have no edge left. -/
def withoutTarget (edges : EdgeMap) (target : Name) : EdgeMap :=
  (NameMap.mapValues (fun targets => NameMap.erase targets target) edges).filter
    fun _ targets => !NameMap.isEmpty targets

/-- The number of edges. -/
def count (edges : EdgeMap) : Nat :=
  ((NameMap.entries edges).flatMap fun entry => NameMap.keys entry.2).length

end EdgeMap

/-- How the instances of a registry hang together. -/
structure Graph where
  contained : EdgeMap := ∅
  dependents : EdgeMap := ∅
  dependencies : EdgeMap := ∅
  deriving DecidableEq, Inhabited

namespace Graph

/-- The tag of the graph's records. -/
def tag : Name := "DependencyGraph"

/-- Note that a dependent needs a key, under its canonical name. -/
def addDependency (aliases : AliasTable) (g : Graph) (key dependent : Name) : Logged Graph :=
  let canonical := aliases.canonical key
  if dependent ∈ g.dependents.of canonical then
    pure g
  else do
    note tag .trace <| "Instance '" ++ dependent ++ "' depends on '" ++ canonical ++ "'"
    pure { g with
      dependents := g.dependents.add canonical dependent
      dependencies := g.dependencies.add dependent canonical }

/-- Note that an outer instance contains an inner one, and so depends on it. -/
def addContainment (aliases : AliasTable) (g : Graph) (inner outer : Name) : Logged Graph :=
  if inner ∈ g.contained.of outer then
    pure g
  else do
    note tag .trace <| "Instance '" ++ outer ++ "' contains '" ++ inner ++ "'"
    addDependency aliases { g with contained := g.contained.add outer inner } inner outer

/-- Take the dependents of a key out of the graph. -/
def takeDependents (g : Graph) (key : Name) : NameSet × Graph :=
  (g.dependents.of key, { g with dependents := g.dependents.erase key })

/-- Take what an instance contains out of the graph. -/
def takeContained (g : Graph) (outer : Name) : NameSet × Graph :=
  (g.contained.of outer, { g with contained := g.contained.erase outer })

/-- Forget a key as a dependent. -/
def scrub (g : Graph) (key : Name) : Graph :=
  { g with
    dependents := g.dependents.withoutTarget key
    dependencies := g.dependencies.erase key }

/-! ## The transitive question -/

/-- One step from a name to a dependent of its canonical name. -/
def Needs (aliases : AliasTable) (g : Graph) (dependent key : Name) : Prop :=
  dependent ∈ g.dependents.of (aliases.canonical key)

/-- Look for a dependent among the names that are waiting, and what depends on those.  A name is
expanded once: `fresh` holds those that have not been. -/
def search (aliases : AliasTable) (g : Graph) (dependent : Name) (fresh : NameSet) :
    List Name → Bool
  | [] => false
  | name :: waiting =>
      if _known : name ∈ fresh then
        let next := g.dependents.of (aliases.canonical name)
        decide (dependent ∈ next) ||
          search aliases g dependent (NameMap.erase fresh name) (next.toList ++ waiting)
      else
        search aliases g dependent fresh waiting
termination_by waiting => (NameMap.size fresh, waiting.length)
decreasing_by
  · obtain ⟨v, found⟩ := Option.isSome_iff_exists.mp _known
    exact Prod.Lex.left _ _ (NameMap.size_erase_lt found)
  · exact Prod.Lex.right _ (Nat.lt_succ_self _)

/-- All names that some key has as a dependent. -/
def allDependents (g : Graph) : NameSet :=
  g.dependents.entries.foldl (fun names entry => entry.2.toList.foldl NameSet.add names) ∅

/-- Whether a name depends on a key, directly or through others. -/
def isDependent (aliases : AliasTable) (g : Graph) (key dependent : Name) : Bool :=
  search aliases g dependent (g.allDependents.add key) [key]

end Graph

end Lifecycle
