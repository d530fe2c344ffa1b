import Lifecycle.Registry

/-!
# Calls

What a user can ask of a registry, part by part, and what it answers.  The calls that need no
callback are run here; the others are in `Lifecycle.Registry.Session`.
-/

namespace Lifecycle

open Log

/-- What a call answers when it does not fail. -/
inductive Answer where
  | done
  | flag (value : Bool)
  | count (value : Nat)
  | name (value : Name)
  | names (values : List Name)
  | handle (value : Handle)
  | status (value : Status)
  deriving DecidableEq, Repr, Inhabited

/-- Calls on the alias table. -/
inductive AliasCall where
  | register (canonical nick : Name)
  | remove (nick : Name)
  | isAlias (name : Name)
  | hasAlias (canonical nick : Name)
  | aliasesOf (canonical : Name)
  | canonical (name : Name)
  | resolve (transform : Option AliasMap.Transform)
  | setOverriding (value : Bool)
  | overriding

/-- Calls on the tracker. -/
inductive TrackerCall where
  | start (key : Name)
  | finish (key : Name)
  | isCurrent (key : Name)
  | isActual (key : Name)
  | isExcluded (key : Name)
  | watch (key : Name) (watched : Bool)
  | clear

/-- Calls on the instance cache.  A callback or a fault that is `none` is an empty one. -/
inductive CacheCall (κ : Type) where
  | get (key : Name)
  | getEarly (key : Name)
  | getOrCreate (key : Name) (factory : Option κ)
  | registerFinalized (key : Name) (handle : Handle)
  | registerPending (key : Name) (factory : Option κ)
  | evict (key : Name)
  | suppress (fault : Option Fault)
  | suppressedCount
  | contains (key : Name)
  | names
  | count
  | setInDestruction (value : Bool)
  | inDestruction
  | clear

/-- Calls on the graph. -/
inductive GraphCall where
  | addContainment (inner outer : Name)
  | addDependency (key dependent : Name)
  | isDependent (key dependent : Name)
  | hasDependents (key : Name)
  | dependentsOf (key : Name)
  | dependenciesOf (key : Name)
  | containedOf (key : Name)
  | takeDependents (key : Name)
  | takeContained (key : Name)
  | scrub (key : Name)
  | clear

/-- Calls on the disposals, and the calls that tear down. -/
inductive TeardownCall (κ : Type) where
  | registerDisposal (key : Name) (callback : Option κ)
  | hasDisposal (key : Name)
  | disposalCount
  /-- Destroy one key and what goes with it. -/
  | destroy (key : Name)
  /-- Destroy everything that has a disposal, and forget all else. -/
  | destroyAll
  /-- Destroy the registry as a whole. -/
  | retire
  /-- The end of the registry's life: retire it unless that has been done. -/
  | close

/-- A call on a registry. -/
inductive Call (κ : Type) where
  | name
  | aliases (call : AliasCall)
  | tracker (call : TrackerCall)
  | cache (call : CacheCall κ)
  | graph (call : GraphCall)
  | teardown (call : TeardownCall κ)

/-- Answer a change that may be refused: the new table, or the old one and why. -/
def AliasTable.settle (t : AliasTable) (result : Except AliasError AliasTable) :
    AliasTable × Answer :=
  match result with
  | .ok t' => (t', .status .ok)
  | .error e => (t, .status e.status)

/-- Run a call on the alias table. -/
def AliasCall.run (t : AliasTable) : AliasCall → Logged (AliasTable × Answer)
  | register name nick => t.settle <$> t.register name nick
  | remove nick => pure (t.settle (t.remove nick))
  | isAlias name => pure (t, .flag (t.isAlias name))
  | hasAlias name nick => pure (t, .flag (t.targets.leadsTo nick name))
  | aliasesOf name => pure (t, .names (t.targets.aliasesOf name))
  | canonical name => pure (t, .name (t.canonical name))
  | resolve transform => t.settle <$> t.resolve transform
  | setOverriding value => pure ({ t with allowOverriding := value }, .done)
  | overriding => pure (t, .flag t.allowOverriding)

/-- Run a call on the tracker. -/
def TrackerCall.run (t : Tracker) : TrackerCall → Logged (Except Cause (Tracker × Answer))
  | start key => pure ((t.start key).map (·, .done))
  | finish key => (fun result => result.map (·, .done)) <$> t.finish key
  | isCurrent key => pure (.ok (t, .flag (t.isCurrent key)))
  | isActual key => pure (.ok (t, .flag (t.isActual key)))
  | isExcluded key => pure (.ok (t, .flag (t.excluded.contains key)))
  | watch key watched => pure (.ok (t.watch key watched, .done))
  | clear => pure (.ok (t.clear, .done))

/-- Run a call on the graph. -/
def GraphCall.run (aliases : AliasTable) (g : Graph) : GraphCall → Logged (Graph × Answer)
  | addContainment inner outer => (·, .done) <$> g.addContainment aliases inner outer
  | addDependency key dependent => (·, .done) <$> g.addDependency aliases key dependent
  | isDependent key dependent => pure (g, .flag (g.isDependent aliases key dependent))
  | hasDependents key => pure (g, .flag (g.dependents.contains key))
  | dependentsOf key => pure (g, .names (g.dependents.of key).toList)
  | dependenciesOf key => pure (g, .names (g.dependencies.of key).toList)
  | containedOf key => pure (g, .names (g.contained.of key).toList)
  | takeDependents key =>
      let (taken, g) := g.takeDependents key
      pure (g, .names taken.toList)
  | takeContained key =>
      let (taken, g) := g.takeContained key
      pure (g, .names taken.toList)
  | scrub key => pure (g.scrub key, .done)
  | clear => pure ({}, .done)

end Lifecycle
