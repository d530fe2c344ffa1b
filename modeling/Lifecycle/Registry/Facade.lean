import Lifecycle.Registry.Session

/-!
# The facade

The calls that users of a whole registry make.  Requests for instances accept any name and go to
its canonical name; everything else takes a name as it is given.
-/

namespace Lifecycle

open Log

/-- A call on a registry as a whole. -/
inductive FacadeCall (κ : Type) where
  | name
  | registerAlias (canonical nick : Name)
  | removeAlias (nick : Name)
  | resolveAliases (transform : Option AliasMap.Transform)
  | isAlias (name : Name)
  | aliasesOf (canonical : Name)
  | canonical (name : Name)
  | get (name : Name)
  | getEarly (name : Name)
  | getOrCreate (name : Name) (factory : Option κ)
  | registerFinalized (key : Name) (handle : Handle)
  | registerPending (key : Name) (factory : Option κ)
  | contains (name : Name)
  | names
  | count
  | suppress (fault : Option Fault)
  | watch (key : Name) (watched : Bool)
  | isCurrent (key : Name)
  | addDependency (key dependent : Name)
  | addContainment (inner outer : Name)
  | isDependent (key dependent : Name)
  | dependentsOf (key : Name)
  | dependenciesOf (key : Name)
  | registerDisposal (key : Name) (callback : Option κ)
  | destroy (key : Name)
  | destroyAll
  | inDestruction

/-- The call that a call on the whole registry comes down to. -/
def FacadeCall.lower {κ : Type} (aliases : AliasTable) : FacadeCall κ → Call κ
  | name => .name
  | registerAlias target nick => .aliases (.register target nick)
  | removeAlias nick => .aliases (.remove nick)
  | resolveAliases transform => .aliases (.resolve transform)
  | isAlias n => .aliases (.isAlias n)
  | aliasesOf n => .aliases (.aliasesOf n)
  | canonical n => .aliases (.canonical n)
  | get n => .cache (.get (aliases.canonical n))
  | getEarly n => .cache (.getEarly (aliases.canonical n))
  | getOrCreate n factory => .cache (.getOrCreate (aliases.canonical n) factory)
  | registerFinalized key handle => .cache (.registerFinalized key handle)
  | registerPending key factory => .cache (.registerPending key factory)
  | contains n => .cache (.contains (aliases.canonical n))
  | names => .cache .names
  | count => .cache .count
  | suppress fault => .cache (.suppress fault)
  | watch key watched => .tracker (.watch key watched)
  | isCurrent key => .tracker (.isCurrent key)
  | addDependency key dependent => .graph (.addDependency key dependent)
  | addContainment inner outer => .graph (.addContainment inner outer)
  | isDependent key dependent => .graph (.isDependent key dependent)
  | dependentsOf key => .graph (.dependentsOf key)
  | dependenciesOf key => .graph (.dependenciesOf key)
  | registerDisposal key callback => .teardown (.registerDisposal key callback)
  | destroy key => .teardown (.destroy key)
  | destroyAll => .teardown .retire
  | inDestruction => .cache .inDestruction

/-- User code makes a call on the registry as a whole. -/
def Session.facade {κ : Type} (s : Session κ) (c : FacadeCall κ) :
    Logged (Session κ × Reply κ) :=
  s.call (c.lower s.registry.aliases)

end Lifecycle
