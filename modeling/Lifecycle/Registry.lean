import Lifecycle.Creation.Request
import Lifecycle.Disposals
import Lifecycle.Graph

/-!
# The registry

A registry is its aliases, its instance cache, the graph of dependencies between its instances and
their disposals.  It shares the ledger of faults with its users.

User code is outside of the registry: factories and disposals are values of a type `κ`, and a
registry never runs one.  It says that it is to be run (see `Lifecycle.Registry.Session`).
-/

namespace Lifecycle

open Log

/-- The state of a registry with callbacks of type `κ`. -/
structure Registry (κ : Type) where
  name : Name := "default"
  aliases : AliasTable := {}
  cache : Cache κ := {}
  graph : Graph := {}
  disposals : Disposals κ := []
  ledger : Ledger := {}
  /-- Whether the registry has been destroyed as a whole. -/
  destroyed : Bool := false
  deriving DecidableEq, Inhabited

namespace Registry

variable {κ : Type}

/-- The tag of the registry's records. -/
def tag : Name := "InstanceRegistry"

/-- A new registry. -/
def create (name : Name) (allowOverriding : Bool) (ledger : Ledger) : Logged (Registry κ) := do
  note tag .debug <|
    "Registry '" ++ name ++ "' created (alias overriding: " ++ toString allowOverriding ++ ")"
  pure { name, aliases := { allowOverriding }, ledger }

end Registry

end Lifecycle
