import Lifecycle.NameMap

/-!
# Disposals

Whoever creates an instance may register what is to be done when it is destroyed.  Disposals are
kept in the order in which their keys were first registered.
-/

namespace Lifecycle

/-- The registered disposals, oldest key first. -/
abbrev Disposals (κ : Type) := List (Name × κ)

namespace Disposals

variable {κ : Type}

/-- Register a disposal.  A key that has one keeps its place. -/
def register (key : Name) (callback : κ) : Disposals κ → Disposals κ
  | [] => [(key, callback)]
  | entry :: rest =>
      if entry.1 = key then
        (key, callback) :: rest
      else
        entry :: register key callback rest

/-- Whether a key has a disposal. -/
def has (disposals : Disposals κ) (key : Name) : Bool :=
  disposals.any fun entry => entry.1 = key

/-- The disposal of a key. -/
def callback? (disposals : Disposals κ) (key : Name) : Option κ := NameMap.lookup key disposals

/-- The disposals without that of a key. -/
def without (disposals : Disposals κ) (key : Name) : Disposals κ :=
  disposals.filter fun entry => entry.1 != key

/-- The keys that have a disposal, oldest first. -/
def keys (disposals : Disposals κ) : List Name := disposals.map Prod.fst

end Disposals

end Lifecycle
