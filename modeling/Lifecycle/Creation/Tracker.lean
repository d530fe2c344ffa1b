import Lifecycle.Fault
import Lifecycle.Log.Record

/-!
# Keys in creation

The tracker remembers which keys are being created, so that a key requested again while it is
being created is refused.  An excluded key is not watched at all: it may be created over and over,
and neither its beginning nor its end is remembered.
-/

namespace Lifecycle

open Log

/-- The keys in creation and the keys that are not watched. -/
structure Tracker where
  inCreation : NameSet := ∅
  excluded : NameSet := ∅
  deriving DecidableEq, Inhabited

namespace Tracker

/-- The tag of the tracker's records. -/
def tag : Name := "CreationTracker"

/-- A creation begins. -/
def start (t : Tracker) (key : Name) : Except Cause Tracker :=
  if key ∈ t.excluded then
    .ok t
  else if key ∈ t.inCreation then
    .error (.inCreation key)
  else
    .ok { t with inCreation := t.inCreation.add key }

/-- A creation ends. -/
def finish (t : Tracker) (key : Name) : Logged (Except Cause Tracker) :=
  if key ∈ t.excluded then
    pure (.ok t)
  else if key ∈ t.inCreation then
    pure (.ok { t with inCreation := t.inCreation.erase key })
  else do
    let message := "Instance '" ++ key ++ "' isn't currently in creation"
    note tag .error message
    pure (.error (.illegalState key message))

/-- Whether a key is watched and in creation. -/
def isCurrent (t : Tracker) (key : Name) : Bool :=
  !t.excluded.contains key && t.inCreation.contains key

/-- Whether a key is in creation, watched or not. -/
def isActual (t : Tracker) (key : Name) : Bool := t.inCreation.contains key

/-- Watch a key, or stop watching it. -/
def watch (t : Tracker) (key : Name) (watched : Bool) : Tracker :=
  { t with excluded := if watched then t.excluded.erase key else t.excluded.add key }

/-- Forget all creations. -/
def clear (t : Tracker) : Tracker := { t with inCreation := ∅ }

end Tracker

end Lifecycle
