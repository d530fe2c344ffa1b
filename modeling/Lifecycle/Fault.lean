import Lifecycle.Document
import Lifecycle.NameMap
import Lifecycle.Status

/-!
# Faults

A creation that fails does so with a `Fault`.  A fault has a cause, which says what went wrong and
never changes, and an identity: raising the same cause twice gives two faults, and a fault that
passes through several creations stays the same one.  What changes about a fault is its list of
related faults, the failures that were swallowed on the way to it.  That list is kept apart, in a
`Ledger` under the identity of the fault, so that every holder of the fault sees it grow.
-/

namespace Lifecycle

/-- What went wrong. -/
inductive Cause where
  /-- An error of user code at run time. -/
  | runtime (message : String)
  /-- An error in the logic of user code. -/
  | logic (message : String)
  /-- Something raised by user code that carries no description at all. -/
  | foreign
  /-- The registry and its user disagree about the state of a key. -/
  | illegalState (key : Name) (message : String)
  /-- A key was requested while it was being created. -/
  | inCreation (key : Name)
  /-- A creation was requested during or after the teardown of the registry. -/
  | notAllowed (key : Name) (message : String)
  /-- Any other refusal by the registry. -/
  | refused (code : Code) (key : Name) (message : String)
  /-- A creation failed; `nested` describes the fault that made it fail, if one did. -/
  | creation (key : Name) (message : String) (nested : Option String)
  /-- A document could not be read as what was asked for. -/
  | document (error : DocumentError)
  deriving DecidableEq, Repr, Inhabited

namespace Cause

/-- The text of a failed creation. -/
def creationText (key : Name) (message : String) : String :=
  "Error creating instance '" ++ key ++ "': " ++ message

/-- What a cause says, before it is handed on as a text; a foreign one says nothing. -/
def wording? : Cause → Option String
  | runtime message => some message
  | logic message => some message
  | foreign => none
  | illegalState _ message => some message
  | inCreation key =>
      some (creationText key <| "requested instance is currently in creation: "
        ++ "is there an unresolvable circular reference?")
  | notAllowed key message => some (creationText key message)
  | refused _ _ message => some message
  | creation key message _ => some (creationText key message)
  | document error => some error.wording

/-- The text of a cause. -/
def message? (cause : Cause) : Option String := cause.wording?.map Text.untilNul

/-- The text by which a cause is mentioned in other texts. -/
def mention (cause : Cause) : String := cause.message?.getD "<unknown exception>"

/-- The code and the key of a cause that the registry raises. -/
def origin? : Cause → Option (Code × Name)
  | illegalState key _ => some (.invalidState, key)
  | inCreation key => some (.currentlyInCreation, key)
  | notAllowed key _ => some (.creationNotAllowed, key)
  | refused code key _ => some (code, key)
  | creation key _ _ => some (.fail, key)
  | _ => none

/-- Whether user code claims that the state of a key is not what it takes it for. -/
def isIllegalState : Cause → Bool
  | illegalState _ _ => true
  | _ => false

/-- Whether the cause is a failed creation; only such faults gather related ones. -/
def isCreation : Cause → Bool
  | creation _ _ _ => true
  | _ => false

end Cause

/-- A raised cause.  The serial number is the identity of the fault. -/
structure Fault where
  serial : Nat
  cause : Cause
  deriving DecidableEq, Repr, Inhabited

/-- The text by which a fault, if there is one, is mentioned in other texts. -/
def Fault.mention? (fault : Option Fault) : String :=
  fault.elim "<none>" fun f => f.cause.mention

/-- The faults raised so far: the next free serial number, and the related faults attached to
each fault, in the order in which they were attached. -/
structure Ledger where
  next : Nat := 0
  attached : List (Nat × Fault) := []
  deriving DecidableEq, Repr, Inhabited

namespace Ledger

/-- Raise a cause as a new fault. -/
def raise (l : Ledger) (cause : Cause) : Fault × Ledger :=
  (⟨l.next, cause⟩, { l with next := l.next + 1 })

/-- The faults attached to a fault. -/
def related (l : Ledger) (fault : Fault) : List Fault :=
  l.attached.filterMap fun entry => if entry.1 = fault.serial then some entry.2 else none

/-- Attach faults to a fault. -/
def attach (l : Ledger) (fault : Fault) (others : List Fault) : Ledger :=
  { l with attached := l.attached ++ others.map fun other => (fault.serial, other) }

@[simp]
theorem attach_nil (l : Ledger) (fault : Fault) : l.attach fault [] = l := by
  simp [attach]

/-- Faults attached to one fault come after those it had, and no other fault sees them. -/
theorem related_attach (l : Ledger) (fault fault' : Fault) (others : List Fault) :
    (l.attach fault others).related fault' =
      l.related fault' ++ if fault.serial = fault'.serial then others else [] := by
  simp only [related, attach, List.filterMap_append, List.filterMap_map, Function.comp_def]
  by_cases same : fault.serial = fault'.serial <;> simp [same]

/-- The full account of a failed creation: its own text, what made it fail, and what was
swallowed on the way. -/
def account? (l : Ledger) (fault : Fault) : Option String :=
  match fault.cause with
  | .creation _ _ nested =>
      let start := fault.cause.mention ++ nested.elim "" ("; nested exception is " ++ ·)
      some <| (l.related fault).foldl
        (fun text other => text ++ "\nRelated cause: " ++ other.cause.mention) start
  | _ => none

end Ledger

end Lifecycle
