import Lifecycle.Registry.Session

/-!
# Driving a session

A program that uses a session has to run the callbacks that the session asks for.  `Reply.settle`
does so until the call that the program made is answered.  A callback that keeps meeting further
callbacks may go on without end, and so the number of callbacks is bounded; a program that exceeds
the bound has no result.
-/

namespace Lifecycle

/-- A program with a state that may fail to come to an end within its bounds. -/
abbrev Program (σ : Type) := StateT σ Option

/-- Give up. -/
def Program.exhausted {σ α : Type} : Program σ α := fun _ => none

/-- Run callbacks until a call is answered.  `run` runs one callback, and `finish` tells the
session what the callback came to. -/
def Reply.settle {σ κ : Type} (run : Role → κ → Program σ Outcome)
    (finish : Outcome → Program σ (Reply κ)) : Nat → Reply κ → Program σ (Except Fault Answer)
  | _, .answered result => pure result
  | 0, .entered _ _ => Program.exhausted
  | bound + 1, .entered role callback => do
      let outcome ← run role callback
      let reply ← finish outcome
      settle run finish bound reply

end Lifecycle
