/-!
# Severity levels

Levels are ordered from `trace` to `off`.  A record passes a threshold that is at most its own
level, so a threshold of `off` stops every record of a real severity.
-/

namespace Lifecycle.Log

/-- How severe a record is, and the least severity that a channel lets pass. -/
inductive Level where
  | trace
  | debug
  | info
  | warn
  | error
  | fatal
  | off
  deriving DecidableEq, Repr, Inhabited

namespace Level

/-- The place of a level in the order of severity. -/
def rank : Level → Nat
  | trace => 0
  | debug => 1
  | info => 2
  | warn => 3
  | error => 4
  | fatal => 5
  | off => 6

/-- Whether a record of this level passes a threshold. -/
def passes (level threshold : Level) : Bool := threshold.rank ≤ level.rank

/-- The word for a level. -/
def name : Level → String
  | trace => "trace"
  | debug => "debug"
  | info => "info"
  | warn => "warn"
  | error => "error"
  | fatal => "fatal"
  | off => "off"

/-- The level that a word names; any word that names none switches the log off. -/
def ofName (word : String) : Level :=
  ([trace, debug, info, warn, error, fatal].find? fun level => level.name = word).getD off

@[simp]
theorem ofName_name (level : Level) : ofName level.name = level := by
  cases level <;> decide

end Level

end Lifecycle.Log
