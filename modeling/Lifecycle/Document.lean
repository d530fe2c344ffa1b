import Lifecycle.Text

/-!
# Configuration documents

A document is a tree: nothing, a text, a list, or named fields in the order in which they were
written.  Asking a document for what it does not hold is an error with a cause of its own, and
`DocumentError.message` words every cause.

A field is looked up with `field?`.  Only a text refuses the question; a list, an empty document
and a missing name answer that there is no such field.
-/

namespace Lifecycle

/-- A tree of configuration values. -/
inductive Document where
  | null
  | scalar (text : String)
  | list (items : List Document)
  | mapping (fields : List (String × Document))
  deriving Repr, Inhabited

/-- Why a document could not be read as what was asked for. -/
inductive DocumentError where
  /-- A field of a text was asked for. -/
  | fieldOfScalar (key : String)
  /-- A field that must be there is missing. -/
  | missingField (key : String)
  /-- A named field stands where a list item was asked for. -/
  | fieldAsItem
  /-- A value is not of the wanted form. -/
  | badConversion
  /-- There is no document of that name. -/
  | noSuchFile (name : String)
  deriving DecidableEq, Repr, Inhabited

/-- The text of a document error, before it is handed on. -/
def DocumentError.wording : DocumentError → String
  | fieldOfScalar key => "operator[] call on a scalar (key: \"" ++ key ++ "\")"
  | missingField key => "invalid node; first invalid key: \"" ++ key ++ "\""
  | fieldAsItem =>
      "invalid node; this may result from using a map iterator as a sequence iterator, or vice-versa"
  | badConversion => "bad conversion"
  | noSuchFile name => "bad file: " ++ name

/-- The text of a document error. -/
def DocumentError.message (e : DocumentError) : String := Text.untilNul e.wording

namespace Document

/-- The field of a given name, if there is one; a text has no fields to ask for. -/
def field? (key : String) : Document → Except DocumentError (Option Document)
  | scalar _ => .error (.fieldOfScalar key)
  | mapping fields => .ok (fields.lookup key)
  | null => .ok none
  | list _ => .ok none

/-- The field of a given name, which must be there. -/
def field (key : String) (d : Document) : Except DocumentError Document := do
  match ← d.field? key with
  | some value => pure value
  | none => throw (.missingField key)

/-- The field of a given name, read in some way, or a default if there is no such field. -/
def fieldOr {α : Type} (key : String) (read : Document → Except DocumentError α) (otherwise : α)
    (d : Document) : Except DocumentError α := do
  match ← d.field? key with
  | some value => read value
  | none => pure otherwise

/-- The entries of a document read as sections: the items of a list go by their positions. -/
def sections : Document → List (String × Document)
  | mapping fields => fields
  | list items => items.mapIdx fun position item => (toString position, item)
  | null => []
  | scalar _ => []

/-- The entries of a document read as a list; a named field is no item (`none`). -/
def items : Document → List (Option Document)
  | list items => items.map some
  | mapping fields => fields.map fun _ => none
  | null => []
  | scalar _ => []

/-! ## Scalars -/

/-- A document as text; the empty document reads as the word for it. -/
def text : Document → Except DocumentError String
  | scalar text => .ok text
  | null => .ok "null"
  | list _ => .error .badConversion
  | mapping _ => .error .badConversion

/-- The spellings of a word that count: all small, all capital, or capitalized. -/
def spellings (word : String) : List String := [word, word.toUpper, word.capitalize]

/-- A truth value, by one of the usual pairs of words. -/
def flag? (text : String) : Option Bool :=
  if text ∈ ["y", "yes", "true", "on"].flatMap spellings then
    some true
  else if text ∈ ["n", "no", "false", "off"].flatMap spellings then
    some false
  else
    none

/-- A document as a truth value. -/
def flag : Document → Except DocumentError Bool
  | scalar text => (flag? text).elim (.error .badConversion) .ok
  | null => .error .badConversion
  | list _ => .error .badConversion
  | mapping _ => .error .badConversion

/-- The value of a digit in some base, letters counting on from nine. -/
def digitValue (c : Char) : Nat :=
  if c.isDigit then
    c.toNat - '0'.toNat
  else if 'a' ≤ c ∧ c ≤ 'f' then
    c.toNat - 'a'.toNat + 10
  else if 'A' ≤ c ∧ c ≤ 'F' then
    c.toNat - 'A'.toNat + 10
  else
    16

/-- Blanks that may follow a number. -/
def isBlank (c : Char) : Bool :=
  c = ' ' || ('\t'.toNat ≤ c.toNat && c.toNat ≤ '\r'.toNat)

/-- A size: an optional plus sign and a number below 2⁶⁴, hexadecimal after `0x`, octal after
`0` and else decimal.  Only blanks may follow. -/
def size? (text : String) : Option Nat :=
  let unsigned := match text.toList with
    | '+' :: rest => rest
    | chars => chars
  let (base, chars) := match unsigned with
    | '0' :: 'x' :: rest => (16, rest)
    | '0' :: 'X' :: rest => (16, rest)
    | '0' :: rest => (8, '0' :: rest)
    | chars => (10, chars)
  let isDigit := fun c => decide (digitValue c < base)
  let digits := chars.takeWhile isDigit
  let value := digits.foldl (fun value c => value * base + digitValue c) 0
  if !digits.isEmpty && (chars.dropWhile isDigit).all isBlank && value < 0x10000000000000000 then
    some value
  else
    none

/-- A document as a size. -/
def size : Document → Except DocumentError Nat
  | scalar text => (size? text).elim (.error .badConversion) .ok
  | null => .error .badConversion
  | list _ => .error .badConversion
  | mapping _ => .error .badConversion

end Document

/-- Documents under their file names. -/
abbrev Files := List (String × Document)

/-- Open a file by name. -/
def Files.load (files : Files) (name : String) : Except DocumentError Document :=
  (files.lookup name).elim (.error (.noSuchFile name)) .ok

end Lifecycle
