import Lifecycle.Alias
import Lifecycle.Log.Record
import Lifecycle.Status

/-!
# The alias table

Names are registered as aliases of other names, redefined if the table's policy allows it,
removed, and renamed all at once.  Every refusal is an `AliasError`, and a refusal leaves the
table as it was: an operation answers either with the new table or with the error.

An entry is only ever added when the target's chain does not lead back to the alias, so that a
table never holds a circle.
-/

namespace Lifecycle

open Log

/-- Why the alias table refuses a request. -/
inductive AliasError where
  | emptyCanonical
  | emptyAlias
  | noTransform
  /-- The alias stands for another name, and the table does not allow redefinition. -/
  | taken (nick canonical current : Name)
  /-- The name to be aliased is itself an alias, near or far, of the alias. -/
  | circular (nick canonical : Name)
  | unknownAlias (nick : Name)
  /-- Two aliases become one by a renaming, but they stand for different names. -/
  | conflict (renamed nick target current : Name)
  deriving DecidableEq, Repr, Inhabited

namespace AliasError

/-- The code of a refusal. -/
def code : AliasError → Code
  | emptyCanonical => .invalidArgument
  | emptyAlias => .invalidArgument
  | noTransform => .invalidArgument
  | taken _ _ _ => .alreadyExists
  | circular _ _ => .circularAlias
  | unknownAlias _ => .notFound
  | conflict _ _ _ _ => .resolutionConflict

/-- The text of a refusal. -/
def message : AliasError → String
  | emptyCanonical => "'canonical' must not be empty"
  | emptyAlias => "'alias' must not be empty"
  | noTransform => "name transform must not be empty"
  | taken nick canonical current =>
      "Cannot define alias '" ++ nick ++ "' for name '" ++ canonical
        ++ "': It is already registered for name '" ++ current ++ "'."
  | circular nick canonical =>
      "Cannot register alias '" ++ nick ++ "' for name '" ++ canonical
        ++ "': Circular reference - '" ++ canonical ++ "' is a direct or indirect alias for '"
        ++ nick ++ "' already"
  | unknownAlias nick => "No alias '" ++ nick ++ "' registered"
  | conflict renamed nick target current =>
      "Cannot register resolved alias '" ++ renamed ++ "' (original: '" ++ nick
        ++ "') for name '" ++ target ++ "': It is already registered for name '" ++ current
        ++ "'."

/-- A refusal as a status. -/
def status (e : AliasError) : Status := .saying e.code e.message

end AliasError

namespace AliasMap

/-- Let an alias stand for a name, unless that closes a circle. -/
def link (m : AliasMap) (canonical nick : Name) : Except AliasError AliasMap :=
  if m.leadsTo canonical nick then
    .error (.circular nick canonical)
  else
    .ok (NameMap.insert m nick canonical)

/-- A way to rename; a name without a value is given up. -/
abbrev Transform := Name → Option Name

/-- An entry after renaming both its names.  It is lost when a name has no value or an empty one,
and when alias and target become the same. -/
def renamed? (transform : Transform) (nick target : Name) : Option (Name × Name) :=
  match transform nick, transform target with
  | some nick', some target' =>
      if nick' = "" ∨ target' = "" ∨ nick' = target' then none else some (nick', target')
  | _, _ => none

/-- Rename one entry in a map in which others may have been renamed before. -/
def renameEntry (transform : Transform) (m : AliasMap) (entry : Name × Name) :
    Except AliasError AliasMap :=
  let (nick, target) := entry
  match renamed? transform nick target with
  | none => .ok (NameMap.erase m nick)
  | some (nick', target') =>
      if nick' = nick then
        if target' = target then
          .ok m
        else
          link (NameMap.erase m nick) target' nick
      else
        match NameMap.find? m nick' with
        | none => link (NameMap.erase m nick) target' nick'
        | some current =>
            if current = target' then
              .ok (NameMap.erase m nick)
            else
              .error (.conflict nick' nick target' current)

/-- Rename all entries, one after the other in ascending order of their aliases. -/
def rename (transform : Transform) (m : AliasMap) : Except AliasError AliasMap :=
  (NameMap.entries m).foldlM (renameEntry transform) m

end AliasMap

/-- The aliases of a registry and its policy on redefinition. -/
structure AliasTable where
  targets : AliasMap := ∅
  allowOverriding : Bool := true
  deriving DecidableEq, Inhabited

namespace AliasTable

/-- The tag of the table's records. -/
def tag : Name := "AliasRegistry"

/-- The canonical name of a name. -/
def canonical (t : AliasTable) (name : Name) : Name := t.targets.canonical name

/-- Whether a name is an alias. -/
def isAlias (t : AliasTable) (name : Name) : Bool := t.targets.contains name

/-- Link an alias to a name and say so. -/
def link (t : AliasTable) (canonical nick : Name) : Logged (Except AliasError AliasTable) :=
  match t.targets.link canonical nick with
  | .error e => pure (.error e)
  | .ok targets => do
      note tag .trace <|
        "Alias definition '" ++ nick ++ "' registered for name '" ++ canonical ++ "'"
      pure (.ok { t with targets })

/-- Register an alias for a name.  A name registered as its own alias is an alias no longer. -/
def register (t : AliasTable) (canonical nick : Name) :
    Logged (Except AliasError AliasTable) :=
  if canonical = "" then
    pure (.error .emptyCanonical)
  else if nick = "" then
    pure (.error .emptyAlias)
  else if nick = canonical then do
    note tag .debug <|
      "Alias definition '" ++ nick ++ "' ignored since it points to same name"
    pure (.ok { t with targets := t.targets.erase nick })
  else
    match t.targets.find? nick with
    | none => t.link canonical nick
    | some current =>
        if current = canonical then
          pure (.ok t)
        else if !t.allowOverriding then
          pure (.error (.taken nick canonical current))
        else do
          note tag .debug <|
            "Overriding alias '" ++ nick ++ "' definition for registered name '" ++ current
              ++ "' with new target name '" ++ canonical ++ "'"
          t.link canonical nick

/-- Remove an alias. -/
def remove (t : AliasTable) (nick : Name) : Except AliasError AliasTable :=
  if t.isAlias nick then
    .ok { t with targets := t.targets.erase nick }
  else
    .error (.unknownAlias nick)

/-- Rename all aliases and their targets, or, if that cannot be done, none of them. -/
def resolve (t : AliasTable) (transform : Option AliasMap.Transform) :
    Logged (Except AliasError AliasTable) :=
  match transform with
  | none => pure (.error .noTransform)
  | some transform =>
      match t.targets.rename transform with
      | .error e => pure (.error e)
      | .ok targets => do
          note tag .debug <| "Resolved " ++ toString targets.size ++ " alias definition(s)"
          pure (.ok { t with targets })

end AliasTable

end Lifecycle
