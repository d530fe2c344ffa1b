import Lifecycle.Document
import Lifecycle.Status

/-!
# Settings of a registry

A registry has a name and a policy on redefining aliases.  Both are read from the section
`registry` of a document; what the document does not give stays at its default.
-/

namespace Lifecycle

/-- The settings of a registry. -/
structure Settings where
  name : String := "default"
  allowAliasOverriding : Bool := true
  deriving DecidableEq, Repr, Inhabited

/-- Settings that have been read: the settings, which are the defaults if the reading failed, and
how it went. -/
structure SettingsReading where
  settings : Settings := {}
  status : Status := .ok
  deriving DecidableEq, Repr

namespace Settings

/-- Read the section for the registry. -/
def ofSection (d : Document) : Except DocumentError Settings := do
  let defaults : Settings := {}
  let name ← d.fieldOr "name" Document.text defaults.name
  let allowAliasOverriding ←
    d.fieldOr "allow_alias_overriding" Document.flag defaults.allowAliasOverriding
  pure { name, allowAliasOverriding }

/-- Read a document, if there is one.  Only a document that is a mere text, and so cannot be asked
for its section, fails without an answer. -/
def ofDocument (d : Option Document) : Except DocumentError SettingsReading := do
  match ← d.elim (pure none) (Document.field? "registry") with
  | none => pure {}
  | some d =>
      match ofSection d with
      | .ok settings => pure { settings }
      | .error e =>
          pure { status := .saying .invalidArgument ("invalid registry config: " ++ e.message) }

/-- Read a file. -/
def ofFile (files : Files) (path : String) : Except DocumentError SettingsReading :=
  match files.load path with
  | .ok d => ofDocument (some d)
  | .error e =>
      .ok { status := .saying .notFound <|
              "cannot load registry config '" ++ path ++ "': " ++ e.message }

end Settings

end Lifecycle
