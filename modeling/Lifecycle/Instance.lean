/-!
# Instances

A registry never looks into the objects it keeps: an instance is known by its identity and by
the name of the type it was registered with.  An empty handle is `none`.
-/

namespace Lifecycle

/-- A shared object: its type and its identity.  Two handles are the same object exactly when
both agree. -/
structure Instance where
  typeName : String
  id : Nat
  deriving DecidableEq, Repr, Inhabited

/-- A handle to an instance, possibly empty. -/
abbrev Handle := Option Instance

namespace Handle

/-- See an object as one of a given type: a handle to any other type becomes empty. -/
def cast (typeName : String) (handle : Handle) : Handle :=
  handle.filter fun object => object.typeName = typeName

@[simp]
theorem cast_none (typeName : String) : cast typeName none = none :=
  rfl

@[simp]
theorem cast_eq_some_iff {typeName : String} {handle : Handle} {object : Instance} :
    cast typeName handle = some object ↔ handle = some object ∧ object.typeName = typeName := by
  simp [cast, Option.filter_eq_some_iff]

end Handle

end Lifecycle
