import Lifecycle.Log.Level
import Lifecycle.NameMap

/-!
# Log records, and values that come with them

What an operation does to a registry never depends on where its log goes.  The operations
therefore return their records beside their result, in a `Logged` value, and know nothing of the
channels that the records are delivered to.  `Logged.value_bind` and `Logged.records_bind` say
that the results compose as if there were no log, and that the records come in order.
-/

namespace Lifecycle.Log

universe u v

/-- One line for the log: the part of the program that speaks, how severe it is, and the text. -/
structure Record where
  tag : Name
  level : Level
  message : String
  deriving DecidableEq, Repr, Inhabited

/-- A result together with the records written on the way to it, oldest first. -/
structure Logged (α : Type u) where
  value : α
  records : List Record
  deriving DecidableEq, Repr

namespace Logged

variable {α : Type u} {β : Type v}

instance [Inhabited α] : Inhabited (Logged α) := ⟨⟨default, []⟩⟩

/-- A result without records. -/
protected def pure (a : α) : Logged α := ⟨a, []⟩

/-- Go on from a result; later records come after earlier ones. -/
protected def bind (x : Logged α) (f : α → Logged β) : Logged β :=
  let y := f x.value
  ⟨y.value, x.records ++ y.records⟩

instance : Monad Logged where
  pure := Logged.pure
  bind := Logged.bind

@[simp]
theorem value_pure (a : α) : (pure a : Logged α).value = a :=
  rfl

@[simp]
theorem records_pure (a : α) : (pure a : Logged α).records = [] :=
  rfl

@[simp]
theorem value_bind {α β : Type u} (x : Logged α) (f : α → Logged β) :
    (x >>= f).value = (f x.value).value :=
  rfl

@[simp]
theorem records_bind {α β : Type u} (x : Logged α) (f : α → Logged β) :
    (x >>= f).records = x.records ++ (f x.value).records :=
  rfl

@[simp]
theorem value_map {α β : Type u} (f : α → β) (x : Logged α) : (f <$> x).value = f x.value :=
  rfl

@[simp]
theorem records_map {α β : Type u} (f : α → β) (x : Logged α) :
    (f <$> x).records = x.records :=
  List.append_nil _

instance : LawfulMonad Logged :=
  LawfulMonad.mk' Logged
    (fun x => congrArg (Logged.mk x.value) (List.append_nil x.records))
    (fun _ _ => rfl)
    (fun _ _ _ => congrArg (Logged.mk _) (List.append_assoc ..))

end Logged

/-- Write one record. -/
def note (tag : Name) (level : Level) (message : String) : Logged Unit :=
  ⟨(), [⟨tag, level, message⟩]⟩

@[simp]
theorem note_value (tag : Name) (level : Level) (message : String) :
    (note tag level message).value = () :=
  rfl

@[simp]
theorem note_records (tag : Name) (level : Level) (message : String) :
    (note tag level message).records = [⟨tag, level, message⟩] :=
  rfl

end Lifecycle.Log
