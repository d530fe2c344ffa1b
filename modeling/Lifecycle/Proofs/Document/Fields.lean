import Lifecycle.Document

/-!
# What stands in a document

A document holds values under paths of names (`HoldsAt`), and a scalar writes a text or a truth
value by its form (`WritesText`, `WritesFlag`).  The operations that ask a document for a field and
read it are described by these: each equation says exactly when an operation answers, and when and
with which error it refuses.
-/

namespace Lifecycle.Document

variable {d value value' : Document} {key text : String} {path : List String} {e : DocumentError}

/-- The document is a mere text. -/
def IsScalar (d : Document) : Prop := ∃ text, d = scalar text

/-- A value stands in a document under a path of names.  Each name leads into a mapping, to the
first field of that name. -/
inductive HoldsAt : Document → List String → Document → Prop
  | here (d : Document) : HoldsAt d [] d
  | under {before after : List (String × Document)} {key : String} {inner value : Document}
      {path : List String} (first : ∀ field ∈ before, field.1 ≠ key)
      (held : HoldsAt inner path value) :
      HoldsAt (mapping (before ++ (key, inner) :: after)) (key :: path) value

/-! ## Fields -/

theorem field?_eq_error_iff :
    d.field? key = .error e ↔ d.IsScalar ∧ e = .fieldOfScalar key := by
  cases d <;> simp [field?, IsScalar, eq_comm]

theorem field?_eq_some_iff : d.field? key = .ok (some value) ↔ d.HoldsAt [key] value := by
  constructor
  · intro found
    cases d with
    | mapping fields =>
        have found : fields.lookup key = some value := Except.ok.inj found
        obtain ⟨before, after, rfl, first⟩ := List.lookup_eq_some_iff.mp found
        refine .under ?_ (.here value)
        intro field member same
        exact bne_iff_ne.mp (first field member) same.symm
    | null => cases found
    | list items => cases found
    | scalar text => cases found
  · intro held
    cases held with
    | @under before after _ _ _ _ first held =>
        cases held
        have found : (before ++ (key, value) :: after).lookup key = some value := by
          refine List.lookup_eq_some_iff.mpr ⟨before, after, rfl, ?_⟩
          intro field member
          exact bne_iff_ne.mpr (first field member).symm
        exact congrArg Except.ok found

theorem field?_eq_none_iff :
    d.field? key = .ok none ↔ ¬ d.IsScalar ∧ ∀ value, ¬ d.HoldsAt [key] value := by
  simp only [← field?_eq_some_iff]
  cases found : d.field? key with
  | error e => simp [(field?_eq_error_iff.mp found).1]
  | ok field =>
      have noScalar : ¬ d.IsScalar := by
        intro scalar
        rw [field?_eq_error_iff.mpr ⟨scalar, rfl⟩] at found
        cases found
      cases field <;> simp [noScalar]

theorem holdsAt_cons_iff :
    d.HoldsAt (key :: path) value ↔ ∃ inner, d.HoldsAt [key] inner ∧ inner.HoldsAt path value := by
  constructor
  · intro held
    cases held with
    | under first held => exact ⟨_, .under first (.here _), held⟩
  · rintro ⟨inner, holds, held⟩
    cases holds with
    | under first here =>
        cases here
        exact .under first held

theorem HoldsAt.unique (held : d.HoldsAt path value) (held' : d.HoldsAt path value') :
    value = value' := by
  induction held with
  | here => cases held' with | here => rfl
  | @under before after key inner value path first held ih =>
      obtain ⟨inner', holds, held'⟩ := holdsAt_cons_iff.mp held'
      have same := (field?_eq_some_iff.mpr (.under first (.here inner))).symm.trans
        (field?_eq_some_iff.mpr holds)
      cases same
      exact ih held'

/-- What stands under a longer path stands in the field that the path goes through. -/
theorem HoldsAt.cons_iff {inner : Document} (held : d.HoldsAt [key] inner) :
    d.HoldsAt (key :: path) value ↔ inner.HoldsAt path value := by
  rw [holdsAt_cons_iff]
  constructor
  · rintro ⟨inner', held', further⟩
    rwa [held.unique held']
  · intro further
    exact ⟨inner, held, further⟩

theorem IsScalar.not_holdsAt (scalar : d.IsScalar) : ¬ d.HoldsAt (key :: path) value := by
  intro held
  obtain ⟨text, rfl⟩ := scalar
  cases held

/-! ## Scalars -/

/-- The text that a document writes; the empty document writes the word for it. -/
inductive WritesText : Document → String → Prop
  | scalar (text : String) : WritesText (scalar text) text
  | null : WritesText null "null"

theorem text_eq_ok_iff : d.text = .ok text ↔ d.WritesText text := by
  constructor
  · intro read
    cases d with
    | scalar written => cases read; exact .scalar _
    | null => cases read; exact .null
    | list items => cases read
    | mapping fields => cases read
  · intro writes
    cases writes <;> rfl

theorem text_eq_error_iff :
    d.text = .error e ↔ (∀ text, ¬ d.WritesText text) ∧ e = .badConversion := by
  simp only [← text_eq_ok_iff]
  cases d <;> simp [Document.text, eq_comm]

theorem WritesText.unique {text' : String} (writes : d.WritesText text)
    (writes' : d.WritesText text') : text = text' :=
  Except.ok.inj ((text_eq_ok_iff.mpr writes).symm.trans (text_eq_ok_iff.mpr writes'))

/-- The texts that write a truth value. -/
def flagTexts : Bool → List String
  | true => ["y", "Y", "yes", "YES", "Yes", "true", "TRUE", "True", "on", "ON", "On"]
  | false => ["n", "N", "no", "NO", "No", "false", "FALSE", "False", "off", "OFF", "Off"]

/-- The truth value that a document writes. -/
inductive WritesFlag : Document → Bool → Prop
  | scalar {text : String} {flag : Bool} (written : text ∈ flagTexts flag) :
      WritesFlag (scalar text) flag

theorem flag?_eq_some_iff {flag : Bool} : flag? text = some flag ↔ text ∈ flagTexts flag := by
  have affirmative : ["y", "yes", "true", "on"].flatMap spellings =
      ["y", "Y", "Y", "yes", "YES", "Yes", "true", "TRUE", "True", "on", "ON", "On"] := by
    decide +kernel
  have negative : ["n", "no", "false", "off"].flatMap spellings =
      ["n", "N", "N", "no", "NO", "No", "false", "FALSE", "False", "off", "OFF", "Off"] := by
    decide +kernel
  have apart : ∀ text ∈ flagTexts false, text ∉ flagTexts true := by decide
  have yes : text ∈ ["y", "yes", "true", "on"].flatMap spellings ↔ text ∈ flagTexts true := by
    simp [affirmative, flagTexts]
  have no : text ∈ ["n", "no", "false", "off"].flatMap spellings ↔ text ∈ flagTexts false := by
    simp [negative, flagTexts]
  rw [flag?]
  simp only [yes, no]
  by_cases granted : text ∈ flagTexts true
  · have notDenied : text ∉ flagTexts false := fun denied => apart text denied granted
    cases flag <;> simp [granted, notDenied]
  · by_cases denied : text ∈ flagTexts false <;> cases flag <;> simp [granted, denied]

theorem flag_eq_ok_iff {flag : Bool} : d.flag = .ok flag ↔ d.WritesFlag flag := by
  constructor
  · intro read
    cases d with
    | scalar written =>
        refine .scalar (flag?_eq_some_iff.mp ?_)
        cases known : flag? written with
        | none => simp [Document.flag, known] at read
        | some flag' => simpa [Document.flag, known] using read
    | null => cases read
    | list items => cases read
    | mapping fields => cases read
  · rintro ⟨written⟩
    simp [Document.flag, flag?_eq_some_iff.mpr written]

theorem WritesFlag.unique {flag flag' : Bool} (writes : d.WritesFlag flag)
    (writes' : d.WritesFlag flag') : flag = flag' :=
  Except.ok.inj ((flag_eq_ok_iff.mpr writes).symm.trans (flag_eq_ok_iff.mpr writes'))

theorem flag_eq_error_iff :
    d.flag = .error e ↔ (∀ flag, ¬ d.WritesFlag flag) ∧ e = .badConversion := by
  simp only [← flag_eq_ok_iff]
  cases d with
  | scalar written => cases known : flag? written <;> simp [Document.flag, known, eq_comm]
  | null => simp [Document.flag, eq_comm]
  | list items => simp [Document.flag, eq_comm]
  | mapping fields => simp [Document.flag, eq_comm]

section

variable {α β : Type} {Writes : Document → α → Prop} {read : Document → Except DocumentError α}
  {otherwise a : α}

/-! ## One reading after another -/

theorem bind_eq_ok_iff {first : Except DocumentError α} {next : α → Except DocumentError β}
    {b : β} :
    first >>= next = .ok b ↔ ∃ a, first = .ok a ∧ next a = .ok b := by
  cases first <;> simp [bind, Except.bind]

theorem bind_eq_error_iff {first : Except DocumentError α} {next : α → Except DocumentError β} :
    first >>= next = .error e ↔ first = .error e ∨ ∃ a, first = .ok a ∧ next a = .error e := by
  cases first <;> simp [bind, Except.bind]

/-! ## Fields that may be missing -/

/-- What a document gives for a field that may be missing: what the value of the field writes, or
the default if there is no such field. -/
inductive Gives (d : Document) (path : List String) (Writes : Document → α → Prop) (otherwise : α) :
    α → Prop
  | present {value : Document} {a : α} (held : d.HoldsAt path value) (writes : Writes value a) :
      Gives d path Writes otherwise a
  | absent (nothing : ∀ value, ¬ d.HoldsAt path value) : Gives d path Writes otherwise otherwise

theorem Gives.unique {a' : α} (gives : d.Gives path Writes otherwise a)
    (gives' : d.Gives path Writes otherwise a')
    (unique : ∀ {value : Document} {a a' : α}, Writes value a → Writes value a' → a = a') :
    a = a' := by
  cases gives with
  | present held writes =>
      cases gives' with
      | present held' writes' =>
          rw [held.unique held'] at writes
          exact unique writes writes'
      | absent nothing => exact absurd held (nothing _)
  | absent nothing =>
      cases gives' with
      | present held => exact absurd held (nothing _)
      | absent => rfl

/-- What stands further inside a field is given by the field. -/
theorem HoldsAt.gives_iff {inner : Document} (held : d.HoldsAt [key] inner) :
    d.Gives (key :: path) Writes otherwise a ↔ inner.Gives path Writes otherwise a := by
  constructor
  · rintro (⟨further, writes⟩ | nothing)
    · exact .present (held.cons_iff.mp further) writes
    · exact .absent fun value further => nothing value (held.cons_iff.mpr further)
  · rintro (⟨further, writes⟩ | nothing)
    · exact .present (held.cons_iff.mpr further) writes
    · exact .absent fun value further => nothing value (held.cons_iff.mp further)

theorem fieldOr_eq_ok_iff (reads : ∀ {value a}, read value = .ok a ↔ Writes value a) :
    d.fieldOr key read otherwise = .ok a ↔ ¬ d.IsScalar ∧ d.Gives [key] Writes otherwise a := by
  rw [fieldOr, bind_eq_ok_iff]
  constructor
  · rintro ⟨field, found, answers⟩
    cases field with
    | none =>
        obtain ⟨noScalar, nothing⟩ := field?_eq_none_iff.mp found
        cases answers
        exact ⟨noScalar, .absent nothing⟩
    | some value =>
        have held := field?_eq_some_iff.mp found
        exact ⟨fun scalar => scalar.not_holdsAt held, .present held (reads.mp answers)⟩
  · rintro ⟨noScalar, gives⟩
    cases gives with
    | present held writes => exact ⟨_, field?_eq_some_iff.mpr held, reads.mpr writes⟩
    | absent nothing => exact ⟨none, field?_eq_none_iff.mpr ⟨noScalar, nothing⟩, rfl⟩

theorem fieldOr_eq_error_iff :
    d.fieldOr key read otherwise = .error e ↔
      d.IsScalar ∧ e = .fieldOfScalar key ∨
        ∃ value, d.HoldsAt [key] value ∧ read value = .error e := by
  rw [fieldOr, bind_eq_error_iff, field?_eq_error_iff]
  apply or_congr_right
  constructor
  · rintro ⟨field, found, fails⟩
    cases field with
    | none => cases fails
    | some value => exact ⟨value, field?_eq_some_iff.mp found, fails⟩
  · rintro ⟨value, held, fails⟩
    exact ⟨some value, field?_eq_some_iff.mpr held, fails⟩

end

end Lifecycle.Document
