import Lifecycle.Demo
import Lifecycle.Proofs.Document.Fields

/-!
# Settings from a document

Reading settings from a document is meant to end with an answer whatever the document is: with the
settings that it gives, field by field (`Settings.GivenBy`), or with the refusal of a document that
is no source of settings (`Settings.Flaw`).  It does so for every document except a mere text.  Such
a document cannot be asked for its section, and the error of that question is not turned into an
answer (`ofDocument_eq_ok_iff`, `ofDocument_eq_error_iff`).
-/

namespace Lifecycle

open Document

namespace Settings

variable {d inner : Document} {s : Settings} {e : DocumentError} {answer : SettingsReading}

/-- The settings that a document gives: what stands in the section of the registry, and the default
for each field that does not stand there. -/
structure GivenBy (d : Document) (s : Settings) : Prop where
  name : d.Gives ["registry", "name"] WritesText "default" s.name
  allowAliasOverriding :
    d.Gives ["registry", "allow_alias_overriding"] WritesFlag true s.allowAliasOverriding

/-- Why a document is no source of settings: it is a mere text, or its section is one, or a field
that stands there does not write a value of the wanted kind. -/
inductive Flaw (d : Document) : DocumentError → Prop
  | root (scalar : d.IsScalar) : Flaw d (.fieldOfScalar "registry")
  | scalarSection {inner : Document} (held : d.HoldsAt ["registry"] inner)
      (scalar : inner.IsScalar) : Flaw d (.fieldOfScalar "name")
  | name {value : Document} (held : d.HoldsAt ["registry", "name"] value)
      (unreadable : ∀ text, ¬ value.WritesText text) : Flaw d .badConversion
  | allowAliasOverriding {value : Document}
      (held : d.HoldsAt ["registry", "allow_alias_overriding"] value)
      (unreadable : ∀ flag, ¬ value.WritesFlag flag) : Flaw d .badConversion

/-- The answer that is due to a document: a refusal that names the flaw, with the default settings,
or else success, with the settings that the document gives. -/
structure AnswerFor (d : Document) (answer : SettingsReading) : Prop where
  refused {e : DocumentError} (flaw : Flaw d e) :
    answer.status = .saying .invalidArgument ("invalid registry config: " ++ e.message) ∧
      answer.settings = {}
  granted (flawless : ∀ e, ¬ Flaw d e) : answer.status = .ok ∧ GivenBy d answer.settings

theorem GivenBy.unique {s' : Settings} (given : GivenBy d s) (given' : GivenBy d s') : s = s' := by
  obtain ⟨name, policy⟩ := given
  obtain ⟨name', policy'⟩ := given'
  cases s
  cases s'
  simp only [Settings.mk.injEq]
  exact ⟨name.unique name' WritesText.unique, policy.unique policy' WritesFlag.unique⟩

theorem AnswerFor.unique {answer' : SettingsReading} (due : AnswerFor d answer)
    (due' : AnswerFor d answer') : answer = answer' := by
  have same : answer.status = answer'.status ∧ answer.settings = answer'.settings := by
    by_cases flawed : ∃ e, Flaw d e
    · obtain ⟨e, flaw⟩ := flawed
      obtain ⟨status, settings⟩ := due.refused flaw
      obtain ⟨status', settings'⟩ := due'.refused flaw
      exact ⟨status.trans status'.symm, settings.trans settings'.symm⟩
    · rw [not_exists] at flawed
      obtain ⟨status, given⟩ := due.granted flawed
      obtain ⟨status', given'⟩ := due'.granted flawed
      exact ⟨status.trans status'.symm, given.unique given'⟩
  cases answer
  cases answer'
  rw [SettingsReading.mk.injEq]
  exact same.symm

/-! ## The section of the registry -/

theorem ofSection_eq_ok_iff :
    ofSection inner = .ok s ↔ ¬ inner.IsScalar ∧
      inner.Gives ["name"] WritesText "default" s.name ∧
      inner.Gives ["allow_alias_overriding"] WritesFlag true s.allowAliasOverriding := by
  rw [ofSection]
  simp only [bind_eq_ok_iff, fieldOr_eq_ok_iff text_eq_ok_iff, fieldOr_eq_ok_iff flag_eq_ok_iff]
  constructor
  · rintro ⟨name, ⟨noScalar, nameGiven⟩, policy, ⟨-, policyGiven⟩, ⟨⟩⟩
    exact ⟨noScalar, nameGiven, policyGiven⟩
  · rintro ⟨noScalar, nameGiven, policyGiven⟩
    exact ⟨_, ⟨noScalar, nameGiven⟩, _, ⟨noScalar, policyGiven⟩, rfl⟩

/-- The reading of the section fails exactly with the flaws of the document. -/
theorem ofSection_eq_error_iff (held : d.HoldsAt ["registry"] inner) :
    ofSection inner = .error e ↔ Flaw d e := by
  rw [ofSection]
  simp only [bind_eq_error_iff, fieldOr_eq_error_iff]
  constructor
  · rintro ((⟨scalar, rfl⟩ | ⟨value, stands, fails⟩) | ⟨name, named, fails⟩)
    · exact .scalarSection held scalar
    · obtain ⟨unreadable, rfl⟩ := text_eq_error_iff.mp fails
      exact .name (held.cons_iff.mpr stands) unreadable
    · rcases fails with (⟨scalar, rfl⟩ | ⟨value, stands, fails⟩) | ⟨policy, -, ⟨⟩⟩
      · exact absurd scalar ((fieldOr_eq_ok_iff text_eq_ok_iff).mp named).1
      · obtain ⟨unreadable, rfl⟩ := flag_eq_error_iff.mp fails
        exact .allowAliasOverriding (held.cons_iff.mpr stands) unreadable
  · intro flaw
    cases flaw with
    | root scalar => exact absurd held scalar.not_holdsAt
    | scalarSection held' scalar =>
        rw [held'.unique held] at scalar
        exact .inl (.inl ⟨scalar, rfl⟩)
    | name stands unreadable =>
        have fails := text_eq_error_iff.mpr ⟨unreadable, rfl⟩
        exact .inl (.inr ⟨_, held.cons_iff.mp stands, fails⟩)
    | allowAliasOverriding stands unreadable =>
        have stands := held.cons_iff.mp stands
        -- The name is read first, and fails in the same way if it fails at all.
        cases named : inner.fieldOr "name" Document.text "default" with
        | ok name =>
            have fails := flag_eq_error_iff.mpr ⟨unreadable, rfl⟩
            exact .inr ⟨name, rfl, .inl (.inr ⟨_, stands, fails⟩)⟩
        | error e =>
            rcases fieldOr_eq_error_iff.mp named with ⟨scalar, -⟩ | ⟨value, stands', fails⟩
            · exact absurd stands scalar.not_holdsAt
            · obtain ⟨-, rfl⟩ := text_eq_error_iff.mp fails
              exact .inl (.inr ⟨value, stands', fails⟩)

/-! ## The document -/

theorem ofDocument_eq_error_iff :
    ofDocument (some d) = .error e ↔ d.IsScalar ∧ e = .fieldOfScalar "registry" := by
  rw [ofDocument, bind_eq_error_iff, Option.elim_some, field?_eq_error_iff, or_iff_left_iff_imp]
  rintro ⟨field, -, fails⟩
  cases field with
  | none => cases fails
  | some inner => cases read : ofSection inner <;> simp [read, pure, Except.pure] at fails

theorem ofFile_eq_error_iff {files : Files} {path : String} :
    ofFile files path = .error e ↔
      ∃ d, files.load path = .ok d ∧ d.IsScalar ∧ e = .fieldOfScalar "registry" := by
  rw [ofFile]
  cases files.load path with
  | error e' => simp
  | ok d => simp [ofDocument_eq_error_iff]

/-- An answer that a document gets is the one that is due to it. -/
theorem answerFor_of_ofDocument (answered : ofDocument (some d) = .ok answer) :
    AnswerFor d answer := by
  rw [ofDocument, bind_eq_ok_iff, Option.elim_some] at answered
  obtain ⟨field, found, answered⟩ := answered
  cases field with
  | none =>
      obtain ⟨noScalar, nothing⟩ := field?_eq_none_iff.mp found
      have absent (key : String) (value : Document) : ¬ d.HoldsAt ["registry", key] value := by
        rw [holdsAt_cons_iff]
        rintro ⟨inner, held, -⟩
        exact nothing inner held
      cases answered
      refine ⟨?_, fun _ => ⟨rfl, .absent (absent _), .absent (absent _)⟩⟩
      intro e flaw
      cases flaw with
      | root scalar => exact absurd scalar noScalar
      | scalarSection held => exact absurd held (nothing _)
      | name held => exact absurd held (absent _ _)
      | allowAliasOverriding held => exact absurd held (absent _ _)
  | some inner =>
      have held := field?_eq_some_iff.mp found
      cases read : ofSection inner with
      | ok s =>
          simp only [read] at answered
          cases answered
          obtain ⟨-, name, policy⟩ := ofSection_eq_ok_iff.mp read
          refine ⟨?_, fun _ => ⟨rfl, held.gives_iff.mpr name, held.gives_iff.mpr policy⟩⟩
          intro e flaw
          cases read.symm.trans ((ofSection_eq_error_iff held).mpr flaw)
      | error e =>
          simp only [read] at answered
          cases answered
          have flaw := (ofSection_eq_error_iff held).mp read
          refine ⟨?_, fun flawless => absurd flaw (flawless e)⟩
          intro e' flaw'
          cases read.symm.trans ((ofSection_eq_error_iff held).mpr flaw')
          exact ⟨rfl, rfl⟩

theorem exists_answer_iff : (∃ answer, ofDocument (some d) = .ok answer) ↔ ¬ d.IsScalar := by
  cases read : ofDocument (some d) with
  | ok answer =>
      have noScalar : ¬ d.IsScalar := by
        intro scalar
        cases read.symm.trans (ofDocument_eq_error_iff.mpr ⟨scalar, rfl⟩)
      simp [noScalar]
  | error e => simp [(ofDocument_eq_error_iff.mp read).1]

theorem ofDocument_eq_ok_iff :
    ofDocument (some d) = .ok answer ↔ ¬ d.IsScalar ∧ AnswerFor d answer := by
  constructor
  · intro read
    exact ⟨exists_answer_iff.mp ⟨answer, read⟩, answerFor_of_ofDocument read⟩
  · rintro ⟨noScalar, due⟩
    obtain ⟨answer', read⟩ := exists_answer_iff.mpr noScalar
    rw [read, (answerFor_of_ofDocument read).unique due]

/-- Reading settings from a document, or from a file that holds it, comes to an answer exactly if
the document is not a mere text, and then the answer is the one that is due: a document whose
section is a mere text, or has a field that cannot be read, is refused as an invalid argument, and
every other one gives each field that stands in it, and the default of each field that does not.
From a mere text the reading ends without an answer. -/
theorem answered_iff_not_scalar {files : Files} {path : String} {d : Document}
    (held : files.load path = .ok d) :
    ∀ reading ∈ [ofDocument (some d), ofFile files path],
      ((∃ answer, reading = .ok answer) ↔ ¬ d.IsScalar) ∧
      (∀ answer, reading = .ok answer ↔ ¬ d.IsScalar ∧ AnswerFor d answer) ∧
      ∀ e, reading = .error e ↔ d.IsScalar ∧ e = .fieldOfScalar "registry" := by
  have file : ofFile files path = ofDocument (some d) := by
    rw [ofFile, held]
  intro reading member
  have same : reading = ofDocument (some d) := by
    simpa [file] using member
  rw [same]
  exact ⟨exists_answer_iff, fun _ => ofDocument_eq_ok_iff, fun _ => ofDocument_eq_error_iff⟩

/-- A file with an empty name, a capitalized truth value and a second field of the same name. -/
theorem empty_name_reads_as_word :
    let registry : Document := .mapping [("name", .null),
      ("allow_alias_overriding", .scalar "Off"), ("name", .scalar "second")]
    let d : Document := .mapping [("log", .list []), ("registry", registry)]
    let files : Files := [("old.yaml", .scalar "core"), ("registry.yaml", d)]
    files.load "registry.yaml" = .ok d ∧
      ofFile files "registry.yaml" = .ok ⟨⟨"null", false⟩, .ok⟩ ∧
      AnswerFor d ⟨⟨"null", false⟩, .ok⟩ := by
  intro registry d files
  have held : files.load "registry.yaml" = .ok d := rfl
  have given : ofSection registry = .ok ⟨"null", false⟩ := by
    refine ofSection_eq_ok_iff.mpr ⟨?_, .present (field?_eq_some_iff.mp rfl) .null,
      .present (field?_eq_some_iff.mp rfl) (.scalar (by decide))⟩
    rintro ⟨text, same⟩
    exact Document.noConfusion same
  have read : ofFile files "registry.yaml" = .ok ⟨⟨"null", false⟩, .ok⟩ := by
    rw [ofFile, held]
    refine bind_eq_ok_iff.mpr ⟨some registry, rfl, ?_⟩
    simp only [given]
    rfl
  obtain ⟨-, due, -⟩ := answered_iff_not_scalar held (ofFile files "registry.yaml") (by simp)
  exact ⟨held, read, ((due _).mp read).2⟩

/-- A document that is a mere text gets no answer, although a refusal is due to it. -/
theorem scalar_document_unanswered :
    let d : Document := .scalar "core"
    Flaw d (.fieldOfScalar "registry") ∧ (¬ ∃ answer, ofDocument (some d) = .ok answer) ∧
      ¬ ∃ answer, ofFile [("registry.yaml", d)] "registry.yaml" = .ok answer := by
  intro d
  refine ⟨.root ⟨"core", rfl⟩, ?_, ?_⟩
  · rintro ⟨answer, ⟨⟩⟩
  · rintro ⟨answer, ⟨⟩⟩

end Settings

/-! ## The demonstration -/

/-- Logging is put to work with a file, or refuses it, unless the file is a mere text. -/
theorem Log.Hub.result_installFrom_eq_error_iff {files : Files} {hub : Hub} {path : String}
    {e : DocumentError} :
    (hub.installFrom files routerKind path).thenApply.result = .error e ↔
      ∃ d, files.load path = .ok d ∧ d.IsScalar ∧ e = .fieldOfScalar "log" := by
  rw [installFrom]
  cases held : files.load path with
  | error e' => simp [HubReply.thenApply, Status.saying, Status.isSuccess, Code.isSuccess]
  | ok d =>
      have applied : (hub.install routerKind d).thenApply.result = (hub.start d).apply.result := rfl
      have fails : (hub.start d).apply.result = .error e ↔ d.field? "log" = .error e := by
        rw [apply]
        simp only [start]
        cases d.field? "log" with
        | error e' => simp
        | ok field => cases field <;> simp
      simp only [applied, fails, field?_eq_error_iff, Except.ok.injEq, exists_eq_left']

namespace Demo

/-- The demonstration ends with an error that nobody handles exactly if the file that configures it
is a mere text.  Logging asks the file for a section first, so that the settings are not read from
it at all. -/
theorem unhandled_iff_scalar {files : Files} {hub : Log.Hub} {path : String} {e : DocumentError} :
    (∃ ending, runWith files hub path = some ending ∧ ending.result = .error e) ↔
      ∃ d, files.load path = .ok d ∧ d.IsScalar ∧ e = .fieldOfScalar "log" := by
  have handled {e' : DocumentError} (fails : Settings.ofFile files path = .error e') :
      (hub.installFrom files Log.Hub.routerKind path).thenApply.result =
        .error (.fieldOfScalar "log") := by
    obtain ⟨d, held, scalar, -⟩ := Settings.ofFile_eq_error_iff.mp fails
    exact Log.Hub.result_installFrom_eq_error_iff.mpr ⟨d, held, scalar, rfl⟩
  rw [← @Log.Hub.result_installFrom_eq_error_iff files hub path e]
  simp only [runWith]
  generalize (hub.installFrom files Log.Hub.routerKind path).thenApply = installed at handled ⊢
  cases result : installed.result with
  | error e' => simp
  | ok status =>
      simp only [reduceCtorEq, iff_false, not_exists, not_and]
      intro ending ran
      suffices ended : ∃ code, ending.result = .ok code by
        obtain ⟨code, ended⟩ := ended
        simp [ended]
      by_cases success : status.isSuccess = true
      · simp only [success, Bool.not_true, Bool.false_eq_true, if_false] at ran
        cases read : Settings.ofFile files path with
        | error e' => cases result.symm.trans (handled read)
        | ok reading =>
            simp only [read] at ran
            by_cases granted : reading.status.isSuccess = true
            · simp only [granted, Bool.not_true, Bool.false_eq_true, if_false] at ran
              obtain ⟨served, -, ran⟩ := Option.bind_eq_some_iff.mp ran
              cases ran
              exact ⟨0, rfl⟩
            · simp only [granted, Bool.not_false, if_true] at ran
              cases ran
              exact ⟨1, rfl⟩
      · simp only [success, Bool.not_false, if_true] at ran
        cases ran
        exact ⟨1, rfl⟩

end Demo

end Lifecycle
