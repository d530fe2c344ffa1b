import Lifecycle.Proofs.Session.Routines

/-!
# Disposals that throw

A teardown does not look at what a disposal comes to.  So two families of callbacks of which only
the disposals differ, and these only in the outcomes at their ends, are run in step, through
callbacks in callbacks and teardowns in teardowns: the same callbacks run in the same order on the
same registry, and no teardown throws (`Routine.outcomes_of_disposals_do_not_count`).  What a disposal
throws is kept nowhere, so it may be any fault, whether or not one with its number has been raised.
-/

namespace Lifecycle

open Log

variable {μ κ : Type}

/-- Two routines that do the same up to their outcomes, which agree in some way. -/
inductive Routine.SameBut (agree : Outcome → Outcome → Prop) : Routine μ κ → Routine μ κ → Prop where
  | ends {outcome outcome' : Outcome} (agreed : agree outcome outcome') :
      SameBut agree (.ends outcome) (.ends outcome')
  | call (c : Call κ) {next next' : Except Fault Answer → Routine μ κ}
      (onward : ∀ result, SameBut agree (next result) (next' result)) :
      SameBut agree (.call c next) (.call c next')
  | raise (cause : Cause) {next next' : Fault → Routine μ κ}
      (onward : ∀ fault, SameBut agree (next fault) (next' fault)) :
      SameBut agree (.raise cause next) (.raise cause next')
  | attach (fault : Fault) (others : List Fault) {next next' : Routine μ κ}
      (onward : SameBut agree next next') :
      SameBut agree (.attach fault others next) (.attach fault others next')
  | consult {next next' : μ → Routine μ κ}
      (onward : ∀ memory, SameBut agree (next memory) (next' memory)) :
      SameBut agree (.consult next) (.consult next')
  | remember (memory : μ) {next next' : Routine μ κ} (onward : SameBut agree next next') :
      SameBut agree (.remember memory next) (.remember memory next')

/-- What the outcomes of callbacks for the same purpose have to agree in: the instance of a factory,
and nothing for a disposal. -/
def Role.Agree : Role → Outcome → Outcome → Prop
  | factory => Eq
  | disposal => fun _ _ => True

/-- Two families of callbacks of which only the disposals differ, and these only in whether they
return or throw something in the end, and what. -/
structure Routine.DifferInOutcomes (family family' : Role → κ → Routine μ κ) : Prop where
  factories (c : κ) : family .factory c = family' .factory c
  disposals (c : κ) : (family .disposal c).SameBut (fun _ _ => True) (family' .disposal c)

/-- Two histories that agree in the session, in the memory of its users and in the callbacks that
were run. -/
structure History.Agrees (h h' : History μ κ) : Prop where
  session : h.session = h'.session
  memory : h.memory = h'.memory
  invoked : h.invoked = h'.invoked

namespace History.Agrees

variable {h h' : History μ κ}

theorem moved (agrees : h.Agrees h') (move move' : Move κ) (session : Session κ) :
    (h.moved move session).Agrees (h'.moved move' session) :=
  ⟨rfl, agrees.memory, agrees.invoked⟩

theorem invoke (agrees : h.Agrees h') (role : Role) (c : κ) :
    (h.invoke role c).Agrees (h'.invoke role c) :=
  ⟨agrees.session, agrees.memory, congrArg (· ++ [(role, c)]) agrees.invoked⟩

end History.Agrees

/-- Two runs that both come to no end within their bounds, or to ends that agree. -/
def InStep {α : Type} (agree : α → α → Prop) :
    Option (α × History μ κ) → Option (α × History μ κ) → Prop :=
  Option.Rel fun ended ended' => agree ended.1 ended'.1 ∧ ended.2.Agrees ended'.2

theorem InStep.bind {α β : Type} {agree : α → α → Prop} {agree' : β → β → Prop}
    {x x' : Option (α × History μ κ)} {next next' : α × History μ κ → Option (β × History μ κ)}
    (first : InStep agree x x')
    (onward : ∀ ended ended', x = some ended → agree ended.1 ended'.1 → ended.2.Agrees ended'.2 →
      InStep agree' (next ended) (next' ended')) :
    InStep agree' (x.bind next) (x'.bind next') := by
  cases first with
  | none => exact .none
  | some agreed => exact onward _ _ rfl agreed.1 agreed.2

namespace Routine

variable {family family' : Role → κ → Routine μ κ} {h h' t : History μ κ} {below : List (Frame κ)}

theorem SameBut.refl {agree : Outcome → Outcome → Prop} (reflexive : ∀ outcome, agree outcome outcome)
    (routine : Routine μ κ) : routine.SameBut agree routine := by
  induction routine with
  | ends outcome => exact .ends (reflexive outcome)
  | call c next ih => exact .call c ih
  | raise cause next ih => exact .raise cause ih
  | attach fault others next ih => exact .attach fault others ih
  | consult next ih => exact .consult ih
  | remember memory next ih => exact .remember memory ih

theorem DifferInOutcomes.sameBut (differ : DifferInOutcomes family family') (role : Role) (c : κ) :
    (family role c).SameBut role.Agree (family' role c) := by
  cases role with
  | factory =>
      rw [differ.factories]
      exact .refl (fun _ => rfl) _
  | disposal => exact differ.disposals c

theorem only_true (routine : Routine μ κ) : routine.Only fun _ => True := by
  induction routine with
  | ends outcome => trivial
  | call c next ih => exact ⟨trivial, ih⟩
  | raise cause next ih => exact ih
  | attach fault others next ih => exact ih
  | consult next ih => exact ih
  | remember memory next ih => exact ih

/-- Nothing is known about the callbacks of a family. -/
theorem confined_true (family : Role → κ → Routine μ κ) :
    Confined family (fun _ => True) fun _ => True where
  routines _ _ _ := only_true _
  calls _ _ _ _ _ _ := trivial

/-- When a callback comes back, the calls that were waiting wait again. -/
theorem stack_of_callback {bound : Nat} {role : Role} {c : κ} {outcome : Outcome}
    (ran : callback family bound role c h = some (outcome, t)) :
    t.session.stack = h.session.stack :=
  (restores_callback (confined_true family) trivial ran).2

/-! ## Runs in step -/

theorem inStep_run {settle settle' : Reply κ → Program (History μ κ) (Except Fault Answer)}
    (settles : ∀ reply below (h h' : History μ κ), h.session.Waits below reply → h.Agrees h' →
      InStep Eq (settle reply h) (settle' reply h'))
    {agree : Outcome → Outcome → Prop} {routine routine' : Routine μ κ}
    (same : routine.SameBut agree routine') (agrees : h.Agrees h') :
    InStep agree (routine.run settle h) (routine'.run settle' h') := by
  induction same generalizing h h' with
  | ends agreed => exact .some ⟨agreed, agrees⟩
  | call c onward ih =>
      rw [run_call, run_call, ← agrees.session]
      apply (settles _ _ _ _ (Session.waits_call h.session c) (agrees.moved ..)).bind
      rintro ⟨result, u⟩ ⟨result', u'⟩ - same agrees
      cases same
      exact ih result agrees
  | raise cause onward ih =>
      rw [run_raise, run_raise, ← agrees.session]
      exact ih _ (agrees.moved ..)
  | attach fault others onward ih =>
      rw [run_attach, run_attach, ← agrees.session]
      exact ih (agrees.moved ..)
  | consult onward ih =>
      rw [run_consult, run_consult, ← agrees.memory]
      exact ih _ agrees
  | remember memory onward ih =>
      rw [run_remember, run_remember]
      exact ih ⟨agrees.session, rfl, agrees.invoked⟩

/-- A teardown goes on in the same way whatever its disposal has come to. -/
theorem resume_eq_of_agree {frame : Frame κ} {outcome outcome' : Outcome}
    (agree : frame.role.Agree outcome outcome') (r : Registry κ) :
    (r.resume outcome frame).value = (r.resume outcome' frame).value := by
  cases frame with
  | creating | exposing =>
      obtain rfl : outcome = outcome' := agree
      rfl
  | disposing => rfl

theorem inStep_settle {run run' : Role → κ → Program (History μ κ) Outcome}
    (restores : ∀ role c (h t : History μ κ) outcome, run role c h = some (outcome, t) →
      t.session.stack = h.session.stack)
    (runs : ∀ role c (h h' : History μ κ), h.Agrees h' →
      InStep role.Agree (run role c h) (run' role c h'))
    (bound : Nat) {reply : Reply κ} (waits : h.session.Waits below reply) (agrees : h.Agrees h') :
    InStep Eq (Reply.settle run History.finish bound reply h)
      (Reply.settle run' History.finish bound reply h') := by
  induction bound generalizing reply h h' with
  | zero =>
      cases reply with
      | answered result => exact .some ⟨rfl, agrees⟩
      | entered role c => exact .none
  | succ bound ih =>
      cases reply with
      | answered result => exact .some ⟨rfl, agrees⟩
      | entered role c =>
          obtain ⟨frame, rfl, waiting⟩ := waits
          rw [settle_entered, settle_entered]
          apply (runs frame.role c h h' agrees).bind
          rintro ⟨outcome, u⟩ ⟨outcome', u'⟩ ran agree agrees
          have stack : u.session.stack = frame :: below :=
            (restores _ _ _ _ _ ran).trans waiting
          have session : u'.session = u.session := agrees.session.symm
          rw [History.finish, History.finish, session, Session.finish?_of_stack stack,
            Session.finish?_of_stack stack]
          simp only [Option.map_some, Option.bind_some, Logged.value_map,
            ← resume_eq_of_agree agree]
          exact ih (Session.waits_after below _) (agrees.moved ..)

theorem inStep_callback (differ : DifferInOutcomes family family') (bound : Nat) (role : Role)
    (c : κ) (agrees : h.Agrees h') :
    InStep role.Agree (callback family bound role c h) (callback family' bound role c h') := by
  induction bound generalizing role c h h' with
  | zero => exact .none
  | succ bound ih =>
      rw [callback_succ, callback_succ]
      apply inStep_run _ (differ.sameBut role c) (agrees.invoke role c)
      intro reply below h h' waits agrees
      exact inStep_settle
        (fun role c h t outcome => stack_of_callback)
        (fun role c h h' agrees => ih role c agrees) bound waits agrees

theorem inStep_answerTo (differ : DifferInOutcomes family family') (bound : Nat) (c : Call κ)
    (agrees : h.Agrees h') :
    InStep Eq (answerTo family bound c h) (answerTo family' bound c h') := by
  rw [answerTo_eq, answerTo_eq, ← agrees.session]
  exact inStep_settle
    (fun role c h t outcome => stack_of_callback)
    (fun role c h h' agrees => inStep_callback differ bound role c agrees) bound
    (Session.waits_call h.session c) (agrees.moved ..)

/-! ## Teardowns do not throw -/

theorem halts_callTeardown {call : TeardownCall κ} (destroys : call.Destroys) (r : Registry κ) :
    (r.callTeardown call).value.2.Halts := by
  cases call with
  | registerDisposal | hasDisposal | disposalCount => exact destroys.elim
  | destroy | destroyAll | retire => exact (Registry.torn_teardown _ _ .refl).2
  | close =>
      rw [Registry.callTeardown]
      split
      · exact .done
      · exact (Registry.torn_teardown _ _ .refl).2

/-- A call that has come to a teardown, or to the end of one, is done when it is answered. -/
theorem done_of_halts {run : Role → κ → Program (History μ κ) Outcome}
    (restores : ∀ role c (h t : History μ κ) outcome, run role c h = some (outcome, t) →
      t.session.stack = h.session.stack)
    {bound : Nat} {p : Registry κ × Progress κ} (halts : p.2.Halts)
    (stands : h.session = (Session.after below p).1) {result : Except Fault Answer}
    (settled : Reply.settle run History.finish bound (Session.after below p).2 h =
      some (result, t)) : result = .ok .done := by
  induction bound generalizing h p with
  | zero =>
      rcases p with ⟨r, progress⟩
      cases halts with
      | done =>
          cases settled
          rfl
      | disposing => simp [Session.after, Reply.settle, Program.exhausted] at settled
  | succ bound ih =>
      rcases p with ⟨r, progress⟩
      cases halts with
      | done =>
          cases settled
          rfl
      | disposing callback key rest =>
          have waiting : h.session.stack = .disposing key rest :: below := by
            rw [stands]
            rfl
          rw [Session.after, settle_entered] at settled
          obtain ⟨⟨outcome, u⟩, ran, settled⟩ := Option.bind_eq_some_iff.mp settled
          obtain ⟨⟨reply, v⟩, finished, settled⟩ := Option.bind_eq_some_iff.mp settled
          have stack : u.session.stack = .disposing key rest :: below :=
            (restores _ _ _ _ _ ran).trans waiting
          rw [History.finish, Session.finish?_of_stack stack] at finished
          cases finished
          exact ih (Registry.torn_teardown u.session.registry rest .refl).2 rfl settled

theorem done_of_destroys {call : TeardownCall κ} (destroys : call.Destroys) {bound : Nat}
    {result : Except Fault Answer}
    (answered : answerTo family bound (.teardown call) h = some (result, t)) :
    result = .ok .done := by
  rw [answerTo_eq] at answered
  exact done_of_halts
    (fun role c h t outcome => stack_of_callback)
    (halts_callTeardown destroys h.session.registry) rfl answered

/-- If two families of callbacks differ only in whether their disposals return or throw in the end,
and what they throw, then every call answers the same with both of them and leads to the same
session, with the same callbacks run in the same order; and no call that destroys anything throws.
The runs come to an end within the same bounds. -/
theorem outcomes_of_disposals_do_not_count (differ : DifferInOutcomes family family')
    (h : History μ κ) (c : Call κ) (bound : Nat) :
    Option.Rel
      (fun ended ended' => ended.1 = ended'.1 ∧ ended.2.session = ended'.2.session ∧
        ended.2.memory = ended'.2.memory ∧ ended.2.invoked = ended'.2.invoked ∧
        ∀ call, c = .teardown call → call.Destroys → ended.1 = .ok .done)
      (answerTo family bound c h) (answerTo family' bound c h) := by
  have inStep : InStep Eq (answerTo family bound c h) (answerTo family' bound c h) :=
    inStep_answerTo differ bound c ⟨rfl, rfl, rfl⟩
  generalize answerTo family' bound c h = other at inStep ⊢
  cases answered : answerTo family bound c h with
  | none =>
      rw [answered] at inStep
      cases inStep
      exact .none
  | some ended =>
      rw [answered] at inStep
      cases inStep with
      | some agreed =>
          obtain ⟨same, agrees⟩ := agreed
          refine .some ⟨same, agrees.session, agrees.memory, agrees.invoked, ?_⟩
          rintro call rfl destroys
          exact done_of_destroys destroys answered

/-- A disposal that destroys another key and then throws, beside one that returns. -/
theorem throwing_disposal_like_returning_one :
    let family (outcome : Outcome) : Role → Name → Routine Unit Name
      | .disposal, "outer" => .call (.teardown (.destroy "inner")) fun _ => .ends outcome
      | _, _ => .ends (.returned none)
    let registry : Registry Name := { disposals := [("inner", "inner"), ("outer", "outer")] }
    let start : History Unit Name := { session := { registry }, memory := () }
    let ended (outcome : Outcome) :=
      Routine.answerTo (family outcome) 2 (.teardown (.destroy "outer")) start
    Routine.DifferInOutcomes (family (.returned none)) (family (.threw ⟨7, .foreign⟩)) ∧
      (ended (.threw ⟨7, .foreign⟩)).map (fun x => (x.1, x.2.invoked)) =
        some (.ok .done, [(.disposal, "outer"), (.disposal, "inner")]) := by
  intro family registry start ended
  have differ : DifferInOutcomes (family (.returned none)) (family (.threw ⟨7, .foreign⟩)) := by
    constructor
    · intro c
      rfl
    · intro c
      simp only [family]
      split
      · exact .call _ fun _ => .ends trivial
      · exact .ends trivial
  have returned : (ended (.returned none)).map (fun x => (x.1, x.2.invoked)) =
      some (.ok .done, [(.disposal, "outer"), (.disposal, "inner")]) := by
    decide +kernel
  have inStep : Option.Rel _ (ended (.returned none)) (ended (.threw ⟨7, .foreign⟩)) :=
    outcomes_of_disposals_do_not_count differ start (.teardown (.destroy "outer")) 2
  refine ⟨differ, ?_⟩
  rw [← returned]
  generalize ended (.returned none) = x at inStep
  generalize ended (.threw ⟨7, .foreign⟩) = y at inStep
  cases inStep with
  | none => rfl
  | some agreed =>
      obtain ⟨same, -, -, invoked, -⟩ := agreed
      simp [same, invoked]

end Routine

end Lifecycle
