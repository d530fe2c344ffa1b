import Lifecycle.Script.Scenario

/-!
# Programs do not hear their log

Everything that a registry does is written to the log of the program, and the log changes as it is
written to: channels are opened, sinks are chosen.  None of this comes back.  A program is `Deaf` if
it does in a world without a log what it does in any other, and every program that is made of calls
on a registry and its parts is deaf, however it branches, whatever its callbacks do and however they
nest (`UserCode.deaf`).  Two runs that differ in the log they begin with therefore differ in nothing
but their logs and in the records that reached a sink (`same_whatever_log`).
-/

namespace Lifecycle

theorem Log.Hub.logAll_of_noRouter {h : Hub} (silent : h.router = none) (records : List Record) :
    h.logAll records = ([], h) := by
  induction records with
  | nil => rfl
  | cons record rest ih => simp [logAll, log, silent, ih]

namespace Script

open Log

/-! ## Worlds without a log -/

/-- Whether an event is a record that has reached a sink. -/
def Event.isHeard : Event → Bool
  | heard _ _ => true
  | _ => false

/-- The world without its log, and without the records that have reached a sink. -/
def World.unheard (w : World) : World :=
  { w with hub := {}, events := w.events.filter fun event => !event.isHeard }

namespace World

/-- What two worlds have in common if they are the same without their logs. -/
theorem eq_of_unheard_eq {w w' : World} (same : w'.unheard = w.unheard) :
    w' = { w with hub := w'.hub, events := w'.events } := by
  cases w
  cases w'
  simp only [unheard, mk.injEq] at same ⊢
  simp [same]

/-- Records reach sinks, and change nothing else. -/
theorem unheard_hear (w : World) (records : List Record) :
    (w.hear records).unheard = w.unheard := by
  simp [hear, tellAll, unheard, List.filter_append, List.filter_reverse, List.filter_map,
    Function.comp_def, Event.isHeard]

/-- Without a log, records reach no sink. -/
theorem hear_unheard (w : World) (records : List Record) :
    w.unheard.hear records = w.unheard := by
  have silent : w.unheard.hub.router = none := rfl
  simp [hear, tellAll, Hub.logAll_of_noRouter silent]

theorem unheard_tell (w : World) {event : Event} (shown : event.isHeard = false) :
    (w.tell event).unheard = w.unheard.tell event := by
  simp [tell, unheard, shown]

theorem unheard_flush (w : World) : w.flush.unheard = w.unheard.flush := by
  have shown : (w.warnings.map (Event.warned w.depth)).filter (fun event => !event.isHeard) =
      w.warnings.map (Event.warned w.depth) := by
    simp [List.filter_eq_self, Event.isHeard]
  simp [flush, unheard, List.filter_append, shown]

theorem take_unheard (w : World) (source : Source) :
    w.unheard.take source = ((w.take source).1, (w.take source).2.unheard) := by
  cases source <;> rfl

end World

/-! ## Deaf programs -/

namespace Play

variable {α β : Type}

/-- Without a log, a play comes to the same result and makes the same of the world. -/
def Deaf (p : Play α) : Prop :=
  ∀ w : World, p.run w.unheard = (p.run w).map fun result => (result.1, result.2.unheard)

theorem Deaf.pure (a : α) : Deaf (pure a : Play α) := fun _ => rfl

theorem Deaf.exhausted : Deaf (Program.exhausted : Play α) := fun _ => rfl

theorem Deaf.bind {p : Play α} {f : α → Play β} (first : p.Deaf) (onward : ∀ a, (f a).Deaf) :
    Deaf (p >>= f) := by
  intro w
  rw [StateT.run_bind, StateT.run_bind, first w]
  cases p.run w with
  | none => rfl
  | some result => exact onward result.1 result.2

/-- A program may look at the world, apart from the log. -/
theorem Deaf.get_bind {f : World → Play α} (apart : ∀ w, f w.unheard = f w)
    (onward : ∀ w, (f w).Deaf) : Deaf (get >>= f) := by
  intro w
  change (f w.unheard).run w.unheard = ((f w).run w).map fun result => (result.1, result.2.unheard)
  rw [apart w]
  exact onward w w

/-- A program may put what it has made of the world in its place, apart from the log. -/
theorem Deaf.get_set_bind {g : World → World} {f : World → Play α}
    (replaced : ∀ w, g w.unheard = (g w).unheard) (apart : ∀ w, f w.unheard = f w)
    (onward : ∀ w, (f w).Deaf) : Deaf (get >>= fun w => set (g w) >>= fun _ => f w) := by
  intro w
  change (f w.unheard).run (g w.unheard) =
    ((f w).run (g w)).map fun result => (result.1, result.2.unheard)
  rw [replaced w, apart w]
  exact onward w (g w)

/-- A program may change the world, apart from the log. -/
theorem Deaf.modifyGet {f : World → α × World}
    (apart : ∀ w, f w.unheard = ((f w).1, (f w).2.unheard)) :
    Deaf (modifyGet f : Play α) := by
  intro w
  change some (f w.unheard) = some ((f w).1, (f w).2.unheard)
  rw [apart w]

theorem Deaf.modify {f : World → World} (apart : ∀ w, f w.unheard = (f w).unheard) :
    Deaf (modify f : Play Unit) :=
  .modifyGet fun w => congrArg _ (apart w)

/-! ## The calls of a program -/

theorem deaf_hear (records : List Record) : (hear records).Deaf :=
  .modify fun w => by rw [World.hear_unheard, World.unheard_hear]

theorem deaf_move (moved : Logged (Session Callback × Reply Callback)) : (move moved).Deaf :=
  .bind (.modify fun _ => rfl) fun _ => .bind (deaf_hear moved.records) fun _ => .pure _

theorem deaf_finish (outcome : Outcome) : (finish outcome).Deaf := by
  apply Deaf.get_bind
  · exact fun _ => rfl
  · intro w
    cases w.session.finish? outcome with
    | none => exact .exhausted
    | some moved => exact deaf_move moved

theorem deaf_take (source : Source) : (take source).Deaf :=
  .modifyGet fun w => w.take_unheard source

theorem deaf_takeFault (source : Option FaultSource) : (takeFault source).Deaf :=
  .modifyGet fun _ => rfl

theorem deaf_raise (cause : Cause) : (raise cause).Deaf :=
  .modifyGet fun _ => rfl

/-- Callbacks are run until the call is answered, and none of them hears the log. -/
theorem deaf_settle {run : Role → Callback → Play Outcome} (deaf : ∀ role c, (run role c).Deaf)
    (bound : Nat) (reply : Reply Callback) : Deaf (Reply.settle run finish bound reply) := by
  induction bound generalizing reply with
  | zero =>
      cases reply with
      | answered result => exact .pure result
      | entered role c => exact .exhausted
  | succ bound ih =>
      cases reply with
      | answered result => exact .pure result
      | entered role c =>
          exact .bind (deaf role c) fun outcome => .bind (deaf_finish outcome) fun reply => ih reply

theorem deaf_crowd (byName : Bool) (key : Name) (count : Nat) (factory : PoolFactory) :
    (crowd byName key count factory).Deaf :=
  .get_set_bind (fun _ => rfl) (fun _ => rfl) fun _ => (deaf_hear _).bind fun _ => .pure _

theorem deaf_readSettings (source : SettingsSource) : (readSettings source).Deaf := by
  apply Deaf.get_bind
  · exact fun _ => rfl
  · intro w
    dsimp only
    split
    · exact .pure _
    · exact .bind (deaf_raise _) fun _ => .pure _

end Play

/-- An action that makes no request to a log. -/
def Action.Unlogged : Action → Prop
  | log _ | router _ | demonstrate _ => False
  | _ => True

namespace Play

/-- Whatever is done with a registry and its parts, the log is not heard. -/
theorem deaf_act {settle : Reply Callback → Play (Except Fault Answer)}
    (deaf : ∀ reply, (settle reply).Deaf) {action : Action} (unlogged : action.Unlogged) :
    (act settle action).Deaf := by
  -- A call goes to the session, its callbacks are run, and its answer is passed on.
  have called : ∀ (next : World → Logged (Session Callback × Reply Callback))
      (onward : Except Fault Answer → Play (Except Fault Value)),
      (∀ w, next w.unheard = next w) → (∀ result, (onward result).Deaf) →
      Deaf (do onward (← settle (← move (next (← get))))) := by
    intro next onward apart deafOnward
    have calls : Deaf (get >>= fun w => move (next w)) :=
      .get_bind (fun w => by rw [apart w]) fun w => deaf_move (next w)
    have settled := calls.bind fun reply => (deaf reply).bind deafOnward
    rwa [bind_assoc] at settled
  cases action with
  | call c => exact called (fun w => w.session.call c) _ (fun _ => rfl) fun _ => .pure _
  | facade c | facadeAs typeName c =>
      exact called (fun w => w.session.facade c) _ (fun _ => rfl) fun _ => .pure _
  | registerFinalized key source typeName =>
      exact (deaf_take source).bind fun handle =>
        called (fun w => w.session.call (.cache (.registerFinalized key _))) _ (fun _ => rfl)
          fun _ => .pure _
  | suppress source =>
      exact (deaf_takeFault source).bind fun fault =>
        called (fun w => w.session.call (.cache (.suppress fault))) _ (fun _ => rfl)
          fun _ => .pure _
  | cast source typeName => exact (deaf_take source).bind fun _ => .pure _
  | same first second =>
      exact (deaf_take first).bind fun _ => (deaf_take second).bind fun _ => .pure _
  | keep source => exact (deaf_take source).bind fun _ => .pure _
  | crowd byName key count factory => exact deaf_crowd byName key count factory
  | observe => exact .get_bind (fun _ => rfl) fun _ => .pure _
  | report status remark =>
      cases granted : status.isSuccess with
      | true =>
          simp only [act, granted]
          exact .pure _
      | false =>
          simp only [act, granted]
          exact (deaf_hear _).bind fun _ => .pure _
  | describe source =>
      exact (deaf_takeFault source).bind fun fault => .get_bind (fun _ => rfl) fun _ => .pure _
  | throws source =>
      apply Deaf.bind (deaf_takeFault source)
      intro fault
      cases fault <;> exact .pure _
  | readSettings source => exact deaf_readSettings source
  | levelOf word => exact .pure _
  | demonstrate | log | router => exact absurd unlogged id

end Play

theorem Play.deaf_enter (target : Target) : (Scenario.enter target).Deaf := by
  cases target with
  | nothing => exact .pure ()
  | parts allowOverriding => exact .modify fun _ => rfl
  | registry settings => exact .get_set_bind (fun _ => rfl) (fun _ => rfl) fun _ => deaf_hear _

/-! ## User code -/

/-- User code, while callbacks are run by `run`: it makes registries, it uses them and their parts,
and it computes with all that it can see but the log.  How it goes on may depend on what has come of
all this. -/
inductive UserCode (run : Role → Callback → Play Outcome) : {α : Type} → Play α → Prop where
  | own {α : Type} {f : World → α × World}
      (apart : ∀ w, f w.unheard = ((f w).1, (f w).2.unheard)) : UserCode run (modifyGet f)
  | enter (target : Target) : UserCode run (Scenario.enter target)
  | act (bound : Nat) {action : Action} (unlogged : action.Unlogged) :
      UserCode run (Play.act (Reply.settle run Play.finish bound) action)
  | bind {α β : Type} {p : Play α} {f : α → Play β} (first : UserCode run p)
      (onward : ∀ a, UserCode run (f a)) : UserCode run (p >>= f)

/-- Callbacks that are user code, and whose callbacks are user code, to a bounded depth. -/
inductive Callbacks : (Role → Callback → Play Outcome) → Prop where
  | tooDeep : Callbacks fun _ _ => Program.exhausted
  | nested {run outer : Role → Callback → Play Outcome} (inner : Callbacks run)
      (code : ∀ role c, UserCode run (outer role c)) : Callbacks outer

theorem UserCode.deaf {run : Role → Callback → Play Outcome} (deaf : ∀ role c, (run role c).Deaf)
    {α : Type} {p : Play α} (code : UserCode run p) : p.Deaf := by
  induction code with
  | own apart => exact .modifyGet apart
  | enter target => exact Play.deaf_enter target
  | act bound unlogged => exact Play.deaf_act (Play.deaf_settle deaf bound) unlogged
  | bind _ _ first onward => exact first.bind onward

theorem Callbacks.deaf {run : Role → Callback → Play Outcome} (callbacks : Callbacks run)
    (role : Role) (c : Callback) : (run role c).Deaf := by
  induction callbacks generalizing role c with
  | tooDeep => exact .exhausted
  | nested _ code ih => exact (code role c).deaf ih

/-- Whatever user code does with registries and their parts, and whatever its callbacks do, two runs
of it that begin with different logs end alike: they come to the same result, or both do not come to
an end; and the worlds at their ends, with the registry, the faults and what is attached to them,
and all that the code has taken note of, are the same up to the log.  Also what has been shown in
the two runs, of callbacks entered and steps ended, is the same up to the records that have reached
a sink. -/
theorem same_whatever_log {run : Role → Callback → Play Outcome} (callbacks : Callbacks run)
    {α : Type} {p : Play α} (code : UserCode run p) (w : World) (hub hub' : Hub) :
    (∀ a t, p.run { w with hub } = some (a, t) →
      ∃ t', p.run { w with hub := hub' } = some (a, t') ∧
        t' = { t with hub := t'.hub, events := t'.events } ∧
        t'.events.filter (fun event => !event.isHeard) =
          t.events.filter fun event => !event.isHeard) ∧
      (p.run { w with hub } = none ↔ p.run { w with hub := hub' } = none) := by
  have deaf := code.deaf callbacks.deaf
  have alike : (p.run { w with hub := hub' }).map (fun result => (result.1, result.2.unheard)) =
      (p.run { w with hub }).map fun result => (result.1, result.2.unheard) :=
    (deaf { w with hub := hub' }).symm.trans (deaf { w with hub })
  constructor
  · intro a t ended
    rw [ended, Option.map_some] at alike
    obtain ⟨⟨a', t'⟩, ended', same⟩ := Option.map_eq_some_iff.mp alike
    obtain ⟨rfl, same⟩ := Prod.mk.inj same
    exact ⟨t', ended', World.eq_of_unheard_eq same, congrArg World.events same⟩
  · rw [← Option.map_eq_none_iff, ← alike, Option.map_eq_none_iff]

/-! ## Scripts -/

namespace UserCode

variable {run : Role → Callback → Play Outcome}

theorem pure {α : Type} (a : α) : UserCode run (pure a : Play α) :=
  own (f := fun w => (a, w)) fun _ => rfl

theorem modify {f : World → World} (apart : ∀ w, f w.unheard = (f w).unheard) :
    UserCode run (modify f) :=
  own fun w => congrArg _ (apart w)

theorem step (bound : Nat) {s : Step} (unlogged : s.action.Unlogged) :
    UserCode run (Play.step (Reply.settle run Play.finish bound) s) := by
  apply bind (act bound unlogged)
  intro result
  apply bind
  · apply modify
    intro w
    dsimp only
    rw [World.unheard_tell _ rfl, World.unheard_flush]
    rfl
  · intro _
    cases result with
    | error fault =>
        dsimp only
        split
        · exact bind (modify fun _ => rfl) fun _ => pure _
        · exact (pure _).bind fun _ => pure _
    | ok value =>
        dsimp only
        split
        · exact bind (modify fun _ => rfl) fun _ => pure _
        · exact pure none

theorem steps (bound : Nat) (count : Nat) {row : List Step}
    (unlogged : ∀ s ∈ row, s.action.Unlogged) :
    UserCode run (Play.steps (Reply.settle run Play.finish bound) count row) := by
  induction row with
  | nil => exact pure _
  | cons s rest ih =>
      have rest := ih fun s member => unlogged s (List.mem_cons_of_mem _ member)
      rw [Play.steps]
      split
      · apply bind (step bound (unlogged s List.mem_cons_self))
        intro result
        cases result with
        | none => exact rest
        | some fault => exact pure _
      · exact rest

theorem take (source : Source) : UserCode run (Play.take source) :=
  own fun w => w.take_unheard source

theorem takeFault (source : Option FaultSource) : UserCode run (Play.takeFault source) :=
  own fun _ => rfl

theorem ending (body : Body) (role : Role) (typeName : Option String) (count : Nat) :
    UserCode run (Play.ending body role typeName count) := by
  rw [Play.ending]
  dsimp only
  split
  · apply bind (takeFault body.throws)
    intro fault
    split
    · exact pure _
    · exact pure _
    · exact (take body.result).bind fun _ => pure _
  · apply bind (pure none)
    intro fault
    split
    · exact pure _
    · exact pure _
    · exact (take body.result).bind fun _ => pure _

end UserCode

/-- A script whose steps make no request to a log, and whose callbacks make none either. -/
structure Scenario.Unlogged (s : Scenario) : Prop where
  opening : ∀ step ∈ s.opening, step.action.Unlogged
  steps : ∀ step ∈ s.steps, step.action.Unlogged
  bodies (body : Nat) : ∀ step ∈ (s.bodies.getD body {}).steps, step.action.Unlogged

/-- The callbacks of a script are user code, whatever the bound on their depth. -/
theorem Scenario.Unlogged.callbacks {s : Scenario} (unlogged : s.Unlogged) (bound : Nat) :
    Callbacks (Play.callback s.bodies bound) := by
  induction bound with
  | zero =>
      have none : Play.callback s.bodies 0 = fun _ _ => Program.exhausted := by
        funext role c
        rw [Play.callback]
      exact none ▸ .tooDeep
  | succ bound ih =>
      apply Callbacks.nested ih
      intro role c
      rw [Play.callback]
      apply UserCode.bind (UserCode.own fun _ => rfl)
      intro count
      apply UserCode.bind
      · apply UserCode.modify
        intro w
        simp [World.unheard, World.tell, Event.isHeard]
      intro _
      apply UserCode.bind (UserCode.steps bound count (unlogged.bodies c.body))
      intro fault
      dsimp only
      split
      · exact .bind (.pure _) fun _ => .bind (.modify fun _ => rfl) fun _ => .pure _
      · exact .bind (.ending _ role c.typeName count) fun _ =>
          .bind (.modify fun _ => rfl) fun _ => .pure _

namespace Scenario

/-- A script from its first step to the end of its registry's life. -/
def life (s : Scenario) (bound : Nat) : Play Unit := do
  s.run (Play.settle s.bodies bound)
  leave (Play.settle s.bodies bound) s.target

section

variable {run : Role → Callback → Play Outcome}

theorem code_perform (bound : Nat) (watched : Bool) {row : List Step}
    (unlogged : ∀ s ∈ row, s.action.Unlogged) :
    UserCode run (perform (Reply.settle run Play.finish bound) watched row) := by
  induction row with
  | nil => exact .pure ()
  | cons s rest ih =>
      have rest := ih fun s member => unlogged s (List.mem_cons_of_mem _ member)
      rw [perform]
      apply UserCode.bind (UserCode.step bound (unlogged s List.mem_cons_self))
      intro _
      dsimp only
      split
      · exact .bind (.modify fun w => (World.unheard_tell w rfl).symm) fun _ => rest
      · exact rest

/-- The end of a registry's life is one more call on the registry. -/
theorem code_leave (bound : Nat) (target : Target) :
    UserCode run (leave (Reply.settle run Play.finish bound) target) := by
  cases target with
  | nothing | parts => exact .pure ()
  | registry settings =>
      have closes : UserCode run
          (Play.act (Reply.settle run Play.finish bound) (.call (.teardown .close))) :=
        .act bound trivial
      have ends := closes.bind fun _ => UserCode.pure ()
      simp only [Play.act, bind_assoc, pure_bind] at ends
      exact ends

end

/-- A script is user code. -/
theorem Unlogged.code {s : Scenario} (unlogged : s.Unlogged) (bound : Nat) :
    UserCode (Play.callback s.bodies bound) (s.life bound) := by
  have enters : UserCode (Play.callback s.bodies bound) (do
      enter s.target
      perform (Play.settle s.bodies bound) s.watched.isSome s.steps) :=
    (UserCode.enter s.target).bind fun _ => code_perform bound s.watched.isSome unlogged.steps
  have runs : UserCode (Play.callback s.bodies bound) (s.run (Play.settle s.bodies bound)) := by
    rw [run]
    dsimp only
    split
    · rename_i opening opens
      have unlogged := unlogged.opening opening (by simp [opens])
      exact (UserCode.step bound unlogged).bind fun _ => enters
    · exact (UserCode.pure ()).bind fun _ => enters
  exact runs.bind fun _ => code_leave bound s.target

end Scenario

/-- A factory requests its own key, and fails with the refusal; a disposal throws.  With no log and
with one that lets everything through, the registry comes to the same state, and the same is shown;
with the log, records reach the console in between. -/
theorem failing_callbacks_under_two_logs :
    let s : Scenario := {
      target := .registry {}
      bodies := #[{ label := "F", steps := [
          { title := "again", action := .facade (.getOrCreate "a" (some { body := 0 })) }] },
        { label := "D", throws := some (.raise (.runtime "boom")) }]
      steps := [
        { title := "request", action := .facade (.getOrCreate "a" (some { body := 0 })) },
        { title := "dispose", action := .facade (.registerDisposal "a" (some { body := 1 })) }] }
    let loud := (Hub.start {} .null).setLevel globalTag .trace
    ∃ t t', (s.life 3).run {} = some ((), t) ∧
      (s.life 3).run { hub := loud } = some ((), t') ∧
      t.events.countP Event.isHeard = 0 ∧ t'.events.countP Event.isHeard = 7 ∧
      t' = { t with hub := t'.hub, events := t'.events } ∧
      t'.events.filter (fun event => !event.isHeard) =
        t.events.filter fun event => !event.isHeard := by
  intro s loud
  have unlogged : s.Unlogged := by
    constructor
    · simp [s]
    · simp [s, Action.Unlogged]
    · intro body
      match body with
      | 0 | 1 | _ + 2 => simp [s, Action.Unlogged]
  have silent : ((s.life 3).run {}).map (fun r => r.2.events.countP Event.isHeard) = some 0 := by
    decide +kernel
  have spoken : ((s.life 3).run { hub := loud }).map (fun r => r.2.events.countP Event.isHeard) =
      some 7 := by
    decide +kernel
  obtain ⟨⟨⟨⟩, t⟩, ended, none⟩ := Option.map_eq_some_iff.mp silent
  have alike := same_whatever_log (unlogged.callbacks 3) (unlogged.code 3) {} {} loud
  obtain ⟨t', ended', same, shown⟩ := alike.1 () t ended
  rw [ended', Option.map_some, Option.some.injEq] at spoken
  exact ⟨t, t', ended, ended', none, spoken, same, shown⟩

end Script

end Lifecycle
