import Lifecycle.Proofs.Creation.Exposures
import Lifecycle.Registry.Drive

/-!
# Routines

A `Routine` is user code as a registry sees it: it makes calls and goes on by what they answer,
raises faults and attaches faults to one another, uses a memory of its own, and comes to an outcome
in the end.  A statement about all routines is about all factories and disposals that come to an
end by themselves, whatever they do.

Callbacks are run as in every program that uses a session, with a bound on their depth and on their
number for one call.  More room never changes what comes out (`Routine.answerTo_mono`), and whatever
the callbacks do, the calls that wait when a call is made wait again when it has been answered
(`Routine.restores_answerTo`).
-/

namespace Lifecycle

open Log

/-- What user code does from some point on, with a memory of type `μ` and callbacks of type `κ`. -/
inductive Routine (μ κ : Type) where
  | ends (outcome : Outcome)
  | call (c : Call κ) (next : Except Fault Answer → Routine μ κ)
  | raise (cause : Cause) (next : Fault → Routine μ κ)
  | attach (fault : Fault) (others : List Fault) (next : Routine μ κ)
  | consult (next : μ → Routine μ κ)
  | remember (memory : μ) (next : Routine μ κ)

/-- A session, the memory of its users, and what has been done: the moves that were made and the
callbacks that were run, oldest first. -/
structure History (μ κ : Type) where
  session : Session κ
  memory : μ
  moves : List (Move κ) := []
  invoked : List (Role × κ) := []

variable {μ κ : Type}

namespace History

/-- A move leads to another session. -/
def moved (h : History μ κ) (move : Move κ) (session : Session κ) : History μ κ :=
  { h with session, moves := h.moves ++ [move] }

/-- Make a call. -/
def call (c : Call κ) : Program (History μ κ) (Reply κ) := fun h =>
  let called := (h.session.call c).value
  some (called.2, h.moved (.call c) called.1)

/-- Come back from a callback. -/
def finish (outcome : Outcome) : Program (History μ κ) (Reply κ) := fun h =>
  (h.session.finish? outcome).map fun finished =>
    (finished.value.2, h.moved (.finish outcome) finished.value.1)

/-- Begin to run a callback. -/
def invoke (role : Role) (callback : κ) (h : History μ κ) : History μ κ :=
  { h with invoked := h.invoked ++ [(role, callback)] }

end History

namespace Routine

/-- Run a routine.  `settle` runs the callbacks that a call leads to. -/
def run (settle : Reply κ → Program (History μ κ) (Except Fault Answer)) :
    Routine μ κ → Program (History μ κ) Outcome
  | ends outcome => pure outcome
  | call c next => do
      let result ← settle (← History.call c)
      run settle (next result)
  | raise cause next => do
      let h ← get
      let (fault, session) := h.session.raise cause
      set (h.moved (.raise cause) session)
      run settle (next fault)
  | attach fault others next => do
      modify fun h => h.moved (.attach fault others) (h.session.attach fault others)
      run settle next
  | consult next => do
      run settle (next (← get).memory)
  | remember memory next => do
      modify fun h => { h with memory }
      run settle next

/-- Run a callback.  The bound is on the depth of callbacks and on their number for one call. -/
def callback (family : Role → κ → Routine μ κ) : Nat → Role → κ → Program (History μ κ) Outcome
  | 0, _, _ => Program.exhausted
  | bound + 1, role, c => do
      modify (History.invoke role c)
      (family role c).run (Reply.settle (callback family bound) History.finish bound)

/-- Run the callbacks that a call leads to. -/
def settle (family : Role → κ → Routine μ κ) (bound : Nat) :
    Reply κ → Program (History μ κ) (Except Fault Answer) :=
  Reply.settle (callback family bound) History.finish bound

/-- Make a call and run the callbacks that it leads to. -/
def answerTo (family : Role → κ → Routine μ κ) (bound : Nat) (c : Call κ) :
    Program (History μ κ) (Except Fault Answer) := do
  settle family bound (← History.call c)

/-! ## One step of a run -/

section steps

variable {settle : Reply κ → Program (History μ κ) (Except Fault Answer)} {h : History μ κ}

theorem run_call (c : Call κ) (next : Except Fault Answer → Routine μ κ) :
    (Routine.call c next).run settle h =
      (settle (h.session.call c).value.2 (h.moved (.call c) (h.session.call c).value.1)).bind
        fun settled => (next settled.1).run settle settled.2 :=
  rfl

theorem run_raise (cause : Cause) (next : Fault → Routine μ κ) :
    (Routine.raise cause next).run settle h =
      (next (h.session.raise cause).1).run settle
        (h.moved (.raise cause) (h.session.raise cause).2) :=
  rfl

theorem run_attach (fault : Fault) (others : List Fault) (next : Routine μ κ) :
    (Routine.attach fault others next).run settle h =
      next.run settle (h.moved (.attach fault others) (h.session.attach fault others)) :=
  rfl

theorem run_consult (next : μ → Routine μ κ) :
    (Routine.consult next).run settle h = (next h.memory).run settle h :=
  rfl

theorem run_remember (memory : μ) (next : Routine μ κ) :
    (Routine.remember memory next).run settle h = next.run settle { h with memory } :=
  rfl

theorem settle_entered {run : Role → κ → Program (History μ κ) Outcome} {bound : Nat} {role : Role}
    {c : κ} :
    Reply.settle run History.finish (bound + 1) (.entered role c) h =
      (run role c h).bind fun ran => (History.finish ran.1 ran.2).bind fun finished =>
        Reply.settle run History.finish bound finished.1 finished.2 :=
  rfl

theorem callback_succ (family : Role → κ → Routine μ κ) (bound : Nat) (role : Role) (c : κ) :
    callback family (bound + 1) role c h =
      (family role c).run (Routine.settle family bound) (h.invoke role c) :=
  rfl

theorem answerTo_eq (family : Role → κ → Routine μ κ) (bound : Nat) (c : Call κ) :
    answerTo family bound c h =
      Routine.settle family bound (h.session.call c).value.2
        (h.moved (.call c) (h.session.call c).value.1) :=
  rfl

end steps

/-! ## Bounds -/

/-- Whatever one program comes to, another one comes to as well. -/
def Below {σ α : Type} (p q : Program σ α) : Prop := ∀ s x, p s = some x → q s = some x

theorem run_below {settle settle' : Reply κ → Program (History μ κ) (Except Fault Answer)}
    (below : ∀ reply, Below (settle reply) (settle' reply)) (routine : Routine μ κ) :
    Below (routine.run settle) (routine.run settle') := by
  induction routine with
  | ends outcome => exact fun _ _ ran => ran
  | call c next ih =>
      intro h x ran
      rw [run_call] at ran ⊢
      obtain ⟨settled, first, rest⟩ := Option.bind_eq_some_iff.mp ran
      exact Option.bind_eq_some_iff.mpr ⟨settled, below _ _ _ first, ih _ _ _ rest⟩
  | raise cause next ih =>
      intro h x ran
      exact ih _ _ _ ran
  | attach fault others next ih =>
      intro h x ran
      exact ih _ _ ran
  | consult next ih =>
      intro h x ran
      exact ih _ _ _ ran
  | remember memory next ih =>
      intro h x ran
      exact ih _ _ ran

theorem settle_below {run run' : Role → κ → Program (History μ κ) Outcome}
    (below : ∀ role c, Below (run role c) (run' role c)) {bound bound' : Nat}
    (more : bound ≤ bound') (reply : Reply κ) :
    Below (Reply.settle run History.finish bound reply)
      (Reply.settle run' History.finish bound' reply) := by
  induction bound generalizing bound' reply with
  | zero =>
      intro h x settled
      cases reply with
      | answered result =>
          rw [← settled]
          cases bound' <;> rfl
      | entered role c => simp [Reply.settle, Program.exhausted] at settled
  | succ bound ih =>
      intro h x settled
      cases reply with
      | answered result =>
          rw [← settled]
          cases bound' <;> rfl
      | entered role c =>
          obtain ⟨bound', rfl⟩ := Nat.exists_eq_add_of_le' (Nat.le_trans (Nat.le_add_left 1 _) more)
          rw [settle_entered] at settled ⊢
          obtain ⟨ran, first, rest⟩ := Option.bind_eq_some_iff.mp settled
          obtain ⟨finished, second, rest⟩ := Option.bind_eq_some_iff.mp rest
          have later := ih (Nat.le_of_succ_le_succ more) finished.1 _ _ rest
          exact Option.bind_eq_some_iff.mpr
            ⟨ran, below _ _ _ _ first, Option.bind_eq_some_iff.mpr ⟨finished, second, later⟩⟩

theorem callback_below (family : Role → κ → Routine μ κ) {bound bound' : Nat}
    (more : bound ≤ bound') (role : Role) (c : κ) :
    Below (callback family bound role c) (callback family bound' role c) := by
  induction bound generalizing bound' role c with
  | zero =>
      intro h x ran
      simp [callback, Program.exhausted] at ran
  | succ bound ih =>
      intro h x ran
      obtain ⟨bound', rfl⟩ := Nat.exists_eq_add_of_le' (Nat.le_trans (Nat.le_add_left 1 _) more)
      have more' : bound ≤ bound' := Nat.le_of_succ_le_succ more
      rw [callback_succ] at ran ⊢
      exact run_below (settle_below (fun role c => ih more' role c) more') _ _ _ ran

/-- A call that is answered within a bound gets the same answer within any larger one. -/
theorem answerTo_mono (family : Role → κ → Routine μ κ) {bound bound' : Nat} (more : bound ≤ bound')
    {c : Call κ} {h t : History μ κ} {result : Except Fault Answer}
    (answered : answerTo family bound c h = some (result, t)) :
    answerTo family bound' c h = some (result, t) :=
  settle_below (callback_below family more) more _ _ _ answered

end Routine

/-! ## What waits -/

namespace Session

/-- Where a session stands when it has replied to the call above a row of waiting calls. -/
def Waits (below : List (Frame κ)) (s : Session κ) : Reply κ → Prop
  | .answered _ => s.stack = below
  | .entered role _ => ∃ frame, frame.role = role ∧ s.stack = frame :: below

theorem waits_after (below : List (Frame κ)) (p : Registry κ × Progress κ) :
    (after below p).1.Waits below (after below p).2 := by
  rcases p with ⟨r, result | ⟨callback, frame⟩⟩
  · rfl
  · exact ⟨frame, rfl, rfl⟩

theorem waits_call (s : Session κ) (c : Call κ) :
    (s.call c).value.1.Waits s.stack (s.call c).value.2 :=
  waits_after s.stack _

/-- When the innermost callback comes back, the call that has waited for it goes on. -/
theorem finish?_of_stack {s : Session κ} {frame : Frame κ} {below : List (Frame κ)}
    (waiting : s.stack = frame :: below) (outcome : Outcome) :
    s.finish? outcome = some (after below <$> s.registry.resume outcome frame) := by
  rw [finish?, waiting]

/-- What a move may be that is made while a call above a row of waiting calls is under way. -/
def Within (allowed : Call κ → Prop) (below : List (Frame κ)) (s : Session κ) : Move κ → Prop
  | .call c => allowed c
  | .finish _ => s.WaitsAbove below
  | .raise _ | .attach _ _ => True

theorem Within.mono {allowed : Call κ → Prop} {below below' : List (Frame κ)} {s : Session κ}
    {move : Move κ} (shorter : below'.length ≤ below.length) (within : s.Within allowed below move) :
    s.Within allowed below' move := by
  cases move with
  | call c => exact within
  | finish outcome => exact Nat.lt_of_le_of_lt shorter within
  | raise | attach => trivial

end Session

namespace History

/-- One history goes on to another, by calls of one kind and above a row of waiting calls. -/
def Leads (allowed : Call κ → Prop) (below : List (Frame κ)) (h t : History μ κ) : Prop :=
  ∃ made, t.moves = h.moves ++ made ∧ h.session.moves? made = some t.session ∧
    h.session.Along (Session.Within allowed below) made

namespace Leads

variable {allowed : Call κ → Prop} {below below' : List (Frame κ)} {h t u : History μ κ}

theorem refl (h : History μ κ) : h.Leads allowed below h :=
  ⟨[], by simp, rfl, trivial⟩

theorem trans (first : h.Leads allowed below t) (second : t.Leads allowed below u) :
    h.Leads allowed below u := by
  obtain ⟨made, moves, reached, along⟩ := first
  obtain ⟨made', moves', reached', along'⟩ := second
  refine ⟨made ++ made', ?_, ?_, ?_⟩
  · rw [moves', moves, List.append_assoc]
  · rw [Session.moves?_append, reached, Option.bind_some, reached']
  · exact (Session.along_append_iff reached).mpr ⟨along, along'⟩

theorem mono (shorter : below'.length ≤ below.length) (leads : h.Leads allowed below t) :
    h.Leads allowed below' t := by
  obtain ⟨made, moves, reached, along⟩ := leads
  exact ⟨made, moves, reached, along.imp fun s move within => within.mono shorter⟩

theorem move {move : Move κ} {session : Session κ} (moved : h.session.move? move = some session)
    (within : h.session.Within allowed below move) : h.Leads allowed below (h.moved move session) := by
  refine ⟨[move], rfl, ?_, within, fun _ _ => trivial⟩
  rw [Session.moves?_cons, moved]
  rfl

theorem call {c : Call κ} (permitted : allowed c) (h : History μ κ) :
    h.Leads allowed below (h.moved (.call c) (h.session.call c).value.1) :=
  move rfl permitted

theorem raise (cause : Cause) (h : History μ κ) :
    h.Leads allowed below (h.moved (.raise cause) (h.session.raise cause).2) :=
  move rfl trivial

theorem attach (fault : Fault) (others : List Fault) (h : History μ κ) :
    h.Leads allowed below (h.moved (.attach fault others) (h.session.attach fault others)) :=
  move rfl trivial

end Leads

end History

namespace Routine

/-- All calls of a routine are of one kind. -/
def Only (allowed : Call κ → Prop) : Routine μ κ → Prop
  | ends _ => True
  | call c next => allowed c ∧ ∀ result, (next result).Only allowed
  | raise _ next => ∀ fault, (next fault).Only allowed
  | attach _ _ next => next.Only allowed
  | consult next => ∀ memory, (next memory).Only allowed
  | remember _ next => next.Only allowed

/-- Routines of the kinds that are run make calls of one kind only, and these calls lead to such
routines only. -/
structure Confined (family : Role → κ → Routine μ κ) (allowed : Call κ → Prop)
    (kind : Role → Prop) : Prop where
  routines (role : Role) (c : κ) (runs : kind role) : (family role c).Only allowed
  calls (s : Session κ) (c : Call κ) (role : Role) (callback : κ) (permitted : allowed c)
    (entered : (s.call c).value.2 = .entered role callback) : kind role

/-- What a run of the callbacks above a row of waiting calls leads to. -/
def Restores (allowed : Call κ → Prop) (below : List (Frame κ)) (h t : History μ κ) : Prop :=
  h.Leads allowed below t ∧ t.session.stack = below

section leads

variable {family : Role → κ → Routine μ κ} {allowed : Call κ → Prop} {kind : Role → Prop}
  {h t : History μ κ} {reply : Reply κ} {below : List (Frame κ)} {outcome : Outcome}
  {result : Except Fault Answer}

theorem restores_run {settle : Reply κ → Program (History μ κ) (Except Fault Answer)}
    (confined : Confined family allowed kind)
    (settles : ∀ reply below (h t : History μ κ) result, h.session.Waits below reply →
      (∀ role c, reply = .entered role c → kind role) → settle reply h = some (result, t) →
      Restores allowed below h t)
    {routine : Routine μ κ} (only : routine.Only allowed)
    (ran : routine.run settle h = some (outcome, t)) : Restores allowed h.session.stack h t := by
  induction routine generalizing h with
  | ends outcome' =>
      cases ran
      exact ⟨.refl _, rfl⟩
  | call c next ih =>
      obtain ⟨permitted, onward⟩ := only
      rw [run_call] at ran
      obtain ⟨⟨result, u⟩, settled, rest⟩ := Option.bind_eq_some_iff.mp ran
      obtain ⟨leads, restored⟩ := settles _ _ _ u result (Session.waits_call h.session c)
        (fun role c' entered => confined.calls h.session c role c' permitted entered) settled
      obtain ⟨later, restored'⟩ := ih result (onward result) rest
      rw [restored] at later restored'
      exact ⟨((History.Leads.call permitted h).trans leads).trans later, restored'⟩
  | raise cause next ih =>
      rw [run_raise] at ran
      obtain ⟨later, restored⟩ := ih _ (only _) ran
      exact ⟨(History.Leads.raise cause h).trans later, restored⟩
  | attach fault others next ih =>
      rw [run_attach] at ran
      obtain ⟨later, restored⟩ := ih only ran
      exact ⟨(History.Leads.attach fault others h).trans later, restored⟩
  | consult next ih =>
      rw [run_consult] at ran
      exact ih _ (only _) ran
  | remember memory next ih =>
      rw [run_remember] at ran
      have later := ih only ran
      exact later

theorem restores_settle {run : Role → κ → Program (History μ κ) Outcome}
    (runs : ∀ role c (h t : History μ κ) outcome, kind role → run role c h = some (outcome, t) →
      Restores allowed h.session.stack h t)
    {bound : Nat} (waits : h.session.Waits below reply)
    (entered : ∀ role c, reply = .entered role c → kind role)
    (settled : Reply.settle run History.finish bound reply h = some (result, t)) :
    Restores allowed below h t := by
  induction bound generalizing reply h with
  | zero =>
      cases reply with
      | answered result' =>
          cases settled
          exact ⟨.refl _, waits⟩
      | entered role c => simp [Reply.settle, Program.exhausted] at settled
  | succ bound ih =>
      cases reply with
      | answered result' =>
          cases settled
          exact ⟨.refl _, waits⟩
      | entered role c =>
          obtain ⟨frame, rfl, waiting⟩ := waits
          rw [settle_entered] at settled
          obtain ⟨⟨outcome, u⟩, ran, rest⟩ := Option.bind_eq_some_iff.mp settled
          obtain ⟨⟨reply', v⟩, finished, rest⟩ := Option.bind_eq_some_iff.mp rest
          obtain ⟨leads, restored⟩ := runs _ c h u outcome (entered _ c rfl) ran
          rw [waiting] at leads restored
          rw [History.finish, Session.finish?_of_stack restored] at finished
          cases finished
          have waits' := Session.waits_after below (u.session.registry.resume outcome frame).value
          have above : u.session.WaitsAbove below := by
            rw [Session.WaitsAbove, restored]
            exact Nat.lt_succ_self _
          have moved : u.session.move? (.finish outcome) = some
              (Session.after below (u.session.registry.resume outcome frame).value).1 := by
            rw [Session.move?, Session.finish?_of_stack restored]
            rfl
          -- Only a teardown goes on to another callback, which is a disposal like the one before.
          have kind' : ∀ role c', (Session.after below
              (u.session.registry.resume outcome frame).value).2 = .entered role c' →
              kind role := by
            intro role c' replied
            obtain ⟨frame', next, rfl⟩ := Session.entered_of_after replied
            obtain ⟨key, tasks, rfl⟩ := Registry.disposing_of_resume next
            cases frame with
            | disposing => exact entered _ c rfl
            | creating => simp [Registry.resume] at next
            | exposing => cases outcome <;> simp [Registry.resume, Registry.answer] at next
          obtain ⟨later, restored'⟩ := ih waits' kind' rest
          have first : h.Leads allowed below u := leads.mono (Nat.le_succ _)
          exact ⟨(first.trans (.move moved above)).trans later, restored'⟩

theorem restores_callback (confined : Confined family allowed kind) {bound : Nat} {role : Role}
    {c : κ} (runs : kind role) (ran : callback family bound role c h = some (outcome, t)) :
    Restores allowed h.session.stack h t := by
  induction bound generalizing role c h t outcome with
  | zero => simp [callback, Program.exhausted] at ran
  | succ bound ih =>
      rw [callback_succ] at ran
      have restores := restores_run confined
        (fun reply below h t result waits entered settled =>
          restores_settle (fun role c h t outcome runs ran => ih runs ran) waits entered settled)
        (confined.routines role c runs) ran
      exact restores

/-- When a call has been answered, the calls that were waiting wait again. -/
theorem restores_answerTo (confined : Confined family allowed kind) {bound : Nat} {c : Call κ}
    (permitted : allowed c) (answered : answerTo family bound c h = some (result, t)) :
    Restores allowed h.session.stack h t := by
  rw [answerTo_eq] at answered
  obtain ⟨leads, restored⟩ :=
    restores_settle (fun role c h t outcome runs ran => restores_callback confined runs ran)
      (Session.waits_call h.session c)
      (fun role c' entered => confined.calls h.session c role c' permitted entered) answered
  exact ⟨(History.Leads.call permitted h).trans leads, restored⟩

end leads

end Routine

end Lifecycle
