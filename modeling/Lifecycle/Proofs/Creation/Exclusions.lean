import Lifecycle.Proofs.Creation.InCreation
import Lifecycle.Proofs.Teardown.Aftermath

/-!
# Exclusions while factories run

The tracker forgets a key when its creation ends, but only if the key is watched at that moment.  A
key that is watched when its creation begins and excluded when it ends stays in the tracker, with no
factory running (`Session.Strands`).  Nothing strikes it out but the end of another creation of the
key, and that creation can begin only while the key is excluded; once the key is watched again,
every request for it is refused.  This is the only way in which a key stays behind
(`Session.isActual_iff_stranded`).
-/

namespace Lifecycle

open Log

variable {κ : Type}

/-! ## The tracker -/

namespace Tracker

variable {t : Tracker} {key : Name}

theorem isActual_iff : t.isActual key = true ↔ key ∈ t.inCreation :=
  NameMap.contains_iff_mem

theorem isCurrent_iff : t.isCurrent key = true ↔ key ∉ t.excluded ∧ key ∈ t.inCreation := by
  simp [isCurrent, ← NameMap.contains_iff_mem]

theorem start_of_isCurrent (current : t.isCurrent key = true) :
    t.start key = .error (.inCreation key) := by
  obtain ⟨watched, member⟩ := isCurrent_iff.mp current
  simp [start, watched, member]

theorem exists_start_of_not_isCurrent (free : t.isCurrent key = false) :
    ∃ t', t.start key = .ok t' := by
  by_cases excluded : key ∈ t.excluded
  · exact ⟨t, by simp [start, excluded]⟩
  · have absent : key ∉ t.inCreation := by
      intro member
      have current := isCurrent_iff.mpr ⟨excluded, member⟩
      exact absurd (free.symm.trans current) Bool.false_ne_true
    exact ⟨{ t with inCreation := t.inCreation.add key }, by simp [start, excluded, absent]⟩

end Tracker

theorem Cache.Closing.mem_inCreation_iff {c c' : Cache κ} {key : Name} {outcome : Outcome}
    {result : Except Fault Instance} (closing : c.Closing key outcome result c') {k : Name} :
    k ∈ c'.tracker.inCreation ↔
      k ∈ c.tracker.inCreation ∧ (k = key → key ∈ c.tracker.excluded) := by
  cases finished : (c.tracker.finish key).value with
  | ok tracker =>
      rw [closing.tracker_eq finished]
      exact Tracker.mem_finish_iff finished
  | error cause =>
      have absent := Tracker.not_mem_of_finish finished
      have kept : c'.tracker = c.tracker := by
        cases closing with
        | fresh finished' | adopted finished' | failed finished' =>
            exact absurd (finished.symm.trans finished') (by simp)
        | unknown _ left =>
            rcases left with rfl | rfl
            · rfl
            · rw [tracker_discardPartial]
      rw [kept]
      constructor
      · intro member
        exact ⟨member, fun same => absurd (same ▸ member) absent⟩
      · exact And.left

/-! ## Keys that stay behind -/

namespace Session

/-- The tracker holds a key of which no creation is going on. -/
def Stranded (s : Session κ) (key : Name) : Prop :=
  key ∈ s.registry.cache.tracker.inCreation ∧ key ∉ Frame.creations s.stack

/-- The innermost, and only, creation of a key ends, and its key stays in the tracker because it is
excluded by now. -/
def Strands (s : Session κ) (key : Name) : Move κ → Prop
  | .finish _ =>
      (∃ outermost rest, s.stack = .creating key outermost :: rest ∧
        key ∉ Frame.creations rest) ∧
      key ∈ s.registry.cache.tracker.inCreation ∧ key ∈ s.registry.cache.tracker.excluded
  | _ => False

/-- A creation of a key begins. -/
def Creates (s : Session κ) (key : Name) (move : Move κ) : Prop :=
  ∃ t, s.move? move = some t ∧ Frame.creations t.stack = key :: Frame.creations s.stack

variable {s t : Session κ} {key : Name} {move : Move κ}

theorem creates_iff (moved : s.move? move = some t) :
    s.Creates key move ↔ Frame.creations t.stack = key :: Frame.creations s.stack := by
  simp [Creates, moved]

/-- Of the tracker, the facade asks only, and changes which keys are watched. -/
theorem ThroughFacade.inCreation_eq {call : TrackerCall} {tracker : Tracker} {answer : Answer}
    (facade : s.ThroughFacade (.call (.tracker call)))
    (granted : (call.run s.registry.cache.tracker).value = .ok (tracker, answer)) :
    tracker.inCreation = s.registry.cache.tracker.inCreation := by
  cases call with
  | start | finish | clear =>
      obtain ⟨call, same⟩ := facade
      cases call <;> simp [FacadeCall.lower] at same
  | watch | isCurrent | isActual | isExcluded =>
      rcases Prod.mk.inj (Except.ok.inj granted) with ⟨rfl, _⟩
      rfl

/-- A factory comes back: its key is stranded if the creation strands it, and the other keys are as
stranded as before. -/
theorem stranded_iff_of_closing {made : Name} {outermost : Bool} {rest : List (Frame κ)}
    {outcome : Outcome} (running : s.stack = .creating made outermost :: rest)
    (moved : s.move? (.finish outcome) = some t) :
    t.Stranded key ↔ s.Strands key (.finish outcome) ∨
      s.Stranded key ∧ ¬ s.Creates key (.finish outcome) := by
  have closing :=
    s.registry.cache.closing_closeCreation s.registry.ledger made outermost outcome
  have begins : ¬ s.Creates key (.finish outcome) := by
    rw [creates_iff moved, move?_finish_of_creating running moved, running]
    intro same
    have longer := congrArg List.length same
    simp only [Frame.creations_creating, List.length_cons] at longer
    omega
  rw [move?_finish_of_creating running moved]
  simp only [Stranded, Strands, running, closing.mem_inCreation_iff, begins, not_false_eq_true,
    and_true, Frame.creations_creating, List.mem_cons, not_or, List.cons.injEq,
    Frame.creating.injEq]
  constructor
  · rintro ⟨⟨member, excluded⟩, apart⟩
    by_cases same : key = made
    · exact .inl ⟨⟨outermost, rest, ⟨⟨same.symm, rfl⟩, rfl⟩, apart⟩, member, same ▸ excluded same⟩
    · exact .inr ⟨member, same, apart⟩
  · rintro (⟨⟨_, _, ⟨⟨rfl, _⟩, rfl⟩, apart⟩, member, excluded⟩ | ⟨member, other, apart⟩)
    · exact ⟨⟨member, fun _ => excluded⟩, apart⟩
    · exact ⟨⟨member, fun same => absurd same other⟩, apart⟩

/-- A key is stranded after a move of a user of the whole registry exactly if the move strands it,
or the key was stranded before and no creation of it begins. -/
theorem stranded_iff_of_move? (facade : s.ThroughFacade move) (moved : s.move? move = some t) :
    t.Stranded key ↔ s.Strands key move ∨ s.Stranded key ∧ ¬ s.Creates key move := by
  by_cases closes : ∃ made outermost rest outcome,
      s.stack = .creating made outermost :: rest ∧ move = .finish outcome
  · obtain ⟨made, outermost, rest, outcome, running, rfl⟩ := closes
    exact stranded_iff_of_closing running moved
  · have spares : ¬ s.Strands key move := by
      cases move with
      | call | raise | attach => exact id
      | finish outcome =>
          rintro ⟨⟨outermost, rest, running, _⟩, _⟩
          exact closes ⟨key, outermost, rest, outcome, running, rfl⟩
    rw [creates_iff moved]
    simp only [spares, false_or]
    apply of_effect (fun c stack =>
      key ∈ c.tracker.inCreation ∧ key ∉ Frame.creations stack ↔
        s.Stranded key ∧ ¬ Frame.creations stack = key :: Frame.creations s.stack) moved
    intro c' stack' effect
    -- All moves but the beginning of a creation leave the tracker and the creations alone.
    have kept : c'.tracker.inCreation = s.registry.cache.tracker.inCreation →
        Frame.creations stack' = Frame.creations s.stack →
        (key ∈ c'.tracker.inCreation ∧ key ∉ Frame.creations stack' ↔
          s.Stranded key ∧ ¬ Frame.creations stack' = key :: Frame.creations s.stack) := by
      intro sameTracker sameCreations
      simp [sameTracker, sameCreations, Stranded]
    cases effect with
    | idle | evict | setInDestruction | clear => exact kept rfl rfl
    | track granted => exact kept (facade.inCreation_eq granted) rfl
    | take opened =>
        rcases Cache.eq_of_openEarly opened with ⟨_, _, _, _, rfl⟩
        exact kept rfl rfl
    | @start made _ _ _ opened =>
        rcases Cache.eq_of_openCreation opened with ⟨_, _, _, tracker, started, rfl⟩
        by_cases same : key = made
        · simp [same]
        · simp [Stranded, Tracker.mem_start_iff started, same, Ne.symm same]
    | register => exact kept (by rw [Cache.tracker_finalize]) rfl
    | announce => exact kept (by rw [Cache.tracker_registerPending]) rfl
    | suppress => exact kept (by rw [Cache.suppress_eq]) rfl
    | tear _ torn disposing =>
        exact kept (by rw [torn.tracker_eq]) (Frame.creations_append_of_disposing disposing _)
    | close running => exact absurd ⟨_, _, _, _, running, rfl⟩ closes
    | expose running | withhold running =>
        exact kept rfl (by rw [running, Frame.creations_exposing])
    | tearOn running torn disposing =>
        apply kept (by rw [torn.tracker_eq])
        rw [running, Frame.creations_disposing, Frame.creations_append_of_disposing disposing]

/-! ## Requests -/

/-- Outside of a destruction, a request for an absent key runs its factory unless the key is in
creation and watched; then it is refused. -/
theorem facade_getOrCreate_of_absent {name : Name}
    (absent : s.registry.cache.get (s.registry.aliases.canonical name) = none)
    (lasts : s.registry.cache.inDestruction = false) (factory : κ) :
    let key := s.registry.aliases.canonical name
    (s.registry.cache.tracker.isCurrent key = false ↔
        ∃ u, (s.facade (.getOrCreate name (some factory))).value = (u, .entered .factory factory)) ∧
      (s.registry.cache.tracker.isCurrent key = true ↔
        s.Refuses (.getOrCreate name (some factory)) (.inCreation key)) := by
  intro key
  change s.registry.cache.get key = none at absent
  cases current : s.registry.cache.tracker.isCurrent key with
  | false =>
      obtain ⟨tracker, started⟩ := Tracker.exists_start_of_not_isCurrent current
      have entered : ∃ u, (s.facade (.getOrCreate name (some factory))).value =
          (u, .entered .factory factory) := by
        simp [facade, FacadeCall.lower, call, Registry.call, Registry.callCache,
          Cache.openCreation, key, absent, lasts, started, after, Frame.role]
      have granted : ¬ s.Refuses (.getOrCreate name (some factory)) (.inCreation key) := by
        rintro ⟨fault, ledger, _, refused⟩
        obtain ⟨u, entered⟩ := entered
        simp [entered] at refused
      exact ⟨iff_of_true rfl entered, iff_of_false Bool.false_ne_true granted⟩
  | true =>
      have started := Tracker.start_of_isCurrent current
      have refused : s.Refuses (.getOrCreate name (some factory)) (.inCreation key) := by
        simp [Refuses, facade, FacadeCall.lower, call, Registry.call, Registry.callCache,
          Cache.openCreation, key, absent, lasts, started, after, Registry.raise,
          Ledger.raise]
      have unentered : ¬ ∃ u, (s.facade (.getOrCreate name (some factory))).value =
          (u, .entered .factory factory) := by
        rintro ⟨u, entered⟩
        obtain ⟨fault, ledger, _, refused⟩ := refused
        simp [entered] at refused
      exact ⟨iff_of_false (Ne.symm Bool.false_ne_true) unentered, iff_of_true rfl refused⟩

/-- Whatever users of a whole registry do, and whatever their factories and disposals do, a key of
which no creation is going on is recorded as in creation exactly if a creation of it has ended at a
moment at which the key was recorded and excluded, and none has begun since.  Outside of a
destruction a request for an absent key runs its factory, unless the key is recorded and watched;
then it is refused.  So if no creation has ended in that way, then no key is recorded whenever no
creation is going on, and every such request runs its factory. -/
theorem isActual_iff_stranded {name : Name} {allowOverriding : Bool} {ledger : Ledger}
    {moves : List (Move κ)} {t : Session κ}
    (facade : (begin name allowOverriding ledger).Along ThroughFacade moves)
    (moved : (begin name allowOverriding ledger).moves? moves = some t) :
    let start : Session κ := begin name allowOverriding ledger
    let tracker := t.registry.cache.tracker
    (∀ key, key ∉ Frame.creations t.stack →
      (tracker.isActual key = true ↔ start.EverSince (fun s move => s.Strands key move)
        (fun s move => ¬ s.Creates key move) moves)) ∧
      (∀ called, let key := t.registry.aliases.canonical called
        t.registry.cache.get key = none → t.registry.cache.inDestruction = false → ∀ factory,
          (tracker.isCurrent key = false ↔ ∃ u,
            (t.facade (.getOrCreate called (some factory))).value =
              (u, .entered .factory factory)) ∧
          (tracker.isCurrent key = true ↔
            t.Refuses (.getOrCreate called (some factory)) (.inCreation key))) ∧
      (start.Along (fun s move => ∀ key, ¬ s.Strands key move) moves →
        Frame.creations t.stack = [] →
        (∀ key, tracker.isActual key = false) ∧
        ∀ called, t.registry.cache.get (t.registry.aliases.canonical called) = none →
          t.registry.cache.inDestruction = false → ∀ factory, ∃ u,
            (t.facade (.getOrCreate called (some factory))).value =
              (u, .entered .factory factory)) := by
  intro start tracker
  have stranded : ∀ key, t.Stranded key ↔ start.EverSince (fun s move => s.Strands key move)
      (fun s move => ¬ s.Creates key move) moves := by
    intro key
    have new : ¬ start.Stranded key := fun stranded => NameMap.not_mem_empty key stranded.1
    exact @holds_iff_everSince_of_not κ _ _ _ (fun s => s.Stranded key)
      (fun _ _ _ facade moved => stranded_iff_of_move? facade moved) _ _ _ new facade moved
  refine ⟨?recorded, fun _ absent lasts factory => facade_getOrCreate_of_absent absent lasts factory,
    ?unstranded⟩
  case recorded =>
    intro key apart
    rw [← stranded, Tracker.isActual_iff]
    exact ⟨fun member => ⟨member, apart⟩, And.left⟩
  case unstranded =>
    intro never idle
    have empty : ∀ key, key ∉ tracker.inCreation := by
      intro key member
      have apart : key ∉ Frame.creations t.stack := by simp [idle]
      have spared := never.imp fun _ _ none => none key
      exact spared.not_everSince ((stranded key).mp ⟨member, apart⟩)
    constructor
    · intro key
      rw [Bool.eq_false_iff, Ne, Tracker.isActual_iff]
      exact empty key
    · intro called absent lasts factory
      apply (facade_getOrCreate_of_absent absent lasts factory).1.mp
      rw [Bool.eq_false_iff, Ne, Tracker.isCurrent_iff]
      exact fun current => empty _ current.2

/-- Two keys are created, one inside the other, and each is excluded while its factory runs.  The
inner one is watched again before its factory comes back, the outer one only afterwards: the inner
one can be requested again, and the outer one is refused, with no creation going on. -/
theorem key_watched_again_in_time :
    ∃ t : Session Unit, (begin "default" true {}).moves? [
          .call (.cache (.getOrCreate "outer" (some ()))),
          .call (.cache (.getOrCreate "inner" (some ()))),
          .call (.tracker (.watch "inner" false)), .call (.tracker (.watch "inner" true)),
          .finish (.returned none), .call (.tracker (.watch "outer" false)),
          .finish (.returned none), .call (.tracker (.watch "outer" true))] = some t ∧
      t.stack = [] ∧ t.registry.cache.tracker.isActual "inner" = false ∧
      (∃ u, (t.facade (.getOrCreate "inner" (some ()))).value = (u, .entered .factory ())) ∧
      t.Refuses (.getOrCreate "outer" (some ())) (.inCreation "outer") := by
  let start : Session Unit := begin "default" true {}
  let moves : List (Move Unit) := [.call (.cache (.getOrCreate "outer" (some ()))),
    .call (.cache (.getOrCreate "inner" (some ()))), .call (.tracker (.watch "inner" false)),
    .call (.tracker (.watch "inner" true)), .finish (.returned none),
    .call (.tracker (.watch "outer" false)), .finish (.returned none),
    .call (.tracker (.watch "outer" true))]
  have facade : start.Along ThroughFacade moves := by
    have outer : start.ThroughFacade (.call (.cache (.getOrCreate "outer" (some ())))) := by
      have canonical : start.registry.aliases.canonical "outer" = "outer" := by decide +kernel
      exact ⟨.getOrCreate "outer" (some ()), by rw [FacadeCall.lower, canonical]⟩
    have inner : ∀ s, start.move? (.call (.cache (.getOrCreate "outer" (some ())))) = some s →
        s.ThroughFacade (.call (.cache (.getOrCreate "inner" (some ())))) := by
      intro s moved
      have aliases : s.registry.aliases = start.registry.aliases := by
        rw [← Option.some.inj moved]
        decide +kernel
      have canonical : start.registry.aliases.canonical "inner" = "inner" := by decide +kernel
      exact ⟨.getOrCreate "inner" (some ()), by rw [FacadeCall.lower, aliases, canonical]⟩
    exact ⟨outer, fun s moved => ⟨inner s moved, fun _ _ => ⟨⟨.watch "inner" false, rfl⟩,
      fun _ _ => ⟨⟨.watch "inner" true, rfl⟩, fun _ _ => ⟨trivial, fun _ _ =>
        ⟨⟨.watch "outer" false, rfl⟩, fun _ _ => ⟨trivial, fun _ _ =>
          ⟨⟨.watch "outer" true, rfl⟩, fun _ _ => trivial⟩⟩⟩⟩⟩⟩⟩⟩
  have run : (start.moves? moves).map (fun t => (t.stack, t.registry.cache.inDestruction,
      ["inner", "outer"].map t.registry.aliases.canonical)) =
        some ([], false, ["inner", "outer"]) := by
    decide +kernel
  have keys : (start.moves? moves).map (fun t => ["inner", "outer"].map fun key =>
      (t.registry.cache.get key, t.registry.cache.tracker.isActual key,
        t.registry.cache.tracker.isCurrent key)) =
          some [(none, false, false), (none, true, true)] := by
    decide +kernel
  rcases Option.map_eq_some_iff.mp run with ⟨t, moved, facts⟩
  simp only [moved, Option.map_some, Option.some.injEq, List.map_cons, List.map_nil,
    Prod.mk.injEq, List.cons.injEq, and_true] at facts keys
  obtain ⟨idle, lasts, nameInner, nameOuter⟩ := facts
  obtain ⟨⟨absentInner, actualInner, currentInner⟩, absentOuter, -, currentOuter⟩ := keys
  obtain ⟨-, requests, -⟩ := isActual_iff_stranded facade moved
  have inner := requests "inner"
  have outer := requests "outer"
  rw [nameInner] at inner
  rw [nameOuter] at outer
  exact ⟨t, moved, idle, actualInner, (inner absentInner lasts ()).1.mp currentInner,
    (outer absentOuter lasts ()).2.mp currentOuter⟩

/-- A key is excluded while its factory runs, the factory fails, and the key is watched again: no
creation is going on, the key is recorded as in creation, and a request for it is refused. -/
theorem failed_key_stays_in_creation :
    ∃ t u : Session Unit, ∃ fault, (begin "default" true {}).moves? [
          .call (.cache (.getOrCreate "a" (some ()))), .call (.tracker (.watch "a" false)),
          .finish (.threw ⟨0, .runtime "boom"⟩), .call (.tracker (.watch "a" true))] = some t ∧
      t.stack = [] ∧ t.registry.cache.tracker.isActual "a" = true ∧
      t.registry.cache.get "a" = none ∧ t.registry.cache.inDestruction = false ∧
      (t.facade (.getOrCreate "a" (some ()))).value = (u, .answered (.error fault)) ∧
      fault.cause = .inCreation "a" := by
  have run : ((begin (κ := Unit) "default" true {}).moves? [
          .call (.cache (.getOrCreate "a" (some ()))), .call (.tracker (.watch "a" false)),
          .finish (.threw ⟨0, .runtime "boom"⟩), .call (.tracker (.watch "a" true))]).map
        (fun t => (t.stack, t.registry.cache.tracker.isCurrent "a",
          t.registry.aliases.canonical "a", t.registry.cache.get "a",
          t.registry.cache.inDestruction)) = some ([], true, "a", none, false) := by
    decide +kernel
  rcases Option.map_eq_some_iff.mp run with ⟨t, moved, facts⟩
  simp only [Prod.mk.injEq] at facts
  obtain ⟨idle, current, canonical, absent, lasts⟩ := facts
  have absentA : t.registry.cache.get (t.registry.aliases.canonical "a") = none := by
    rwa [canonical]
  have request := facade_getOrCreate_of_absent absentA lasts ()
  rw [canonical] at request
  obtain ⟨fault, ledger, cause, refused⟩ := request.2.mp current
  exact ⟨t, _, fault, moved, idle, Tracker.isActual_iff.mpr (Tracker.isCurrent_iff.mp current).2,
    absent, lasts, refused, cause⟩

end Session

end Lifecycle
