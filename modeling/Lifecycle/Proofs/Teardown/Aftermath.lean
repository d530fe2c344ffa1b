import Lifecycle.Proofs.Teardown.Closedown

/-!
# After the destruction of a whole registry

A destroyed registry creates nothing any more, but it is not sealed.  An instance can still be
registered, and a creation that was going on when the destruction began still comes to its end; both
put an instance into the emptied cache (`Session.Finalizes`), and a request for it is then answered
and not refused.  These are the only ways: a key for which neither happens is refused for good
(`Session.refused_until_finalized`).
-/

namespace Lifecycle

open Log

variable {κ : Type}

namespace Session

/-- A call fails with a new fault, and does nothing else. -/
def Refuses (s : Session κ) (c : FacadeCall κ) (cause : Cause) : Prop :=
  ∃ fault ledger, fault.cause = cause ∧
    (s.facade c).value = (⟨{ s.registry with ledger }, s.stack⟩, .answered (.error fault))

/-- A move that makes an instance the finalized one of a key that has none: the instance is
registered, or it is what the factory of a creation of the key comes back with. -/
def Finalizes (s : Session κ) (key : Name) (object : Instance) : Move κ → Prop
  | .call (.cache (.registerFinalized other handle)) =>
      other = key ∧ key ≠ "" ∧ handle = some object
  | .finish outcome =>
      outcome = .returned (some object) ∧
        (∃ outermost rest, s.stack = .creating key outermost :: rest) ∧
        ∃ tracker, (s.registry.cache.tracker.finish key).value = .ok tracker
  | _ => False

end Session

/-! ## How an absent key is finalized -/

namespace Cache

variable {c c' : Cache κ} {key : Name}

theorem Torn.get_eq_none (torn : c.Torn c') (absent : c.get key = none) : c'.get key = none := by
  induction torn with
  | refl => exact absent
  | evict _ other ih =>
      rw [get_evict]
      split
      · rfl
      · exact ih
  | clear => exact NameMap.find?_empty key
  | shut _ ih => exact ih

/-- The end of a creation finalizes no key but its own, and its own only with what its factory
made. -/
theorem Closing.get_of_absent {object : Instance} {other : Name} {outcome : Outcome}
    {result : Except Fault Instance} (closing : c.Closing other outcome result c')
    (absent : c.get key = none) (finalized : c'.get key = some object) :
    key = other ∧ outcome = .returned (some object) ∧
      ∃ tracker, (c.tracker.finish other).value = .ok tracker := by
  have changed : c'.finalized ≠ c.finalized := by
    intro same
    rw [get, same] at finalized
    exact absurd (absent.symm.trans finalized) (by simp)
  cases closing with
  | @fresh made tracker suppressed finished =>
      have unmade : Cache.get { c with suppressed, tracker } key = none := absent
      rw [get_finalize] at finalized
      split at finalized
      · rename_i same
        subst same
        rw [unmade, Option.getD_none, Option.some.injEq] at finalized
        subst finalized
        exact ⟨rfl, rfl, tracker, finished⟩
      · exact absurd (unmade.symm.trans finalized) (by simp)
  | adopted => exact absurd rfl changed
  | failed => exact absurd (finalized_discardPartial _ _) changed
  | unknown _ left =>
      rcases left with rfl | rfl
      · exact absurd rfl changed
      · exact absurd (finalized_discardPartial _ _) changed

end Cache

namespace Session

variable {s t : Session κ} {move : Move κ} {key : Name} {object : Instance}

theorem finalizes_of_move? (absent : s.registry.cache.get key = none)
    (moved : s.move? move = some t) (finalized : t.registry.cache.get key = some object) :
    s.Finalizes key object move := by
  have unchanged : ∀ {c : Cache κ}, c.get key = none → c.get key = some object →
      s.Finalizes key object move := fun absent finalized =>
    absurd (absent.symm.trans finalized) (by simp)
  revert finalized
  apply of_effect (fun c _ => c.get key = some object → s.Finalizes key object move) moved
  intro c' stack' effect
  cases effect with
  | idle | track | setInDestruction | expose | withhold => exact unchanged absent
  | take opened =>
      rcases Cache.eq_of_openEarly opened with ⟨_, _, _, _, rfl⟩
      exact unchanged absent
  | start opened =>
      rcases Cache.eq_of_openCreation opened with ⟨_, _, _, _, _, rfl⟩
      exact unchanged absent
  | @register other offered otherNe otherAbsent =>
      intro finalized
      rw [Cache.get_finalize] at finalized
      split at finalized
      · rename_i same
        subst same
        rw [absent, Option.getD_none, Option.some.injEq] at finalized
        subst finalized
        exact ⟨rfl, otherNe, rfl⟩
      · exact unchanged absent finalized
  | announce => exact unchanged (by rw [Cache.get_registerPending, absent])
  | evict => exact unchanged ((Cache.Torn.refl.evict _).get_eq_none absent)
  | suppress =>
      rw [Cache.suppress_eq]
      exact unchanged absent
  | clear => exact unchanged (Cache.Torn.refl.clear.get_eq_none absent)
  | tear _ torn | tearOn _ torn => exact unchanged (torn.get_eq_none absent)
  | close running closing =>
      intro finalized
      rcases closing.get_of_absent absent finalized with ⟨rfl, rfl, tracker, finished⟩
      exact ⟨rfl, ⟨_, _, running⟩, tracker, finished⟩

theorem Finalizes.get_eq_some (finalizes : s.Finalizes key object move)
    (absent : s.registry.cache.get key = none) (moved : s.move? move = some t) :
    t.registry.cache.get key = some object := by
  match move, finalizes with
  | .call (.cache (.registerFinalized _ _)), ⟨rfl, keyNe, rfl⟩ =>
      obtain rfl := Option.some.inj moved
      have registered := s.registry.cache.registerFinalized_of_absent object keyNe absent
      simp [call, Registry.call, Registry.callCache, Registry.answer, registered, absent]
  | .finish _, ⟨rfl, ⟨outermost, _, running⟩, tracker, finished⟩ =>
      obtain rfl := move?_finish_of_creating running moved
      have closing := s.registry.cache.closing_closeCreation s.registry.ledger key outermost
        (.returned (some object))
      rcases closing.of_returned absent finished with ⟨_, suppressed, made⟩
      have unmade : Cache.get { s.registry.cache with suppressed, tracker } key = none := absent
      simp [made, unmade]

theorem Finalizes.isSome_move? (finalizes : s.Finalizes key object move) :
    (s.move? move).isSome := by
  match move, finalizes with
  | .call _, _ => rfl
  | .finish _, ⟨_, ⟨_, _, running⟩, _⟩ =>
      rw [move?_finish_isSome_iff, running]
      exact List.cons_ne_nil _ _

/-- An absent key stays absent all along a row of moves exactly if none of them finalizes it. -/
theorem absent_throughout_iff (absent : s.registry.cache.get key = none) (moves : List (Move κ)) :
    (∀ first, first <+: moves → ∀ u, s.moves? first = some u → u.registry.cache.get key = none) ↔
      s.Along (fun u move => ∀ object, ¬ u.Finalizes key object move) moves := by
  apply throughout_iff_along _ _ absent
  · intro u move v absent moved
    constructor
    · intro still object finalizes
      exact absurd (still.symm.trans (finalizes.get_eq_some absent moved)) (by simp)
    · intro spares
      rw [Option.eq_none_iff_forall_ne_some]
      intro object finalized
      exact spares object (finalizes_of_move? absent moved finalized)
  · intro u move finalizes
    rcases Classical.not_forall.mp finalizes with ⟨object, finalizes⟩
    exact (Classical.not_not.mp finalizes).isSome_move?

/-! ## Requests to a destroyed registry -/

/-- While a registry is being destroyed, and afterwards, a request for a key with a finalized
instance is answered with it, and one for any other key is refused. -/
theorem facade_getOrCreate_iff (closed : s.registry.cache.inDestruction = true) (name : Name)
    (factory : κ) :
    (s.registry.cache.get (s.registry.aliases.canonical name) = none ↔
      s.Refuses (.getOrCreate name (some factory))
        (.notAllowed (s.registry.aliases.canonical name) Cache.teardownMessage)) ∧
      ∀ object, s.registry.cache.get (s.registry.aliases.canonical name) = some object ↔
        (s.facade (.getOrCreate name (some factory))).value =
          (s, .answered (.ok (.handle (some object)))) := by
  cases found : s.registry.cache.get (s.registry.aliases.canonical name) with
  | some object =>
      have answered : (s.facade (.getOrCreate name (some factory))).value =
          (s, .answered (.ok (.handle (some object)))) := by
        apply call_eq_self
        simp [FacadeCall.lower, Registry.call, Registry.callCache, Cache.openCreation, found,
          Registry.answer]
      constructor
      · simp [Refuses, answered]
      · simp [answered]
  | none =>
      have refused : (s.facade (.getOrCreate name (some factory))).value =
          after s.stack (s.registry.raise
            (.notAllowed (s.registry.aliases.canonical name) Cache.teardownMessage)) := by
        simp [facade, FacadeCall.lower, call, Registry.call, Registry.callCache,
          Cache.openCreation, found, closed]
      constructor
      · simpa using ⟨_, _, rfl, refused⟩
      · simp [refused, after, Registry.raise]

/-- No creation begins in a registry that is being destroyed. -/
theorem creating_of_move? (closed : s.registry.cache.inDestruction = true)
    (moved : s.move? move = some t) {outermost : Bool} (runs : .creating key outermost ∈ t.stack) :
    .creating key outermost ∈ s.stack := by
  have above : ∀ {frames below : List (Frame κ)},
      (∀ frame ∈ frames, ∃ other tasks, frame = .disposing other tasks) →
      .creating key outermost ∈ frames ++ below → .creating key outermost ∈ below := by
    intro frames below disposing member
    rcases List.mem_append.mp member with new | old
    · rcases disposing _ new with ⟨_, _, contrary⟩
      contradiction
    · exact old
  revert runs
  apply of_effect (fun _ stack => .creating key outermost ∈ stack →
    .creating key outermost ∈ s.stack) moved
  intro c' stack' effect
  cases effect with
  | idle | track | register | announce | evict | suppress | setInDestruction | clear => exact id
  | take => simp
  | start opened =>
      rcases Cache.eq_of_openCreation opened with ⟨_, reopened, _⟩
      exact absurd (closed.symm.trans reopened) (by decide)
  | tear _ _ disposing => exact above disposing
  | close running | expose running | withhold running =>
      rw [running]
      exact List.mem_cons_of_mem _
  | tearOn running _ disposing =>
      rw [running]
      exact fun member => List.mem_cons_of_mem _ (above disposing member)

/-- A registry is being destroyed, or has been, and all creations that are going on are among those
of a stack. -/
structure ClosedAbove (below : List (Frame κ)) (s : Session κ) : Prop where
  closed : s.registry.cache.inDestruction = true
  old : ∀ key outermost, .creating key outermost ∈ s.stack → .creating key outermost ∈ below

theorem ClosedAbove.after_move {below : List (Frame κ)} (held : s.ClosedAbove below)
    (never : move.NeverReopens) (moved : s.move? move = some t) : t.ClosedAbove below := by
  constructor
  · exact inDestruction_of_move? held.closed never moved
  · intro key outermost runs
    exact held.old key outermost (creating_of_move? held.closed moved runs)

/-- After the destruction of a whole registry has come back, and through whatever calls of the
facade, the creations that are going on are some of those that were going on before it.  Every
request is answered at once: with the finalized instance of its key, or, exactly if the key has
none, with the refusal that nothing is created any more; only an empty factory is refused for what
it is.  And a key has no instance, all along, exactly if none is registered under it and no creation
of it comes to an instance. -/
theorem refused_until_finalized {during : List (Move κ)}
    (through : (s.facade .destroyAll).value.1.Along
      (fun u move => u.WaitsAbove s.stack ∧ u.ThroughFacade move) during)
    (came : (s.facade .destroyAll).value.1.moves? during = some t) (returned : t.stack = s.stack)
    {moves : List (Move κ)} (facade : t.Along ThroughFacade moves) :
    (∀ u, t.moves? moves = some u →
      (∀ key outermost, .creating key outermost ∈ u.stack → .creating key outermost ∈ s.stack) ∧
      ∀ name, let key := u.registry.aliases.canonical name
        (∀ factory, u.registry.cache.get key = none ↔
          u.Refuses (.getOrCreate name (some factory)) (.notAllowed key Cache.teardownMessage)) ∧
        (∀ factory object, u.registry.cache.get key = some object ↔
          (u.facade (.getOrCreate name (some factory))).value =
            (u, .answered (.ok (.handle (some object))))) ∧
        u.Refuses (.getOrCreate name none)
          (.refused .invalidArgument key "Instance factory must not be empty")) ∧
      ∀ key,
        (∀ first, first <+: moves → ∀ u, t.moves? first = some u →
          u.registry.cache.get key = none) ↔
        t.Along (fun u move => ∀ object, ¬ u.Finalizes key object move) moves := by
  rcases s.facade_destroyAll with ⟨r, tasks, closed, value⟩
  rw [value] at through came
  have closedThen : t.registry.cache.inDestruction = true := by
    apply inDestruction_of_moves? _ (through.imp fun _ _ made => made.2.neverReopens) came
    rw [registry_after]
    exact (r.torn_teardown _ .refl).1.inDestruction closed
  have vacant : t.registry.Vacant := by
    have arrived := comesTo_of_returned (fun _ arrived => arrived.closing.1)
      (endsWith_or_comesTo s.stack r tasks Task.closing)
      (through.imp fun _ _ made => made.1) came returned
    exact arrived.closing.2
  constructor
  · intro u moved
    have reached : u.ClosedAbove s.stack := facade.invariant
      (fun _ _ _ held facade moved => held.after_move facade.neverReopens moved)
      ⟨closedThen, by rw [returned]; exact fun _ _ => id⟩ moved
    rcases reached with ⟨closedNow, old⟩
    constructor
    · exact old
    · intro name
      exact ⟨fun factory => (facade_getOrCreate_iff closedNow name factory).1,
        fun factory => (facade_getOrCreate_iff closedNow name factory).2, _, _, rfl, rfl⟩
  · intro key
    apply absent_throughout_iff
    rw [Cache.get, vacant.finalized]
    exact NameMap.find?_empty key

/-- A creation is going on when a registry with a disposal is destroyed.  Afterwards another key is
registered and the creation comes to its end: both keys are answered, and a third one is refused. -/
theorem third_key_still_refused :
    let s := ((((begin (κ := Unit) "default" true {}).call
      (.teardown (.registerDisposal "d" (some ())))).value.1.call
        (.cache (.getOrCreate "a" (some ())))).value.1)
    let begun := (s.facade .destroyAll).value.1
    let moves : List (Move Unit) :=
      [.call (.cache (.registerFinalized "b" (some ⟨"Service", 1⟩))),
        .finish (.returned (some ⟨"Repository", 2⟩))]
    begun.stack ≠ s.stack ∧
      ∃ t u, begun.moves? [.finish (.returned none)] = some t ∧ t.stack = s.stack ∧
        t.moves? moves = some u ∧
        (u.facade (.getOrCreate "a" (some ()))).value =
          (u, .answered (.ok (.handle (some ⟨"Repository", 2⟩)))) ∧
        (u.facade (.getOrCreate "b" (some ()))).value =
          (u, .answered (.ok (.handle (some ⟨"Service", 1⟩)))) ∧
        u.Refuses (.getOrCreate "c" (some ())) (.notAllowed "c" Cache.teardownMessage) ∧
        ∀ first, first <+: moves → ∀ v, t.moves? first = some v →
          v.registry.cache.get "c" = none := by
  intro s begun moves
  have entered : begun.stack ≠ s.stack := by decide +kernel
  have run : (begun.moves? [.finish (.returned none)]).map stack = some s.stack := by
    decide +kernel
  rcases Option.map_eq_some_iff.mp run with ⟨t, came, returned⟩
  have onward : ((begun.moves? [.finish (.returned none)]).bind fun t => t.moves? moves).map
      (fun u => (["a", "b", "c"].map u.registry.aliases.canonical,
        ["a", "b", "c"].map u.registry.cache.get)) =
      some (["a", "b", "c"], [some ⟨"Repository", 2⟩, some ⟨"Service", 1⟩, none]) := by
    decide +kernel
  rw [came, Option.bind_some] at onward
  rcases Option.map_eq_some_iff.mp onward with ⟨u, moved, facts⟩
  simp only [List.map_cons, List.map_nil, Prod.mk.injEq, List.cons.injEq, and_true] at facts
  rcases facts with ⟨⟨nameA, nameB, nameC⟩, created, registered, absent⟩
  have through : begun.Along (fun u move => u.WaitsAbove s.stack ∧ u.ThroughFacade move)
      [.finish (.returned none)] :=
    ⟨⟨by decide +kernel, trivial⟩, fun _ _ => trivial⟩
  have facade : t.Along ThroughFacade moves :=
    ⟨⟨.registerFinalized "b" _, rfl⟩, fun _ _ => ⟨trivial, fun _ _ => trivial⟩⟩
  have spares : t.Along (fun u move => ∀ object, ¬ u.Finalizes "c" object move) moves := by
    constructor
    · simp [Finalizes]
    · intro v moved
      obtain rfl := Option.some.inj moved
      have running : t.stack =
          (t.call (.cache (.registerFinalized "b" (some ⟨"Service", 1⟩)))).value.1.stack := rfl
      have only : s.stack = [.creating "a" true] := by decide +kernel
      rw [returned, only] at running
      exact ⟨by simp [Finalizes, ← running], fun _ _ => trivial⟩
  obtain ⟨requests, keys⟩ := refused_until_finalized through came returned facade
  rcases requests u moved with ⟨_, requests⟩
  have a := (requests "a").2.1 () ⟨"Repository", 2⟩
  have b := (requests "b").2.1 () ⟨"Service", 1⟩
  have c := (requests "c").1 ()
  rw [nameA] at a
  rw [nameB] at b
  rw [nameC] at c
  exact ⟨entered, t, u, came, returned, moved, a.mp created, b.mp registered, c.mp absent,
    (keys "c").mpr spares⟩

/-- An instance that is registered in a destroyed registry is handed out, and so is one whose
creation was going on when the registry was destroyed inside its factory. -/
theorem destroyed_registry_answers :
    let registers := ((begin (κ := Unit) "default" true {}).facade .destroyAll).value.1
    let creates := ((begin (κ := Unit) "default" true {}).facade
      (.getOrCreate "a" (some ()))).value.1
    registers.registry.destroyed = true ∧
      (∃ u, registers.moves? [.call (.cache (.registerFinalized "a" (some ⟨"Service", 1⟩)))] =
          some u ∧
        (u.facade (.getOrCreate "a" (some ()))).value =
          (u, .answered (.ok (.handle (some ⟨"Service", 1⟩))))) ∧
      (creates.facade .destroyAll).value.1.registry.destroyed = true ∧
      ∃ u, (creates.facade .destroyAll).value.1.moves?
          [.finish (.returned (some ⟨"Service", 1⟩))] = some u ∧ u.stack = [] ∧
        (u.facade (.getOrCreate "a" (some ()))).value =
          (u, .answered (.ok (.handle (some ⟨"Service", 1⟩)))) := by
  intro registers creates
  have registered : (registers.moves?
      [.call (.cache (.registerFinalized "a" (some ⟨"Service", 1⟩)))]).map (fun u =>
        (u.registry.cache.inDestruction,
          u.registry.cache.get (u.registry.aliases.canonical "a"))) =
      some (true, some ⟨"Service", 1⟩) := by
    decide +kernel
  have created : ((creates.facade .destroyAll).value.1.moves?
      [.finish (.returned (some ⟨"Service", 1⟩))]).map (fun u =>
        (u.stack, u.registry.cache.inDestruction,
          u.registry.cache.get (u.registry.aliases.canonical "a"))) =
      some ([], true, some ⟨"Service", 1⟩) := by
    decide +kernel
  rcases Option.map_eq_some_iff.mp registered with ⟨u, moved, facts⟩
  rcases Option.map_eq_some_iff.mp created with ⟨v, moved', facts'⟩
  simp only [Prod.mk.injEq] at facts facts'
  have answered := ((facade_getOrCreate_iff facts.1 "a" ()).2 _).mp facts.2
  have answered' := ((facade_getOrCreate_iff facts'.2.1 "a" ()).2 _).mp facts'.2.2
  exact ⟨by decide +kernel, ⟨u, moved, answered⟩, by decide +kernel, v, moved', facts'.1, answered'⟩

end Session

end Lifecycle
