import Lifecycle.Proofs.Session.Effect

/-!
# Keys in creation

The tracker takes note of a creation before its factory runs and strikes it out when the factory
has come back, however that happens.  As long as nobody else writes into the tracker, and nobody
changes which keys are watched while a factory is running, it holds exactly the watched keys whose
factories are running, each of which runs once.
-/

namespace Lifecycle

open Log

variable {κ : Type}

/-! ## Running factories -/

/-- The key whose factory a waiting call has entered. -/
def Frame.created? : Frame κ → Option Name
  | creating key _ => some key
  | _ => none

/-- The keys whose factories are running, the innermost first, once for each factory. -/
def Frame.creations (stack : List (Frame κ)) : List Name := stack.filterMap created?

namespace Frame

theorem mem_creations_iff {stack : List (Frame κ)} {key : Name} :
    key ∈ creations stack ↔ ∃ outermost, .creating key outermost ∈ stack := by
  simp only [creations, List.mem_filterMap]
  constructor
  · rintro ⟨frame, member, created⟩
    cases frame with
    | creating key' outermost =>
        obtain rfl := Option.some.inj created
        exact ⟨outermost, member⟩
    | exposing | disposing => contradiction
  · rintro ⟨outermost, member⟩
    exact ⟨_, member, rfl⟩

@[simp]
theorem creations_creating (key : Name) (outermost : Bool) (stack : List (Frame κ)) :
    creations (.creating key outermost :: stack) = key :: creations stack :=
  rfl

@[simp]
theorem creations_exposing (key : Name) (stack : List (Frame κ)) :
    creations (.exposing key :: stack) = creations stack :=
  rfl

@[simp]
theorem creations_disposing (key : Name) (tasks : List (Task κ)) (stack : List (Frame κ)) :
    creations (.disposing key tasks :: stack) = creations stack :=
  rfl

theorem creations_append_of_disposing {above : List (Frame κ)}
    (disposing : ∀ frame ∈ above, ∃ key rest, frame = .disposing key rest)
    (stack : List (Frame κ)) : creations (above ++ stack) = creations stack := by
  induction above with
  | nil => rfl
  | cons frame above ih =>
      rcases disposing frame List.mem_cons_self with ⟨key, tasks, rfl⟩
      rw [List.cons_append, creations_disposing]
      exact ih fun frame member => disposing frame (List.mem_cons_of_mem _ member)

end Frame

/-! ## The tracker -/

/-- The tracker holds the watched ones among the keys whose factories are running, and a watched key
has one running factory at most. -/
structure Tracker.Follows (t : Tracker) (creations : List Name) : Prop where
  mem_iff (key : Name) : key ∈ t.inCreation ↔ key ∉ t.excluded ∧ key ∈ creations
  count_le (key : Name) (watched : key ∉ t.excluded) : creations.count key ≤ 1

namespace Tracker.Follows

variable {t t' : Tracker} {key : Name} {creations : List Name}

theorem new : Tracker.Follows {} [] where
  mem_iff key := by simp
  count_le key _ := by simp

/-- The factories of a key that is not watched do not count. -/
theorem cons_iff_of_excluded (excluded : key ∈ t.excluded) :
    t.Follows (key :: creations) ↔ t.Follows creations := by
  have ne_of_watched : ∀ k, k ∉ t.excluded → key ≠ k := by
    rintro k watched rfl
    exact watched excluded
  constructor
  · intro follows
    constructor
    · intro k
      rw [follows.mem_iff, List.mem_cons]
      constructor
      · rintro ⟨watched, rfl | running⟩
        · exact absurd excluded watched
        · exact ⟨watched, running⟩
      · rintro ⟨watched, running⟩
        exact ⟨watched, .inr running⟩
    · intro k watched
      have atMost := follows.count_le k watched
      rwa [List.count_cons_of_ne (ne_of_watched k watched)] at atMost
  · intro follows
    constructor
    · intro k
      rw [follows.mem_iff, List.mem_cons]
      constructor
      · rintro ⟨watched, running⟩
        exact ⟨watched, .inr running⟩
      · rintro ⟨watched, rfl | running⟩
        · exact absurd excluded watched
        · exact ⟨watched, running⟩
    · intro k watched
      rw [List.count_cons_of_ne (ne_of_watched k watched)]
      exact follows.count_le k watched

theorem add (follows : t.Follows creations) (watched : key ∉ t.excluded)
    (notRunning : key ∉ creations) :
    Tracker.Follows { t with inCreation := t.inCreation.add key } (key :: creations) where
  mem_iff k := by
    simp only [NameSet.mem_add, follows.mem_iff, List.mem_cons]
    constructor
    · rintro (rfl | ⟨watched, running⟩)
      · exact ⟨watched, .inl rfl⟩
      · exact ⟨watched, .inr running⟩
    · rintro ⟨watched, rfl | running⟩
      · exact .inl rfl
      · exact .inr ⟨watched, running⟩
  count_le k watched := by
    by_cases same : key = k
    · subst same
      have once : (key :: creations).count key = 1 := by
        simp [List.count_eq_zero_of_not_mem notRunning]
      exact Nat.le_of_eq once
    · rw [List.count_cons_of_ne same]
      exact follows.count_le k watched

theorem erase (follows : t.Follows (key :: creations)) (notRunning : key ∉ creations) :
    Tracker.Follows { t with inCreation := t.inCreation.erase key } creations where
  mem_iff k := by
    simp only [NameMap.mem_erase, follows.mem_iff, List.mem_cons]
    constructor
    · rintro ⟨differ, watched, same | running⟩
      · exact absurd same differ
      · exact ⟨watched, running⟩
    · rintro ⟨watched, running⟩
      have differ : k ≠ key := by
        rintro rfl
        exact notRunning running
      exact ⟨differ, watched, .inr running⟩
  count_le k watched := Nat.le_trans List.count_le_count_cons (follows.count_le k watched)

theorem start (follows : t.Follows creations) (started : t.start key = .ok t') :
    t'.Follows (key :: creations) := by
  unfold Tracker.start at started
  split at started
  · rename_i excluded
    obtain rfl := Except.ok.inj started
    exact (cons_iff_of_excluded excluded).mpr follows
  · rename_i watched
    split at started
    · contradiction
    · rename_i absent
      obtain rfl := Except.ok.inj started
      apply follows.add watched
      intro running
      exact absent ((follows.mem_iff key).mpr ⟨watched, running⟩)

/-- The end of a creation is never refused. -/
theorem finish (follows : t.Follows (key :: creations)) :
    ∃ t', (t.finish key).value = .ok t' ∧ t'.Follows creations := by
  by_cases excluded : key ∈ t.excluded
  · have finished : (t.finish key).value = .ok t := by simp [Tracker.finish, excluded]
    exact ⟨t, finished, (cons_iff_of_excluded excluded).mp follows⟩
  · have present : key ∈ t.inCreation := (follows.mem_iff key).mpr ⟨excluded, List.mem_cons_self⟩
    have finished : (t.finish key).value = .ok { t with inCreation := t.inCreation.erase key } := by
      simp [Tracker.finish, excluded, present]
    have notRunning : key ∉ creations := by
      have once := follows.count_le key excluded
      rw [List.count_cons_self] at once
      intro running
      exact absurd once (Nat.not_le_of_lt (Nat.succ_lt_succ (List.count_pos_iff.mpr running)))
    exact ⟨_, finished, follows.erase notRunning⟩

/-- While no factory is running, any key may be watched or not. -/
theorem watch_of_idle (follows : t.Follows []) (key : Name) (watched : Bool) :
    (t.watch key watched).Follows [] where
  mem_iff k := by simpa [Tracker.watch] using follows.mem_iff k
  count_le k _ := by simp

end Tracker.Follows

/-! ## Runs -/

namespace Session

/-- A move that leaves the tracker to the requests: it neither begins nor ends a creation in the
tracker itself, it does not clear the tracker, and it changes which keys are watched at most while
no factory is running. -/
def Undriven (s : Session κ) : Move κ → Prop
  | .call (.tracker (.start _)) | .call (.tracker (.finish _)) | .call (.tracker .clear) => False
  | .call (.tracker (.watch key watched)) =>
      s.registry.cache.tracker.watch key watched = s.registry.cache.tracker ∨
        Frame.creations s.stack = []
  | _ => True

theorem follows_of_move? {s t : Session κ} {move : Move κ}
    (follows : s.registry.cache.tracker.Follows (Frame.creations s.stack))
    (undriven : s.Undriven move) (moved : s.move? move = some t) :
    t.registry.cache.tracker.Follows (Frame.creations t.stack) := by
  apply of_effect (fun c stack => c.tracker.Follows (Frame.creations stack)) moved
  intro c' stack' effect
  cases effect with
  | idle | evict | setInDestruction | clear => exact follows
  | @track call tracker answer granted =>
      cases call with
      | start | finish | clear => exact absurd undriven id
      | watch key watched =>
          rcases Prod.mk.inj (Except.ok.inj granted) with ⟨rfl, _⟩
          rcases undriven with same | idle
          · rw [same]
            exact follows
          · rw [idle] at follows ⊢
            exact follows.watch_of_idle key watched
      | isCurrent | isActual | isExcluded =>
          rcases Prod.mk.inj (Except.ok.inj granted) with ⟨rfl, _⟩
          exact follows
  | take opened =>
      rcases Cache.eq_of_openEarly opened with ⟨_, _, _, _, rfl⟩
      exact follows
  | start opened =>
      rcases Cache.eq_of_openCreation opened with ⟨_, _, _, tracker, started, rfl⟩
      exact follows.start started
  | register => simpa using follows
  | announce => simpa using follows
  | suppress =>
      rw [Cache.suppress_eq]
      exact follows
  | tear _ torn disposing =>
      rw [Frame.creations_append_of_disposing disposing, torn.tracker_eq]
      exact follows
  | close running closing =>
      rw [running] at follows
      rcases follows.finish with ⟨tracker, finished, follows⟩
      rw [closing.tracker_eq finished]
      exact follows
  | expose running | withhold running _ =>
      rw [running, Frame.creations_exposing] at follows
      exact follows
  | tearOn running torn disposing =>
      rw [running, Frame.creations_disposing] at follows
      rw [Frame.creations_append_of_disposing disposing, torn.tracker_eq]
      exact follows

/-- After any calls and any returns of factories, pending factories and disposals, however they
nest, the tracker holds exactly the watched keys whose factories are running; each of them runs
once; the end of a creation is not refused, so that a request fails for no other reason than its
factory; and nothing is in creation when no factory is running. -/
theorem inCreation_iff_running {t : Session κ} {moves : List (Move κ)} {name : Name}
    {allowOverriding : Bool} {ledger : Ledger}
    (undriven : (begin name allowOverriding ledger).Along Undriven moves)
    (moved : (begin name allowOverriding ledger).moves? moves = some t) :
    let tracker := t.registry.cache.tracker
    (∀ key, key ∈ tracker.inCreation ↔
        key ∉ tracker.excluded ∧ ∃ outermost, .creating key outermost ∈ t.stack) ∧
      (∀ key ∈ tracker.inCreation, (Frame.creations t.stack).count key = 1) ∧
      (∀ key outermost rest, t.stack = .creating key outermost :: rest →
        (∃ tracker', (tracker.finish key).value = .ok tracker') ∧
          ∀ outcome, ∃ u result,
            (t.finish? outcome).map (·.value) = some (u, .answered result) ∧
              ∀ fault, result = .error fault → outcome = .threw fault ∨
                outcome = .returned none ∧ fault.cause = Cache.nullInstance key) ∧
      (Frame.creations t.stack = [] → tracker.inCreation = ∅) := by
  intro tracker
  have follows : tracker.Follows (Frame.creations t.stack) :=
    undriven.invariant (fun _ _ _ held undriven moved => follows_of_move? held undriven moved)
      Tracker.Follows.new moved
  refine ⟨?holds, ?once, ?ends, ?idle⟩
  case holds =>
    intro key
    rw [follows.mem_iff, Frame.mem_creations_iff]
  case once =>
    intro key member
    rcases (follows.mem_iff key).mp member with ⟨watched, running⟩
    have atLeast := List.count_pos_iff.mpr running
    have atMost := follows.count_le key watched
    omega
  case ends =>
    intro key outermost rest running
    rw [running, Frame.creations_creating] at follows
    rcases follows.finish with ⟨tracker', finished, _⟩
    refine ⟨⟨tracker', finished⟩, fun outcome => ⟨_, _, finish?_of_creating running outcome, ?_⟩⟩
    intro fault failed
    have closing :=
      t.registry.cache.closing_closeCreation t.registry.ledger key outermost outcome
    cases result :
        (t.registry.cache.closeCreation t.registry.ledger key outermost outcome).value.1 with
    | error fault' =>
        rw [result] at failed closing
        obtain rfl := Except.error.inj failed
        exact closing.failure_of_finish finished
    | ok object => simp [result, Except.map] at failed
  case idle =>
    intro idle
    apply NameMap.eq_empty_of_forall_not_mem
    intro key member
    have running := ((follows.mem_iff key).mp member).2
    simp [idle] at running

/-- A key that is not watched is created inside its own creation and inside that of a watched key,
and a third creation has failed meanwhile: the watched key is the only one in creation, and its
request will not be refused its end. -/
theorem watched_key_in_creation_among_unwatched :
    ∃ t : Session Unit,
      (begin "default" true {}).moves? [.call (.tracker (.watch "free" false)),
        .call (.cache (.getOrCreate "free" (some ()))), .call (.cache (.getOrCreate "a" (some ()))),
        .call (.cache (.getOrCreate "b" (some ()))), .finish (.returned none),
        .call (.cache (.getOrCreate "free" (some ())))] = some t ∧
      t.stack = [.creating "free" false, .creating "a" false, .creating "free" true] ∧
      ∀ key, key ∈ t.registry.cache.tracker.inCreation ↔
        key ∉ t.registry.cache.tracker.excluded ∧
          ∃ outermost, .creating key outermost ∈ t.stack := by
  have run : ((begin (κ := Unit) "default" true {}).moves? [
        .call (.tracker (.watch "free" false)), .call (.cache (.getOrCreate "free" (some ()))),
        .call (.cache (.getOrCreate "a" (some ()))), .call (.cache (.getOrCreate "b" (some ()))),
        .finish (.returned none), .call (.cache (.getOrCreate "free" (some ())))]).map stack =
      some [.creating "free" false, .creating "a" false, .creating "free" true] := by
    decide +kernel
  rcases Option.map_eq_some_iff.mp run with ⟨t, moved, running⟩
  refine ⟨t, moved, running, (inCreation_iff_running ?undriven moved).1⟩
  -- The exclusion is made before any factory runs; the other moves are requests.
  exact ⟨.inr rfl, fun _ _ => ⟨trivial, fun _ _ => ⟨trivial, fun _ _ => ⟨trivial, fun _ _ =>
    ⟨trivial, fun _ _ => ⟨trivial, fun _ _ => trivial⟩⟩⟩⟩⟩⟩

end Session

end Lifecycle
