import Lifecycle.Proofs.Creation.Growth
import Lifecycle.Proofs.Creation.Recording

/-!
# Trees of requests

Factories may request further instances, catch the failures of these requests or pass them on, and
try again; the requests form a tree of any shape.  When the outermost request has been answered, all
that is left of it are the instances whose own factories made them, in the order in which their
creations ended, whatever became of the requests around them
(`Session.requests_leave_what_was_made`).
-/

namespace Lifecycle

open Log

variable {κ : Type}

namespace Session

/-- The key of which the factory is running, if that is the callback that is running. -/
def creating? (s : Session κ) : Option Name := s.stack.head?.bind Frame.created?

/-- Whether a move is one of a factory that requests instances and does nothing else with the
registry. -/
def requests (s : Session κ) : Move κ → Bool
  | .call (.cache (.getOrCreate _ _)) => true
  | .call _ => false
  | .finish _ => s.creating?.isSome
  | .raise _ | .attach _ _ => true

/-- The key whose creation succeeds with a move, and the instance that its factory has made. -/
def made (s : Session κ) : Move κ → List (Name × Instance)
  | .finish (.returned (some object)) => (s.creating?.map fun key => (key, object)).toList
  | _ => []

/-- The key whose creation fails with a move. -/
def failed (s : Session κ) : Move κ → List Name
  | .finish (.returned (some _)) => []
  | .finish _ => s.creating?.toList
  | _ => []

/-- How a session stands to an earlier one when requests have been made since and nothing else: the
factories of these requests run above the calls that waited before. -/
def Since (s : Session κ) (made : List (Name × Instance)) (failed : List Name) (t : Session κ) :
    Prop :=
  ∃ above, t.stack = above ++ s.stack ∧ (∀ frame ∈ above, ∃ key, frame.created? = some key) ∧
    s.registry.cache.Since made failed (Frame.creations above) t.registry.cache

/-- How requests are answered.  One for a finalized key gets its instance, one for a key in creation
is refused, and any other one runs its factory; when the factory comes back, the request is answered
with the instance that it has made, and fails if it has made none. -/
def Answers (s : Session κ) : Move κ → Prop
  | .call (.cache (.getOrCreate key (some factory))) =>
      let reply := (s.call (.cache (.getOrCreate key (some factory)))).value.2
      (∀ object, s.registry.cache.get key = some object →
          reply = .answered (.ok (.handle (some object)))) ∧
        (s.registry.cache.get key = none →
          if key ∈ s.registry.cache.tracker.inCreation then
            ∃ fault, reply = .answered (.error fault) ∧ fault.cause = .inCreation key
          else
            reply = .entered .factory factory)
  | .finish outcome => ∃ t result,
      (s.finish? outcome).map (·.value) = some (t, .answered result) ∧
        ∀ answer, result = .ok answer ↔
          ∃ object, outcome = .returned (some object) ∧ answer = .handle (some object)
  | _ => True

/-- When a creation succeeds that has been requested by others, then its key comes before theirs. -/
def Precedes (keys : List Name) (s : Session κ) : Move κ → Prop
  | .finish (.returned (some _)) => ∀ key requesters, Frame.creations s.stack = key :: requesters →
      ∀ requester ∈ requesters, requester ∈ keys → [key, requester].Sublist keys
  | _ => True

/-- An open registry that watches all keys answers requests so. -/
theorem answers_getOrCreate {s : Session κ} (allowed : s.registry.cache.inDestruction = false)
    (unexcluded : s.registry.cache.tracker.excluded = ∅) (key : Name) (factory : κ) :
    s.Answers (.call (.cache (.getOrCreate key (some factory)))) := by
  have watched : key ∉ s.registry.cache.tracker.excluded := by
    rw [unexcluded]
    exact NameMap.not_mem_empty key
  constructor
  · intro object found
    simp [call, Registry.call, Registry.callCache, Cache.openCreation, found, Registry.answer,
      after]
  · intro absent
    split
    · rename_i running
      have refused : s.registry.cache.tracker.start key = .error (.inCreation key) := by
        simp [Tracker.start, watched, running]
      simp [call, Registry.call, Registry.callCache, Cache.openCreation, absent, allowed, refused,
        Registry.raise, Ledger.raise, after]
    · rename_i idle
      simp [call, Registry.call, Registry.callCache, Cache.openCreation, absent, allowed,
        Tracker.start, watched, idle, after, Frame.role]

namespace Since

variable {s t u : Session κ} {move : Move κ} {moves : List (Move κ)}
  {made : List (Name × Instance)} {failed : List Name} {key : Name} {outcome : Outcome}

theorem refl (quiet : s.registry.cache.Quiet) : s.Since [] [] s :=
  ⟨[], rfl, by simp, .refl quiet⟩

/-- The factory that is running is one of those that have been entered since. -/
theorem innermost (idle : Frame.creations s.stack = []) (since : s.Since made failed u)
    (running : u.creating? = some key) :
    ∃ outermost rest, u.stack = .creating key outermost :: (rest ++ s.stack) ∧
      (∀ frame ∈ rest, ∃ k, frame.created? = some k) ∧
      s.registry.cache.Since made failed (key :: Frame.creations rest) u.registry.cache := by
  rcases since with ⟨above, stack, creating, since⟩
  cases above with
  | nil =>
      rw [creating?, stack, List.nil_append] at running
      cases waiting : s.stack with
      | nil => simp [waiting] at running
      | cons frame below =>
          rw [waiting, List.head?_cons, Option.bind_some] at running
          simp [Frame.creations, waiting, running] at idle
  | cons frame rest =>
      rw [creating?, stack, List.cons_append, List.head?_cons, Option.bind_some] at running
      cases frame with
      | creating key' outermost =>
          obtain rfl := Option.some.inj running
          exact ⟨outermost, rest, stack, (List.forall_mem_cons.mp creating).2, since⟩
      | exposing | disposing => contradiction

/-- How a creation ends. -/
theorem finish (idle : Frame.creations s.stack = []) (since : s.Since made failed u)
    (running : u.creating? = some key) (outcome : Outcome) :
    u.Answers (.finish outcome) ∧ ∀ t, u.move? (.finish outcome) = some t →
      s.Since (made ++ u.made (.finish outcome)) (failed ++ u.failed (.finish outcome)) t := by
  rcases since.innermost idle running with ⟨outermost, rest, stack, creating, since⟩
  have closing := u.registry.cache.closing_closeCreation u.registry.ledger key outermost outcome
  have finished := finish?_of_creating stack outcome
  by_cases yields : ∃ object, outcome = .returned (some object)
  · rcases yields with ⟨object, rfl⟩
    rcases since.succeed closing with ⟨result, onward⟩
    constructor
    · exact ⟨_, _, finished, by simp [result, Except.map, eq_comm]⟩
    · intro t moved
      obtain rfl := move?_finish_of_creating stack moved
      simp only [Session.made, Session.failed, running, List.append_nil]
      exact ⟨rest, rfl, creating, onward⟩
  · have nothing : ∀ object, outcome ≠ .returned (some object) := fun object same =>
      yields ⟨object, same⟩
    rcases since.fail nothing closing with ⟨⟨fault, result⟩, onward⟩
    constructor
    · exact ⟨_, _, finished, by simp [result, Except.map, nothing]⟩
    · intro t moved
      obtain rfl := move?_finish_of_creating stack moved
      have ended : u.made (.finish outcome) = [] ∧ u.failed (.finish outcome) = [key] := by
        rcases outcome with (_ | object) | fault
        · exact ⟨rfl, by simp [Session.failed, running]⟩
        · exact absurd rfl (nothing object)
        · exact ⟨rfl, by simp [Session.failed, running]⟩
      rw [ended.1, ended.2, List.append_nil]
      exact ⟨rest, rfl, creating, onward⟩

theorem answers (idle : Frame.creations s.stack = []) (since : s.Since made failed u)
    (requests : u.requests move) : u.Answers move := by
  cases move with
  | finish outcome =>
      rcases Option.isSome_iff_exists.mp requests with ⟨key, running⟩
      exact (since.finish idle running outcome).1
  | call c =>
      rcases since with ⟨_, _, _, since⟩
      cases c with
      | cache call =>
          cases call with
          | getOrCreate key factory =>
              cases factory with
              | none => trivial
              | some factory =>
                  exact answers_getOrCreate since.inDestruction since.tracker.excluded key factory
          | _ => trivial
      | _ => trivial
  | raise | attach => trivial

/-- A move of a factory that only requests instances carries the account on. -/
theorem of_move? (idle : Frame.creations s.stack = []) (since : s.Since made failed u)
    (requests : u.requests move) (moved : u.move? move = some t) :
    s.Since (made ++ u.made move) (failed ++ u.failed move) t := by
  cases move with
  | finish outcome =>
      rcases Option.isSome_iff_exists.mp requests with ⟨key, running⟩
      exact (since.finish idle running outcome).2 t moved
  | raise | attach =>
      obtain rfl := Option.some.inj moved
      simp only [Session.made, Session.failed, List.append_nil]
      exact since
  | call c =>
      rcases since with ⟨above, stack, creating, since⟩
      simp only [Session.made, Session.failed, List.append_nil]
      apply of_effect (fun d waiting => ∃ above, waiting = above ++ s.stack ∧
        (∀ frame ∈ above, ∃ key, frame.created? = some key) ∧
          s.registry.cache.Since made failed (Frame.creations above) d) moved
      intro d waiting effect
      cases effect with
      | idle => exact ⟨above, stack, creating, since⟩
      | @start key _ outermost _ opened =>
          exact ⟨.creating key outermost :: above, congrArg _ stack,
            List.forall_mem_cons.mpr ⟨⟨key, rfl⟩, creating⟩, since.start opened⟩
      | track | take | register | announce | evict | suppress | setInDestruction | clear | tear =>
          contradiction

theorem of_moves? (idle : Frame.creations s.stack = []) (since : s.Since made failed u)
    (requests : u.Along (fun v move => v.requests move) moves) (moved : u.moves? moves = some t) :
    s.Since (made ++ u.gather Session.made moves) (failed ++ u.gather Session.failed moves) t := by
  induction moves generalizing u made failed with
  | nil =>
      obtain rfl := Option.some.inj moved
      simpa using since
  | cons move rest ih =>
      obtain ⟨v, first, onward⟩ := Option.bind_eq_some_iff.mp moved
      have later := ih (since.of_move? idle requests.1 first) (requests.2 v first) onward
      rw [gather_cons first, gather_cons first, ← List.append_assoc, ← List.append_assoc]
      exact later

/-- A key whose creation succeeds while others wait for it comes before theirs: none of them has
been made yet. -/
theorem precedes (idle : Frame.creations s.stack = []) (since : s.Since made failed u)
    (requests : u.requests move) (later : List Name) :
    u.Precedes ((made ++ u.made move).map Prod.fst ++ later) move := by
  cases move with
  | call | raise | attach => trivial
  | finish outcome =>
      rcases outcome with (_ | object) | fault
      · trivial
      case threw => trivial
      case returned.some =>
        intro key requesters running requester waiting final
        rcases Option.isSome_iff_exists.mp requests with ⟨key', creating⟩
        rcases since.innermost idle creating with ⟨outermost, rest, stack, _, since⟩
        rw [stack, Frame.creations_creating, Frame.creations, List.filterMap_append] at running
        rcases List.cons.inj running with ⟨rfl, below⟩
        have waits : requester ∈ Frame.creations rest := by
          rwa [← below, ← Frame.creations, ← Frame.creations, idle, List.append_nil] at waiting
        have unmade : requester ∉ made.map Prod.fst := by
          have absent := since.absent requester (List.mem_cons_of_mem _ waits)
          rw [← Cache.not_mem_finalized_iff, since.mem_finalized_iff, not_or] at absent
          exact absent.2
        have differ : requester ≠ key' :=
          ne_of_mem_of_not_mem waits (List.nodup_cons.mp since.tracker.distinct).1
        have now : u.made (.finish (.returned (some object))) = [(key', object)] := by
          rw [Session.made, creating]
          rfl
        rw [now, List.map_append, List.map_singleton] at final ⊢
        have after : requester ∈ later := by
          simpa [unmade, differ] using final
        exact (List.sublist_append_right _ [key']).append (List.singleton_sublist.mpr after)

theorem precedes_along (idle : Frame.creations s.stack = []) (since : s.Since made failed u)
    (requests : u.Along (fun v move => v.requests move) moves) (moved : u.moves? moves = some t) :
    u.Along (Precedes ((made ++ u.gather Session.made moves).map Prod.fst)) moves := by
  induction moves generalizing u made failed with
  | nil => trivial
  | cons move rest ih =>
      obtain ⟨v, first, onward⟩ := Option.bind_eq_some_iff.mp moved
      have next := since.of_move? idle requests.1 first
      rw [gather_cons first, ← List.append_assoc]
      constructor
      · rw [List.map_append]
        exact since.precedes idle requests.1 _
      · intro v' first'
        obtain rfl := Option.some.inj (first.symm.trans first')
        exact ih next (requests.2 v first) onward

end Since

/-- When factories do nothing with a registry but request instances, a request for a key that is
neither finalized nor in creation runs its factory, and is answered with what the factory has made,
or fails; and when the outermost requests have been answered, the cache has grown by exactly what
has been made, a key before those that requested it, and is otherwise as it was.  Nothing changes
its place in the list; a name that was listed without being finalized or in creation, which takes
somebody who tells the tracker that a creation has ended, is taken off the list when a creation of
its key fails. -/
theorem requests_leave_what_was_made {s t : Session κ} {before moves : List (Move κ)} {name : Name}
    {allowOverriding : Bool} {ledger : Ledger}
    (reached : (begin name allowOverriding ledger).moves? before = some s)
    (idle : Frame.creations s.stack = []) (quiet : s.registry.cache.Quiet)
    (requests : s.Along (fun u move => u.requests move) moves) (moved : s.moves? moves = some t)
    (ended : Frame.creations t.stack = []) :
    let instances := s.gather made moves
    s.registry.cache.Grown instances (s.gather failed moves) t.registry.cache ∧
      t.stack = s.stack ∧ s.Along Answers moves ∧
      s.Along (Precedes (instances.map Prod.fst)) moves ∧
      ((begin name allowOverriding ledger).Along (fun _ move => move.LeavesCreations) before →
        t.registry.cache.registered = s.registry.cache.registered ++ instances.map Prod.fst) := by
  intro instances
  have start : s.Since [] [] s := .refl quiet
  have answers : s.Along Answers moves := by
    have onward : ∀ u move v, (∃ made failed, s.Since made failed u) → u.requests move →
        u.move? move = some v → ∃ made failed, s.Since made failed v := by
      rintro u move v ⟨made, failed, since⟩ requests moved
      exact ⟨_, _, since.of_move? idle requests moved⟩
    have answered : ∀ u move, (∃ made failed, s.Since made failed u) → u.requests move →
        u.Answers move := by
      rintro u move ⟨made, failed, since⟩ requests
      exact since.answers idle requests
    exact requests.imp_of_invariant onward answered ⟨[], [], start⟩
  have precedes := start.precedes_along idle requests moved
  rcases start.of_moves? idle requests moved with ⟨above, stack, creating, since⟩
  have returned : above = [] := by
    cases above with
    | nil => rfl
    | cons frame rest =>
        rcases creating frame List.mem_cons_self with ⟨key, created⟩
        simp [stack, Frame.creations, created] at ended
  subst returned
  have same : t.registry.cache.suppressed = s.registry.cache.suppressed := by
    have reachedEnd : (begin name allowOverriding ledger).Reaches t :=
      Reaches.trans ⟨before, reached⟩ ⟨moves, moved⟩
    rw [suppressed_eq_none_of_idle ⟨before, reached⟩ idle,
      suppressed_eq_none_of_idle reachedEnd ended]
  have grown := since.grown quiet same
  have appended := fun leaves => since.registered_append quiet (backed_of_moves? leaves reached)
  exact ⟨grown, stack, answers, precedes, appended⟩

/-- Two requests fail inside a third one, which makes good for one of them on a second attempt and
does without the other. -/
theorem failed_request_made_good :
    let before : List (Move Unit) :=
      [.call (.cache (.registerFinalized "z" (some ⟨"Connection", 9⟩)))]
    let moves : List (Move Unit) := [.call (.cache (.getOrCreate "a" (some ()))),
      .call (.cache (.getOrCreate "b" (some ()))), .call (.cache (.getOrCreate "c" (some ()))),
      .finish (.returned (some ⟨"Service", 1⟩)), .finish (.threw ⟨0, .foreign⟩),
      .call (.cache (.getOrCreate "b" (some ()))), .call (.cache (.getOrCreate "c" (some ()))),
      .finish (.returned (some ⟨"Service", 2⟩)), .call (.cache (.getOrCreate "d" (some ()))),
      .finish (.returned none), .finish (.returned (some ⟨"Service", 3⟩))]
    ∃ s t, (begin "default" true {}).moves? before = some s ∧ s.moves? moves = some t ∧
      s.gather made moves =
        [("c", ⟨"Service", 1⟩), ("b", ⟨"Service", 2⟩), ("a", ⟨"Service", 3⟩)] ∧
      s.gather failed moves = ["b", "d"] ∧
      s.registry.cache.Grown (s.gather made moves) (s.gather failed moves) t.registry.cache ∧
      t.registry.cache.registered = ["z", "c", "b", "a"] := by
  intro before moves
  let s := ((begin (κ := Unit) "default" true {}).call
    (.cache (.registerFinalized "z" (some ⟨"Connection", 9⟩)))).value.1
  have reached : (begin (κ := Unit) "default" true {}).moves? before = some s := rfl
  have quiet : s.registry.cache.Quiet := by
    constructor <;> decide +kernel
  have requests : s.Along (fun u move => u.requests move) moves := by decide +kernel
  have run : (s.moves? moves).map stack = some [] := by decide +kernel
  have made : s.gather made moves =
      [("c", ⟨"Service", 1⟩), ("b", ⟨"Service", 2⟩), ("a", ⟨"Service", 3⟩)] := by decide +kernel
  have failed : s.gather failed moves = ["b", "d"] := by decide +kernel
  have listed : s.registry.cache.registered = ["z"] := by decide +kernel
  rcases Option.map_eq_some_iff.mp run with ⟨t, moved, emptied⟩
  have ended : Frame.creations t.stack = [] := by
    rw [emptied]
    rfl
  obtain ⟨grown, _, _, _, appended⟩ :=
    requests_leave_what_was_made reached rfl quiet requests moved ended
  have names := appended ⟨trivial, fun _ _ => trivial⟩
  rw [made, listed] at names
  exact ⟨s, t, reached, moved, made, failed, grown, names⟩

/-- A pending factory of a key that the tracker was told of makes nothing, and the tracker is told
that the creation has ended: nothing is left of this but the name on the list.  A request for the
key that fails takes it off. -/
theorem stale_name_is_unlisted :
    let start : Session Unit := begin "default" true {}
    let before : List (Move Unit) := [.call (.tracker (.start "k")),
      .call (.cache (.registerPending "k" (some ()))), .call (.cache (.getEarly "k")),
      .finish (.returned none), .call (.tracker (.finish "k"))]
    let s : Session Unit := ⟨{ start.registry with cache := { registered := ["k"] } }, []⟩
    let moves : List (Move Unit) :=
      [.call (.cache (.getOrCreate "k" (some ()))), .finish (.threw ⟨0, .foreign⟩)]
    start.moves? before = some s ∧ s.registry.cache.Quiet ∧
      s.Along (fun u move => u.requests move) moves ∧
      ∃ t, s.moves? moves = some t ∧ t.stack = [] ∧
        t.registry.cache.registered ≠
          s.registry.cache.registered ++ (s.gather made moves).map Prod.fst := by
  intro start before s moves
  have reached : start.moves? before = some s := by decide +kernel
  have quiet : s.registry.cache.Quiet := ⟨rfl, rfl, rfl, rfl⟩
  have requests : s.Along (fun u move => u.requests move) moves := by decide +kernel
  have names : s.registry.cache.registered ++ (s.gather made moves).map Prod.fst = ["k"] := by
    decide +kernel
  have run : (s.moves? moves).map (fun t => (t.stack, t.registry.cache.registered)) =
      some ([], []) := by decide +kernel
  rcases Option.map_eq_some_iff.mp run with ⟨t, moved, facts⟩
  rcases Prod.mk.inj facts with ⟨emptied, unlisted⟩
  have differ : t.registry.cache.registered ≠
      s.registry.cache.registered ++ (s.gather made moves).map Prod.fst := by
    rw [unlisted, names]
    exact List.cons_ne_nil _ _ |>.symm
  exact ⟨reached, quiet, requests, t, moved, emptied, differ⟩

end Session

end Lifecycle
