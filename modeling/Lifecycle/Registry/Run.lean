import Lifecycle.Registry.Session

/-!
# Runs of a session

A run is a row of moves.  User code makes calls, lets the innermost callback come back, raises
faults of its own and attaches faults to one another, in any order; the only move that may be
impossible is to come back from a callback when none is running.
-/

namespace Lifecycle

/-- A move of user code. -/
inductive Move (κ : Type) where
  | call (c : Call κ)
  | finish (outcome : Outcome)
  | raise (cause : Cause)
  | attach (fault : Fault) (others : List Fault)

namespace Session

variable {κ : Type}

/-- A session that begins, on a new registry. -/
def begin (name : Name) (allowOverriding : Bool) (ledger : Ledger) : Session κ :=
  { registry := (Registry.create name allowOverriding ledger).value }

/-- The session after a move. -/
def move? (s : Session κ) : Move κ → Option (Session κ)
  | .call c => some (s.call c).value.1
  | .finish outcome => (s.finish? outcome).map (·.value.1)
  | .raise cause => some (s.raise cause).2
  | .attach fault others => some (s.attach fault others)

/-- The session after a row of moves. -/
def moves? (s : Session κ) (moves : List (Move κ)) : Option (Session κ) :=
  moves.foldlM move? s

@[simp]
theorem moves?_nil (s : Session κ) : s.moves? [] = some s :=
  rfl

@[simp]
theorem moves?_cons (s : Session κ) (move : Move κ) (moves : List (Move κ)) :
    s.moves? (move :: moves) = (s.move? move).bind fun t => t.moves? moves :=
  rfl

/-- A row of moves can be cut anywhere. -/
theorem moves?_append (s : Session κ) (first second : List (Move κ)) :
    s.moves? (first ++ second) = (s.moves? first).bind fun t => t.moves? second := by
  simp [moves?, List.foldlM_append]

/-- When a callback comes back, the innermost waiting call goes on. -/
theorem move?_finish_eq_some_iff {s t : Session κ} {outcome : Outcome} :
    s.move? (.finish outcome) = some t ↔ ∃ frame rest, s.stack = frame :: rest ∧
      t = (after rest (s.registry.resume outcome frame).value).1 := by
  cases waiting : s.stack with
  | nil => simp [move?, finish?, waiting]
  | cons frame rest =>
      simp only [move?, finish?, waiting, Option.map_some, Option.some.injEq, Log.Logged.value_map]
      constructor
      · intro finished
        exact ⟨frame, rest, rfl, finished.symm⟩
      · rintro ⟨frame, rest, same, rfl⟩
        obtain ⟨rfl, rfl⟩ := List.cons.inj same
        rfl

/-- Coming back from a callback is possible exactly when one is running. -/
theorem move?_finish_isSome_iff (s : Session κ) (outcome : Outcome) :
    (s.move? (.finish outcome)).isSome ↔ s.stack ≠ [] := by
  cases running : s.stack <;> simp [move?, finish?, running]

/-- A condition on the next move holds for each of a row of moves, at the session in which it is
made. -/
def Along (condition : Session κ → Move κ → Prop) (s : Session κ) : List (Move κ) → Prop
  | [] => True
  | move :: rest =>
      condition s move ∧ ∀ t, s.move? move = some t → t.Along condition rest

instance Along.decidable {condition : Session κ → Move κ → Prop}
    [∀ s move, Decidable (condition s move)] :
    ∀ (moves : List (Move κ)) (s : Session κ), Decidable (s.Along condition moves)
  | [], _ => .isTrue trivial
  | move :: rest, s =>
      match moved : s.move? move with
      | none => decidable_of_iff (condition s move) (by simp [Along, moved])
      | some t =>
          have : Decidable (t.Along condition rest) := decidable rest t
          decidable_of_iff (condition s move ∧ t.Along condition rest) (by simp [Along, moved])

theorem Along.imp {condition condition' : Session κ → Move κ → Prop}
    (weaker : ∀ s move, condition s move → condition' s move) {moves : List (Move κ)}
    {s : Session κ} (along : s.Along condition moves) : s.Along condition' moves := by
  induction moves generalizing s with
  | nil => trivial
  | cons move rest ih =>
      obtain ⟨first, onward⟩ := along
      exact ⟨weaker s move first, fun t moved => ih (onward t moved)⟩

/-- A condition holds along a row of moves if it holds along both parts of it. -/
theorem along_append_iff {condition : Session κ → Move κ → Prop} {first second : List (Move κ)}
    {s t : Session κ} (moved : s.moves? first = some t) :
    s.Along condition (first ++ second) ↔ s.Along condition first ∧ t.Along condition second := by
  induction first generalizing s with
  | nil =>
      obtain rfl := Option.some.inj moved
      exact (iff_of_eq (true_and _)).symm
  | cons move rest ih =>
      obtain ⟨u, moved, restMoved⟩ := Option.bind_eq_some_iff.mp moved
      simp only [List.cons_append, Along, moved, Option.some.injEq, forall_eq', ih restMoved,
        and_assoc]

/-- What each move keeps, under a condition on the moves, holds at the end of every row of such
moves. -/
theorem Along.invariant {condition : Session κ → Move κ → Prop} {keeps : Session κ → Prop}
    (step : ∀ s move t, keeps s → condition s move → s.move? move = some t → keeps t)
    {moves : List (Move κ)} {s t : Session κ} (start : keeps s) (along : s.Along condition moves)
    (moved : s.moves? moves = some t) : keeps t := by
  induction moves generalizing s with
  | nil =>
      obtain rfl := Option.some.inj moved
      exact start
  | cons move rest ih =>
      obtain ⟨first, onward⟩ := along
      obtain ⟨u, moved, rest⟩ := Option.bind_eq_some_iff.mp moved
      exact ih (step s move u start first moved) (onward u moved) rest

/-- What each move keeps, under a condition on the moves, can be used to show another condition. -/
theorem Along.imp_of_invariant {condition condition' : Session κ → Move κ → Prop}
    {keeps : Session κ → Prop}
    (step : ∀ s move t, keeps s → condition s move → s.move? move = some t → keeps t)
    (implies : ∀ s move, keeps s → condition s move → condition' s move) {moves : List (Move κ)}
    {s : Session κ} (start : keeps s) (along : s.Along condition moves) :
    s.Along condition' moves := by
  induction moves generalizing s with
  | nil => trivial
  | cons move rest ih =>
      obtain ⟨first, onward⟩ := along
      constructor
      · exact implies s move start first
      · intro t moved
        exact ih (step s move t start first moved) (onward t moved)

/-- A condition that every move meets holds along every row of moves. -/
theorem along_true (s : Session κ) (moves : List (Move κ)) : s.Along (fun _ _ => True) moves := by
  induction moves generalizing s with
  | nil => trivial
  | cons _ _ ih => exact ⟨trivial, fun t _ => ih t⟩

/-- What every move keeps holds at the end of every row of moves. -/
theorem invariant {keeps : Session κ → Prop}
    (step : ∀ s move t, keeps s → s.move? move = some t → keeps t) {moves : List (Move κ)}
    {s t : Session κ} (start : keeps s) (moved : s.moves? moves = some t) : keeps t := by
  exact (s.along_true moves).invariant (fun s move t held _ moved => step s move t held moved) start
    moved

/-- When a move keeps something exactly if it meets a condition, a row of moves keeps it throughout
exactly if the condition holds along the row. -/
theorem throughout_iff_along {condition : Session κ → Move κ → Prop} {keeps : Session κ → Prop}
    (step : ∀ s move t, keeps s → s.move? move = some t → (keeps t ↔ condition s move))
    (possible : ∀ s move, ¬ condition s move → (s.move? move).isSome) {s : Session κ}
    (start : keeps s) (moves : List (Move κ)) :
    (∀ first, first <+: moves → ∀ t, s.moves? first = some t → keeps t) ↔
      s.Along condition moves := by
  induction moves generalizing s with
  | nil =>
      constructor
      · intro _
        trivial
      · rintro - first before t moved
        obtain rfl := List.prefix_nil.mp before
        obtain rfl := Option.some.inj moved
        exact start
  | cons move rest ih =>
      constructor
      · intro throughout
        have next : ∀ t, s.move? move = some t → keeps t := fun t moved =>
          throughout [move] ⟨rest, rfl⟩ t (by simp [moved])
        constructor
        · by_cases meets : condition s move
          · exact meets
          · obtain ⟨t, moved⟩ := Option.isSome_iff_exists.mp (possible s move meets)
            exact (step s move t start moved).mp (next t moved)
        · intro t moved
          apply (ih (next t moved)).mp
          intro first before u moved'
          exact throughout (move :: first) ((List.prefix_cons_inj move).mpr before) u
            (by simp [moved, moved'])
      · rintro ⟨meets, onward⟩ first before u moved
        cases first with
        | nil =>
            obtain rfl := Option.some.inj moved
            exact start
        | cons move' first =>
            obtain ⟨rfl, restBefore⟩ := List.cons_prefix_cons.mp before
            obtain ⟨t, moved, moved'⟩ := Option.bind_eq_some_iff.mp moved
            have kept := (step s move' t start moved).mpr meets
            exact (ih kept).mpr (onward t moved) first restBefore u moved'

/-! ## What has held since -/

/-- One of a row of moves is of one kind, and a condition holds for each of the moves after it. -/
def EverSince (happens condition : Session κ → Move κ → Prop) (s : Session κ) :
    List (Move κ) → Prop
  | [] => False
  | move :: rest => ∃ t, s.move? move = some t ∧
      (happens s move ∧ t.Along condition rest ∨ t.EverSince happens condition rest)

/-- What a move brings about or keeps, and nothing else does, holds at the end of a row of moves
exactly if it was brought about in the row, or held before it, and has been kept since. -/
theorem holds_iff_everSince {guard happens condition : Session κ → Move κ → Prop}
    {holds : Session κ → Prop}
    (step : ∀ s move t, guard s move → s.move? move = some t →
      (holds t ↔ happens s move ∨ holds s ∧ condition s move))
    {moves : List (Move κ)} {s t : Session κ} (guarded : s.Along guard moves)
    (moved : s.moves? moves = some t) :
    holds t ↔ holds s ∧ s.Along condition moves ∨ s.EverSince happens condition moves := by
  induction moves generalizing s with
  | nil =>
      obtain rfl := Option.some.inj moved
      simp [Along, EverSince]
  | cons move rest ih =>
      obtain ⟨first, onward⟩ := guarded
      obtain ⟨u, moved, restMoved⟩ := Option.bind_eq_some_iff.mp moved
      rw [ih (onward u moved) restMoved, step s move u first moved]
      simp only [Along, EverSince, moved, Option.some.injEq, forall_eq', exists_eq_left']
      constructor
      · rintro (⟨happens | ⟨held, kept⟩, along⟩ | since)
        · exact .inr (.inl ⟨happens, along⟩)
        · exact .inl ⟨held, kept, along⟩
        · exact .inr (.inr since)
      · rintro (⟨held, kept, along⟩ | ⟨happens, along⟩ | since)
        · exact .inl ⟨.inr ⟨held, kept⟩, along⟩
        · exact .inl ⟨.inl happens, along⟩
        · exact .inr since

/-- What does not hold before a row of moves has been brought about in it, if it holds in the end. -/
theorem holds_iff_everSince_of_not {guard happens condition : Session κ → Move κ → Prop}
    {holds : Session κ → Prop}
    (step : ∀ s move t, guard s move → s.move? move = some t →
      (holds t ↔ happens s move ∨ holds s ∧ condition s move))
    {moves : List (Move κ)} {s t : Session κ} (new : ¬ holds s) (guarded : s.Along guard moves)
    (moved : s.moves? moves = some t) : holds t ↔ s.EverSince happens condition moves := by
  rw [holds_iff_everSince step guarded moved]
  exact or_iff_right fun held => new held.1

/-- None of a row of moves is of a kind, or one of them is. -/
theorem along_not_or_exists (happens : Session κ → Move κ → Prop) (s : Session κ)
    (moves : List (Move κ)) :
    s.Along (fun s move => ¬ happens s move) moves ∨
      ∃ first move rest u, moves = first ++ move :: rest ∧ s.moves? first = some u ∧
        happens u move := by
  induction moves generalizing s with
  | nil => exact .inl trivial
  | cons move rest ih =>
      by_cases now : happens s move
      · exact .inr ⟨[], move, rest, s, rfl, rfl, now⟩
      cases moved : s.move? move with
      | none =>
          refine .inl ⟨now, fun t moved' => ?_⟩
          exact absurd (moved.symm.trans moved') (by simp)
      | some t =>
          rcases ih t with never | ⟨first, move', rest', u, rfl, reached, later⟩
          · refine .inl ⟨now, fun t' moved' => ?_⟩
            obtain rfl := Option.some.inj (moved.symm.trans moved')
            exact never
          · exact .inr ⟨move :: first, move', rest', u, rfl, by simp [moved, reached], later⟩

/-- What none of a row of moves does has not happened in it. -/
theorem Along.not_everSince {happens condition : Session κ → Move κ → Prop} {moves : List (Move κ)}
    {s : Session κ} (never : s.Along (fun s move => ¬ happens s move) moves) :
    ¬ s.EverSince happens condition moves := by
  induction moves generalizing s with
  | nil => exact id
  | cons move rest ih =>
      obtain ⟨first, onward⟩ := never
      rintro ⟨t, moved, ⟨happened, _⟩ | since⟩
      · exact first happened
      · exact ih (onward t moved) since

/-! ## Readings -/

/-- What is read off a row of moves: the readings of its moves, each taken at the session in which
the move is made, one after the other. -/
def gather {α : Type} (read : Session κ → Move κ → List α) (s : Session κ) :
    List (Move κ) → List α
  | [] => []
  | move :: rest => read s move ++ (s.move? move).elim [] fun t => t.gather read rest

section gather

variable {α : Type} {read : Session κ → Move κ → List α}

@[simp]
theorem gather_nil (s : Session κ) : s.gather read [] = [] :=
  rfl

theorem gather_cons {s t : Session κ} {move : Move κ} (moved : s.move? move = some t)
    (rest : List (Move κ)) : s.gather read (move :: rest) = read s move ++ t.gather read rest := by
  rw [gather, moved]
  rfl

theorem gather_append {s t : Session κ} {first : List (Move κ)} (moved : s.moves? first = some t)
    (second : List (Move κ)) :
    s.gather read (first ++ second) = s.gather read first ++ t.gather read second := by
  induction first generalizing s with
  | nil =>
      obtain rfl := Option.some.inj moved
      rfl
  | cons move rest ih =>
      obtain ⟨u, moved, restMoved⟩ := Option.bind_eq_some_iff.mp moved
      rw [List.cons_append, gather_cons moved, gather_cons moved, ih restMoved, List.append_assoc]

/-- What comes in with a move, and what was held before it, goes out with it in one of two ways or
is held after it; over a row of moves nothing is lost and nothing is added either. -/
theorem perm_gather (keeps : Session κ → Prop) {comes goes lapses : Session κ → Move κ → List α}
    {held : Session κ → List α}
    (step : ∀ s move t, keeps s → s.move? move = some t →
      keeps t ∧ (comes s move ++ held s).Perm (goes s move ++ lapses s move ++ held t))
    {moves : List (Move κ)} {s t : Session κ} (start : keeps s) (moved : s.moves? moves = some t) :
    (s.gather comes moves ++ held s).Perm
      (s.gather goes moves ++ s.gather lapses moves ++ held t) := by
  classical
  induction moves generalizing s with
  | nil =>
      obtain rfl := Option.some.inj moved
      exact List.Perm.refl _
  | cons move rest ih =>
      obtain ⟨u, first, onward⟩ := Option.bind_eq_some_iff.mp moved
      obtain ⟨kept, now⟩ := step s move u start first
      have later := ih kept onward
      rw [gather_cons first, gather_cons first, gather_cons first]
      rw [List.perm_iff_count] at now later ⊢
      intro entry
      have counted := now entry
      have countedLater := later entry
      simp only [List.count_append] at counted countedLater ⊢
      omega

end gather

/-- One session leads to another. -/
def Reaches (s t : Session κ) : Prop := ∃ moves, s.moves? moves = some t

@[refl]
theorem Reaches.refl (s : Session κ) : s.Reaches s := ⟨[], rfl⟩

theorem Reaches.trans {s t u : Session κ} (first : s.Reaches t) (second : t.Reaches u) :
    s.Reaches u := by
  obtain ⟨before, reached⟩ := first
  obtain ⟨after, reached'⟩ := second
  exact ⟨before ++ after, by simp [moves?_append, reached, reached']⟩

end Session

end Lifecycle
