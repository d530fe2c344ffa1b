import Lifecycle.Proofs.Session.Change
import Lifecycle.Proofs.Teardown.Edges

/-!
# Edges in pairs

Each dependency is kept twice, with the key and with the dependent, and a containment is kept a
third time among the dependencies.  A teardown takes these apart: it takes the dependents of a key
out of the graph at once, but a dependent keeps its own edges until it is struck out.  While it is
under way an edge may therefore miss its counterpart, but then the tasks that are waiting say why:
the name at the end that still has the edge is about to be destroyed or struck out
(`Graph.Paired`).  Whenever no teardown is going on there is no such task, and the edges are in
pairs (`Session.edges_paired_between_teardowns`).

What is needed of user code is that it lets no instance contain anything new while it is being
destroyed: between the moment at which the contents of a key are released and the moment at which
the key is struck out, nothing must be added to them (`Task.ReleasesFirst`).
-/

namespace Lifecycle

open Log

variable {κ : Type}

/-! ## Edge maps -/

namespace EdgeMap

variable {edges : EdgeMap} {key source source' target target' : Name}

@[simp]
theorem mem_of_add :
    target' ∈ (edges.add source target).of source' ↔
      source' = source ∧ target' = target ∨ target' ∈ edges.of source' := by
  rw [of, add, NameMap.find?_insert]
  by_cases same : source' = source
  · subst same
    simp
  · simp [same, of]

/-- No source is kept without a target. -/
def Full (edges : EdgeMap) : Prop :=
  ∀ source targets, NameMap.find? edges source = some targets → ∃ target, target ∈ targets

theorem full_empty : Full ∅ := by
  intro source targets found
  simp at found

theorem Full.add (full : edges.Full) (source target : Name) : (edges.add source target).Full := by
  intro source' targets found
  rw [EdgeMap.add, NameMap.find?_insert] at found
  split at found
  · obtain rfl := Option.some.inj found
    exact ⟨target, NameSet.mem_add.mpr (.inl rfl)⟩
  · exact full source' targets found

theorem Full.erase (full : edges.Full) (key : Name) : Full (NameMap.erase edges key) := by
  intro source targets found
  rw [NameMap.find?_erase] at found
  split at found
  · contradiction
  · exact full source targets found

/-- A source that has lost its last target is dropped. -/
theorem full_withoutTarget (edges : EdgeMap) (key : Name) : (edges.withoutTarget key).Full := by
  intro source targets found
  rw [find?_withoutTarget, Option.filter_eq_some_iff] at found
  have filled : NameMap.isEmpty targets = false := by simpa using found.2
  rw [NameMap.isEmpty, List.isEmpty_eq_false_iff_exists_mem] at filled
  rcases filled with ⟨entry, member⟩
  exact ⟨entry.1, NameMap.mem_keys_iff.mp (List.mem_map_of_mem member)⟩

/-- Where no source is kept without a target, a source is known exactly if it has a target. -/
theorem Full.contains_iff (full : edges.Full) :
    NameMap.contains edges source = true ↔ ∃ target, target ∈ edges.of source := by
  rw [NameMap.contains_iff_mem, NameMap.mem_iff_isSome, of]
  cases found : NameMap.find? edges source with
  | none => simp
  | some targets => simpa using full source targets found

end EdgeMap

/-! ## Contents are released before their key is struck out -/

/-- Whenever a key is about to be struck out, it contains nothing any more, or what it contains is
released before. -/
def Task.ReleasesFirst (released : Name → Prop) : List (Task κ) → Prop
  | [] => True
  | .destroyContained key :: rest => ReleasesFirst (fun k => k = key ∨ released k) rest
  | .scrub key :: rest => released key ∧ ReleasesFirst released rest
  | .destroy _ :: rest | .dispose _ _ :: rest => ReleasesFirst released rest
  | .forgetAll :: rest | .markDestroyed :: rest => ReleasesFirst released rest

namespace Task

theorem ReleasesFirst.mono {released released' : Name → Prop} {tasks : List (Task κ)}
    (releases : ReleasesFirst released tasks) (more : ∀ key, released key → released' key) :
    ReleasesFirst released' tasks := by
  induction tasks generalizing released released' with
  | nil => trivial
  | cons task rest ih =>
      cases task with
      | destroyContained key =>
          apply ih releases
          intro k
          exact Or.imp_right (more k)
      | scrub key => exact ⟨more key releases.1, ih releases.2 more⟩
      | destroy | dispose | forgetAll | markDestroyed => exact ih releases more

theorem releasesFirst_map_destroy_append {released : Name → Prop} (keys : List Name)
    {rest : List (Task κ)} (releases : ReleasesFirst released rest) :
    ReleasesFirst released (keys.map .destroy ++ rest) := by
  induction keys with
  | nil => exact releases
  | cons key keys ih => exact ih

/-- A teardown that begins strikes nothing out yet. -/
theorem releasesFirst_append_of_begins {released : Name → Prop} {tasks rest : List (Task κ)}
    (begins : ∀ task ∈ tasks, task.Begins) (releases : ReleasesFirst released rest) :
    ReleasesFirst released (tasks ++ rest) := by
  induction tasks with
  | nil => exact releases
  | cons task tasks ih =>
      have onward := ih fun other member => begins other (List.mem_cons_of_mem _ member)
      cases task with
      | destroy | forgetAll | markDestroyed => exact onward
      | dispose | destroyContained | scrub => exact absurd (begins _ List.mem_cons_self) id

end Task

theorem Registry.releasesFirst_unlink_append {released : Name → Prop} (r : Registry κ) (key : Name)
    {rest : List (Task κ)} (releases : Task.ReleasesFirst released rest) :
    Task.ReleasesFirst released ((r.unlink key).1 ++ rest) := by
  have last : Task.ReleasesFirst released (.destroyContained key :: .scrub key :: rest) :=
    ⟨.inl rfl, releases.mono fun _ => .inr⟩
  change Task.ReleasesFirst released (_ ++ _ ++ _ ++ _)
  rw [List.append_assoc, List.append_assoc]
  apply Task.releasesFirst_map_destroy_append
  cases r.disposals.callback? key with
  | none => exact last
  | some callback => exact last

/-! ## Pairs -/

namespace Graph

/-- Nothing is contained in a name. -/
def Bare (g : Graph) (key : Name) : Prop := ∀ inner, inner ∉ g.contained.of key

/-- Every edge has its counterpart, or a waiting task is about to remove it. -/
structure Paired (aliases : AliasMap) (g : Graph) (tasks : List (Task κ)) : Prop where
  mirrored {key dependent : Name} (depends : dependent ∈ g.dependents.of key) :
    key ∈ g.dependencies.of dependent
  depended {key dependent : Name} (needs : key ∈ g.dependencies.of dependent) :
    dependent ∈ g.dependents.of key ∨ .destroy dependent ∈ tasks ∨ .scrub dependent ∈ tasks
  implied {outer inner : Name} (contains : inner ∈ g.contained.of outer) :
    outer ∈ g.dependents.of (aliases.canonical inner) ∨ .destroy outer ∈ tasks ∨
      .destroyContained outer ∈ tasks
  releases : Task.ReleasesFirst g.Bare tasks
  dependents_full : g.dependents.Full
  dependencies_full : g.dependencies.Full
  contained_full : g.contained.Full

theorem mem_dependents_addDependency (t : AliasTable) (g : Graph) (key dependent : Name) :
    dependent ∈ (g.addDependency t key dependent).value.dependents.of (t.canonical key) := by
  rw [addDependency]
  split
  · assumption
  · exact EdgeMap.mem_of_add.mpr (.inl ⟨rfl, rfl⟩)

namespace Paired

variable {aliases : AliasMap} {g : Graph} {tasks rest : List (Task κ)} {key : Name}

/-- A graph without edges. -/
theorem empty (releases : Task.ReleasesFirst (fun _ => True) tasks) :
    Paired aliases {} tasks where
  mirrored depends := absurd depends (NameMap.not_mem_empty _)
  depended needs := absurd needs (NameMap.not_mem_empty _)
  implied contains := absurd contains (NameMap.not_mem_empty _)
  releases := releases.mono fun _ _ => NameMap.not_mem_empty
  dependents_full := EdgeMap.full_empty
  dependencies_full := EdgeMap.full_empty
  contained_full := EdgeMap.full_empty

theorem releasesFirst_true (paired : Paired aliases g tasks) :
    Task.ReleasesFirst (fun _ => True) tasks :=
  paired.releases.mono fun _ _ => trivial

/-- A teardown begins. -/
theorem begin (paired : Paired aliases g rest) (begins : ∀ task ∈ tasks, task.Begins) :
    Paired aliases g (tasks ++ rest) where
  mirrored := paired.mirrored
  depended needs := (paired.depended needs).imp_right
    (Or.imp (List.mem_append_right _) (List.mem_append_right _))
  implied contains := (paired.implied contains).imp_right
    (Or.imp (List.mem_append_right _) (List.mem_append_right _))
  releases := Task.releasesFirst_append_of_begins begins paired.releases
  dependents_full := paired.dependents_full
  dependencies_full := paired.dependencies_full
  contained_full := paired.contained_full

/-! ### Registrations -/

theorem addDependency (t : AliasTable) (paired : Paired t.targets g tasks) (key dependent : Name) :
    Paired t.targets (g.addDependency t key dependent).value tasks := by
  rw [Graph.addDependency]
  split
  · exact paired
  · constructor
    case mirrored =>
      intro source name depends
      rcases EdgeMap.mem_of_add.mp depends with ⟨rfl, rfl⟩ | old
      · exact EdgeMap.mem_of_add.mpr (.inl ⟨rfl, rfl⟩)
      · exact EdgeMap.mem_of_add.mpr (.inr (paired.mirrored old))
    case depended =>
      intro source name needs
      rcases EdgeMap.mem_of_add.mp needs with ⟨rfl, rfl⟩ | old
      · exact .inl (EdgeMap.mem_of_add.mpr (.inl ⟨rfl, rfl⟩))
      · exact (paired.depended old).imp_left fun depends => EdgeMap.mem_of_add.mpr (.inr depends)
    case implied =>
      intro outer inner contains
      exact (paired.implied contains).imp_left fun depends =>
        EdgeMap.mem_of_add.mpr (.inr depends)
    case releases => exact paired.releases
    case dependents_full => exact paired.dependents_full.add _ _
    case dependencies_full => exact paired.dependencies_full.add _ _
    case contained_full => exact paired.contained_full

/-- An instance contains another one on which it depends already. -/
theorem contain {outer inner : Name} (paired : Paired aliases g ([] : List (Task κ)))
    (depends : outer ∈ g.dependents.of (aliases.canonical inner)) :
    Paired aliases { g with contained := g.contained.add outer inner } ([] : List (Task κ)) where
  mirrored := paired.mirrored
  depended := paired.depended
  implied := by
    intro outer' inner' contains
    rcases EdgeMap.mem_of_add.mp contains with ⟨rfl, rfl⟩ | old
    · exact .inl depends
    · exact paired.implied old
  releases := trivial
  dependents_full := paired.dependents_full
  dependencies_full := paired.dependencies_full
  contained_full := paired.contained_full.add _ _

theorem addContainment (t : AliasTable) (paired : Paired t.targets g ([] : List (Task κ)))
    (inner outer : Name) :
    Paired t.targets (g.addContainment t inner outer).value ([] : List (Task κ)) := by
  rw [Graph.addContainment]
  split
  · exact paired
  · -- The dependency does not look at what is contained, so it may as well come first.
    have swapped : (Graph.addDependency t { g with contained := g.contained.add outer inner }
        inner outer).value =
          { (g.addDependency t inner outer).value with
            contained := (g.addDependency t inner outer).value.contained.add outer inner } := by
      rw [Graph.addDependency, Graph.addDependency]
      split <;> rfl
    change Paired _ (Graph.addDependency _ _ _ _).value _
    rw [swapped]
    exact (paired.addDependency t inner outer).contain
      (mem_dependents_addDependency t g inner outer)

/-! ### Tasks -/

theorem destroy {r : Registry κ} (paired : Paired aliases r.graph (.destroy key :: rest)) :
    Paired aliases (r.unlink key).2.graph ((r.unlink key).1 ++ rest) := by
  have opens : ∀ name, name ∈ r.graph.dependents.of key →
      Task.destroy name ∈ (r.unlink key).1 ++ rest := fun name depends =>
    List.mem_append_left _ (Registry.destroy_mem_unlink.mpr depends)
  constructor
  case mirrored =>
    intro source name depends
    exact paired.mirrored (EdgeMap.mem_of_erase.mp depends).2
  case depended =>
    intro source name needs
    rcases paired.depended needs with depends | due | due
    · by_cases same : source = key
      · subst same
        exact .inr (.inl (opens name depends))
      · exact .inl (EdgeMap.mem_of_erase.mpr ⟨same, depends⟩)
    · by_cases same : name = key
      · subst same
        exact .inr (.inr (List.mem_append_left _ (Registry.scrub_mem_unlink.mpr rfl)))
      · exact .inr (.inl (Task.still_due due (by simpa using same) _))
    · exact .inr (.inr (Task.still_due due nofun _))
  case implied =>
    intro outer inner contains
    rcases paired.implied contains with depends | due | due
    · by_cases same : aliases.canonical inner = key
      · exact .inr (.inl (opens outer (same ▸ depends)))
      · exact .inl (EdgeMap.mem_of_erase.mpr ⟨same, depends⟩)
    · by_cases same : outer = key
      · subst same
        exact .inr (.inr (List.mem_append_left _ (Registry.destroyContained_mem_unlink.mpr rfl)))
      · exact .inr (.inl (Task.still_due due (by simpa using same) _))
    · exact .inr (.inr (Task.still_due due nofun _))
  case releases => exact r.releasesFirst_unlink_append key paired.releases
  case dependents_full => exact paired.dependents_full.erase key
  case dependencies_full => exact paired.dependencies_full
  case contained_full => exact paired.contained_full

theorem destroyContained {r : Registry κ}
    (paired : Paired aliases r.graph (.destroyContained key :: rest)) :
    Paired aliases (r.releaseContained key).2.graph ((r.releaseContained key).1 ++ rest) := by
  constructor
  case mirrored => exact paired.mirrored
  case depended =>
    intro source name needs
    rcases paired.depended needs with depends | due | due
    · exact .inl depends
    · exact .inr (.inl (Task.still_due due nofun _))
    · exact .inr (.inr (Task.still_due due nofun _))
  case implied =>
    intro outer inner contains
    rcases EdgeMap.mem_of_erase.mp contains with ⟨differ, old⟩
    rcases paired.implied old with depends | due | due
    · exact .inl depends
    · exact .inr (.inl (Task.still_due due nofun _))
    · exact .inr (.inr (Task.still_due due (by simpa using differ) _))
  case releases =>
    have releases : Task.ReleasesFirst (fun k => k = key ∨ r.graph.Bare k) rest := paired.releases
    apply Task.releasesFirst_map_destroy_append
    apply releases.mono
    rintro name released inner contains
    rcases EdgeMap.mem_of_erase.mp contains with ⟨differ, old⟩
    rcases released with rfl | bare
    · exact differ rfl
    · exact bare inner old
  case dependents_full => exact paired.dependents_full
  case dependencies_full => exact paired.dependencies_full
  case contained_full => exact paired.contained_full.erase key

theorem scrub (paired : Paired aliases g (.scrub key :: rest)) :
    Paired aliases (g.scrub key) rest := by
  constructor
  case mirrored =>
    intro source name depends
    rcases EdgeMap.mem_of_withoutTarget.mp depends with ⟨differ, old⟩
    exact EdgeMap.mem_of_erase.mpr ⟨differ, paired.mirrored old⟩
  case depended =>
    intro source name needs
    rcases EdgeMap.mem_of_erase.mp needs with ⟨differ, old⟩
    rcases paired.depended old with depends | due | due
    · exact .inl (EdgeMap.mem_of_withoutTarget.mpr ⟨differ, depends⟩)
    · exact .inr (.inl (Task.still_due due nofun []))
    · exact .inr (.inr (Task.still_due due (by simpa using differ) []))
  case implied =>
    intro outer inner contains
    have differ : outer ≠ key := by
      rintro rfl
      exact paired.releases.1 inner contains
    rcases paired.implied contains with depends | due | due
    · exact .inl (EdgeMap.mem_of_withoutTarget.mpr ⟨differ, depends⟩)
    · exact .inr (.inl (Task.still_due due nofun []))
    · exact .inr (.inr (Task.still_due due nofun []))
  case releases => exact paired.releases.2
  case dependents_full => exact EdgeMap.full_withoutTarget _ key
  case dependencies_full => exact paired.dependencies_full.erase key
  case contained_full => exact paired.contained_full

/-- A task that takes no edge out of the graph explains none that is missing. -/
theorem skip {task : Task κ} (paired : Paired aliases g (task :: rest))
    (idle : ∀ name, .destroy name ≠ task ∧ .destroyContained name ≠ task ∧ .scrub name ≠ task) :
    Paired aliases g rest := by
  constructor
  case mirrored => exact paired.mirrored
  case depended =>
    intro source name needs
    rcases paired.depended needs with depends | due | due
    · exact .inl depends
    · exact .inr (.inl (Task.still_due due (idle name).1 []))
    · exact .inr (.inr (Task.still_due due (idle name).2.2 []))
  case implied =>
    intro outer inner contains
    rcases paired.implied contains with depends | due | due
    · exact .inl depends
    · exact .inr (.inl (Task.still_due due (idle outer).1 []))
    · exact .inr (.inr (Task.still_due due (idle outer).2.1 []))
  case releases =>
    have releases := paired.releases
    cases task with
    | dispose | forgetAll | markDestroyed => exact releases
    | destroy name => exact absurd rfl (idle name).1
    | destroyContained name => exact absurd rfl (idle name).2.1
    | scrub name => exact absurd rfl (idle name).2.2
  case dependents_full => exact paired.dependents_full
  case dependencies_full => exact paired.dependencies_full
  case contained_full => exact paired.contained_full

theorem perform (r : Registry κ) (task : Task κ) (rest : List (Task κ))
    (paired : Paired aliases r.graph (task :: rest)) :
    Paired aliases (r.perform task).2.graph ((r.perform task).1 ++ rest) := by
  cases task with
  | destroy key => exact paired.destroy
  | destroyContained key => exact paired.destroyContained
  | scrub key => exact paired.scrub
  | forgetAll => exact empty paired.releasesFirst_true
  | dispose | markDestroyed => exact paired.skip (by simp)

theorem teardown {r : Registry κ} {below : List (Task κ)}
    (paired : Paired aliases r.graph (tasks ++ below)) :
    Paired aliases (r.teardown tasks).value.1.graph
      ((r.teardown tasks).value.2.tasks ++ below) :=
  @Registry.teardown_keeps κ (fun r tasks => Paired aliases r.graph tasks) perform r tasks below
    paired

end Paired

end Graph

/-! ## Runs -/

namespace Session

/-- A call that adds edges to the graph, or takes all of them out.  What an instance contains is
added to only while no teardown is going on. -/
def AddsOrClears (s : Session κ) : GraphCall → Prop
  | .addDependency _ _ | .clear => True
  | .addContainment _ _ => s.TearsNothing
  | _ => False

/-- A move that leaves the aliases as they are, and takes edges out of the graph only by tearing
down or by clearing it. -/
def LeavesPairs (s : Session κ) : Move κ → Prop
  | .call (.aliases call) =>
      (call.run s.registry.aliases).value.1.targets = s.registry.aliases.targets
  | .call (.graph call) =>
      (call.run s.registry.aliases s.registry.graph).value.1 = s.registry.graph ∨
        s.AddsOrClears call
  | _ => True

/-- The edges of a session are in pairs, but for what its teardowns have still to do. -/
def Pairs (s : Session κ) : Prop := s.registry.graph.Paired s.registry.aliases.targets s.pending

theorem pairs_of_move? {s t : Session κ} {move : Move κ} (pairs : s.Pairs)
    (leaves : s.LeavesPairs move) (moved : s.move? move = some t) : t.Pairs := by
  rw [Pairs] at pairs
  apply of_change (fun r tasks => r.graph.Paired r.aliases.targets tasks) moved
  intro r' pending' change
  cases change with
  | none => exact pairs
  | aliases call =>
      have same : (call.run s.registry.aliases).value.1.targets = _ := leaves
      change Graph.Paired (call.run s.registry.aliases).value.1.targets _ _
      rw [same]
      exact pairs
  | graph call =>
      rcases leaves with same | adds
      · change Graph.Paired _ (call.run s.registry.aliases s.registry.graph).value.1 _
        rw [same]
        exact pairs
      · cases call with
        | addContainment inner outer =>
            have idle : s.TearsNothing := adds
            rw [idle.pending_eq_nil] at pairs ⊢
            exact pairs.addContainment s.registry.aliases inner outer
        | addDependency key dependent =>
            exact pairs.addDependency s.registry.aliases key dependent
        | clear => exact .empty pairs.releasesFirst_true
        | _ => exact absurd adds id
  | register => exact pairs
  | tear cache begins =>
      rw [Registry.aliases_teardown]
      exact Graph.Paired.teardown (r := { s.registry with cache }) (pairs.begin begins)
  | tearOn waiting =>
      rw [Registry.aliases_teardown]
      rw [waiting] at pairs
      exact pairs.teardown

/-- Whatever is registered in an empty graph and torn down again, under whatever names and with
disposals that may use the registry in turn, as long as nothing is contained anew in an instance
while a teardown is going on: whenever none is, every dependency is noted at both of its ends, no
set of names is kept empty, so that a key has dependents exactly if there is one, and whoever
contains an instance depends on it under its canonical name. -/
theorem edges_paired_between_teardowns {s t : Session κ} {moves : List (Move κ)}
    (empty : s.registry.graph = {}) (idle : s.TearsNothing)
    (leaves : s.Along LeavesPairs moves) (moved : s.moves? moves = some t)
    (idle' : t.TearsNothing) :
    let g := t.registry.graph
    (∀ key dependent, dependent ∈ g.dependents.of key ↔ key ∈ g.dependencies.of dependent) ∧
      (∀ edges ∈ [g.dependents, g.dependencies, g.contained], ∀ source targets,
        NameMap.find? edges source = some targets → ∃ target, target ∈ targets) ∧
      (∀ key, g.dependents.contains key = true ↔ ∃ dependent, dependent ∈ g.dependents.of key) ∧
      ∀ outer inner, inner ∈ g.contained.of outer →
        outer ∈ g.dependents.of (t.registry.aliases.canonical inner) := by
  intro g
  have start : s.Pairs := by
    rw [Pairs, empty, idle.pending_eq_nil]
    exact .empty trivial
  have paired : g.Paired t.registry.aliases.targets ([] : List (Task κ)) := by
    rw [← idle'.pending_eq_nil]
    exact leaves.invariant (fun _ _ _ pairs leaves moved => pairs_of_move? pairs leaves moved) start
      moved
  refine ⟨?mirrored, ?full, ?known, ?implied⟩
  case mirrored =>
    intro key dependent
    constructor
    · exact paired.mirrored
    · intro needs
      simpa using paired.depended needs
  case full =>
    intro edges member
    simp only [List.mem_cons, List.not_mem_nil, or_false] at member
    rcases member with rfl | rfl | rfl
    · exact paired.dependents_full
    · exact paired.dependencies_full
    · exact paired.contained_full
  case known =>
    intro key
    exact paired.dependents_full.contains_iff
  case implied =>
    intro outer inner contains
    rcases paired.implied contains with depends | due | due
    · exact depends
    · contradiction
    · contradiction

/-- An instance contains another one under an alias; a dependent of both is destroyed, and its
disposal destroys a dependent of its own.  What is left of the edges is in pairs. -/
theorem pairs_left_beside_destroyed_dependent :
    let s := ((begin (κ := Unit) "default" true {}).call
      (.aliases (.register "store" "db"))).value.1
    ∃ t : Session Unit,
      s.moves? [.call (.graph (.addContainment "db" "app")),
          .call (.graph (.addDependency "store" "page")),
          .call (.graph (.addDependency "app" "page")),
          .call (.graph (.addDependency "page" "menu")),
          .call (.teardown (.registerDisposal "page" (some ()))),
          .call (.teardown (.destroy "page")), .call (.teardown (.destroy "menu")),
          .finish (.returned none)] = some t ∧
        s.TearsNothing ∧ t.TearsNothing ∧ "db" ∈ t.registry.graph.contained.of "app" ∧
        "app" ∈ t.registry.graph.dependents.of (t.registry.aliases.canonical "db") ∧
        t.registry.aliases.canonical "db" ∈ t.registry.graph.dependencies.of "app" ∧
        t.registry.graph.dependents.contains "app" = false := by
  intro s
  let moves : List (Move Unit) := [.call (.graph (.addContainment "db" "app")),
    .call (.graph (.addDependency "store" "page")), .call (.graph (.addDependency "app" "page")),
    .call (.graph (.addDependency "page" "menu")),
    .call (.teardown (.registerDisposal "page" (some ()))), .call (.teardown (.destroy "page")),
    .call (.teardown (.destroy "menu")), .finish (.returned none)]
  have run : (s.moves? moves).map (fun t =>
      (t.stack, (t.registry.graph.contained.of "app").contains "db",
        (t.registry.graph.dependents.of "app").isEmpty)) = some ([], true, true) := by
    decide +kernel
  rcases Option.map_eq_some_iff.mp run with ⟨t, moved, facts⟩
  simp only [Prod.mk.injEq] at facts
  rcases facts with ⟨ended, contains, independent⟩
  have empty : s.registry.graph = {} := by decide +kernel
  have idle : s.TearsNothing := by decide +kernel
  have idle' : t.TearsNothing := by simp [TearsNothing, ended]
  have leaves : s.Along LeavesPairs moves :=
    ⟨.inr idle, fun _ _ => ⟨.inr trivial, fun _ _ => ⟨.inr trivial, fun _ _ =>
      ⟨.inr trivial, fun _ _ => ⟨trivial, fun _ _ => ⟨trivial, fun _ _ => ⟨trivial, fun _ _ =>
        ⟨trivial, fun _ _ => trivial⟩⟩⟩⟩⟩⟩⟩⟩
  obtain ⟨mirrored, _, known, implied⟩ :=
    edges_paired_between_teardowns empty idle leaves moved idle'
  have depends := implied "app" "db" contains
  have unknown : t.registry.graph.dependents.contains "app" = false := by
    rw [Bool.eq_false_iff]
    intro has
    rcases (known "app").mp has with ⟨dependent, member⟩
    rw [NameMap.isEmpty_eq_false_of_mem member] at independent
    contradiction
  exact ⟨t, moved, idle, idle', contains, depends, (mirrored _ _).mp depends, unknown⟩

end Session

end Lifecycle
