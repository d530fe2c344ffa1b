import Lifecycle.Proofs.Teardown.Edges
import Lifecycle.Proofs.Teardown.Sweep

/-!
# What a teardown opens

A teardown keeps no list of the keys it has been at.  It takes the edges of a key out of the graph
before it follows them, and strikes the key out of all other edges when it is done with it, also
while the dependents or contents of some other key are being gone through.  Nevertheless it begins
to destroy exactly what falls with the keys that it is asked to destroy, on any graph
(`Sweep.Explores.opened_iff`): an edge that is missing leads to a key that has been opened, or is
about to be.
-/

namespace Lifecycle

variable {κ : Type}

/-- A task of a teardown of single keys: apart from new keys, it is about keys that have been
opened. -/
def Task.About (opened : List Name) : Task κ → Prop
  | destroy _ => True
  | dispose key _ | destroyContained key | scrub key => key ∈ opened
  | forgetAll | markDestroyed => False

theorem Task.About.mono {opened opened' : List Name} {task : Task κ} (about : task.About opened)
    (more : ∀ key ∈ opened, key ∈ opened') : task.About opened' := by
  cases task with
  | destroy => trivial
  | dispose key _ | destroyContained key | scrub key => exact more key about
  | forgetAll | markDestroyed => exact about

namespace Sweep

/-- How a sweep that was to destroy some keys stands to the graph as it was at the beginning: what
is opened, or about to be, falls with these keys, and no edge has been lost. -/
structure Explores (g : Graph) (starts : List Name) (w : Sweep κ) (tasks : List (Task κ)) :
    Prop where
  about : ∀ task ∈ tasks, task.About w.opened
  dependents_subset {key name : Name} (depends : name ∈ w.registry.graph.dependents.of key) :
    name ∈ g.dependents.of key
  contained_subset {key name : Name} (contains : name ∈ w.registry.graph.contained.of key) :
    name ∈ g.contained.of key
  sound {key : Name} (open_or_due : key ∈ w.opened ∨ .destroy key ∈ tasks) :
    ∃ start ∈ starts, g.FallsWith key start
  started {start : Name} (member : start ∈ starts) : start ∈ w.opened ∨ .destroy start ∈ tasks
  follows_dependent {key name : Name} (depends : name ∈ g.dependents.of key) :
    name ∈ w.opened ∨ key ∈ w.opened ∧ .destroy name ∈ tasks ∨
      key ∉ w.opened ∧ name ∈ w.registry.graph.dependents.of key
  follows_contained {key name : Name} (contains : name ∈ g.contained.of key) :
    name ∈ w.opened ∨ .destroy name ∈ tasks ∨
      name ∈ w.registry.graph.contained.of key ∧
        (key ∈ w.opened → .destroyContained key ∈ tasks)

namespace Explores

variable {g : Graph} {starts : List Name} {w : Sweep κ} {rest : List (Task κ)} {key : Name}

/-- When a key is opened, every other key that was due is still due. -/
theorem opened_or_due {name : Name} (due : .destroy name ∈ Task.destroy (κ := κ) key :: rest)
    (opened : List Name) (new : List (Task κ)) :
    name ∈ opened ++ [key] ∨ .destroy name ∈ new ++ rest := by
  rcases List.mem_cons.mp due with same | due
  · obtain rfl := Task.destroy.inj same
    exact .inl (List.mem_append_right _ List.mem_cons_self)
  · exact .inr (List.mem_append_right _ due)

theorem begin (r : Registry κ) (starts : List Name) :
    Explores r.graph starts { registry := r } (starts.map .destroy) where
  about := by
    intro task member
    rcases List.mem_map.mp member with ⟨start, _, rfl⟩
    trivial
  dependents_subset := id
  contained_subset := id
  sound := by
    rintro key (opened | due)
    · contradiction
    · exact ⟨key, by simpa using due, Graph.FallsWith.refl _ key⟩
  started member := .inr (List.mem_map_of_mem member)
  follows_dependent depends := .inr (.inr ⟨List.not_mem_nil, depends⟩)
  follows_contained contains := .inr (.inr ⟨contains, fun opened => absurd opened List.not_mem_nil⟩)

theorem destroy (explores : Explores g starts w (.destroy key :: rest)) :
    Explores g starts (w.perform (.destroy key)).2 ((w.perform (.destroy key)).1 ++ rest) := by
  rw [perform_destroy]
  have keyFalls := explores.sound (.inr List.mem_cons_self)
  constructor
  case about =>
    intro task member
    rcases List.mem_append.mp member with new | old
    · cases task with
      | destroy => trivial
      | dispose => simp_all [Task.About]
      | destroyContained => simp_all [Task.About]
      | scrub => simp_all [Task.About]
      | forgetAll => simp [Registry.unlink] at new
      | markDestroyed => simp [Registry.unlink] at new
    · exact (explores.about task (List.mem_cons_of_mem _ old)).mono fun _ =>
        List.mem_append_left [key]
  case dependents_subset =>
    intro source name depends
    exact explores.dependents_subset (EdgeMap.mem_of_erase.mp depends).2
  case contained_subset => exact explores.contained_subset
  case sound =>
    intro name open_or_due
    simp only [List.mem_append, List.mem_singleton, Registry.destroy_mem_unlink] at open_or_due
    rcases open_or_due with (opened | rfl) | (new | old)
    · exact explores.sound (.inl opened)
    · exact keyFalls
    · rcases keyFalls with ⟨start, member, falls⟩
      exact ⟨start, member, falls.dragged (.inl (explores.dependents_subset new))⟩
    · exact explores.sound (.inr (List.mem_cons_of_mem _ old))
  case started =>
    intro start member
    rcases explores.started member with opened | due
    · exact .inl (List.mem_append_left _ opened)
    · exact opened_or_due due _ _
  case follows_dependent =>
    intro source name depends
    rcases explores.follows_dependent depends with opened | ⟨opened, due⟩ | ⟨closed, kept⟩
    · exact .inl (List.mem_append_left _ opened)
    · exact (opened_or_due due _ _).imp_right fun due =>
        .inl ⟨List.mem_append_left _ opened, due⟩
    · by_cases same : source = key
      · subst same
        exact .inr (.inl ⟨by simp, by simp [kept]⟩)
      · exact .inr (.inr ⟨by simp [closed, same], EdgeMap.mem_of_erase.mpr ⟨same, kept⟩⟩)
  case follows_contained =>
    intro source name contains
    rcases explores.follows_contained contains with opened | due | ⟨kept, willTake⟩
    · exact .inl (List.mem_append_left _ opened)
    · exact (opened_or_due due _ _).imp_right .inl
    · refine .inr (.inr ⟨kept, fun opened => ?_⟩)
      rcases List.mem_append.mp opened with opened | new
      · exact Task.still_due (willTake opened) nofun _
      · exact List.mem_append_left _ (by simpa using new)

theorem dispose {callback : κ} (explores : Explores g starts w (.dispose key callback :: rest)) :
    Explores g starts (w.perform (.dispose key callback)).2
      ((w.perform (.dispose key callback)).1 ++ rest) := by
  rw [perform_dispose]
  constructor
  case about => exact fun task member => explores.about task (List.mem_cons_of_mem _ member)
  case dependents_subset => exact explores.dependents_subset
  case contained_subset => exact explores.contained_subset
  case sound =>
    intro name open_or_due
    exact explores.sound (open_or_due.imp_right (List.mem_cons_of_mem _))
  case started =>
    intro start member
    simpa using explores.started member
  case follows_dependent =>
    intro source name depends
    simpa using explores.follows_dependent depends
  case follows_contained =>
    intro source name contains
    simpa using explores.follows_contained contains

theorem destroyContained (explores : Explores g starts w (.destroyContained key :: rest)) :
    Explores g starts (w.perform (.destroyContained key)).2
      ((w.perform (.destroyContained key)).1 ++ rest) := by
  rw [perform_destroyContained]
  have keyOpened : key ∈ w.opened := explores.about _ List.mem_cons_self
  constructor
  case about =>
    intro task member
    rcases List.mem_append.mp member with new | old
    · rcases Registry.mem_releaseContained.mp new with ⟨inner, _, rfl⟩
      trivial
    · exact explores.about task (List.mem_cons_of_mem _ old)
  case dependents_subset => exact explores.dependents_subset
  case contained_subset =>
    intro source name contains
    exact explores.contained_subset (EdgeMap.mem_of_erase.mp contains).2
  case sound =>
    rintro name (opened | due)
    · exact explores.sound (.inl opened)
    · rcases List.mem_append.mp due with new | old
      · rcases Registry.mem_releaseContained.mp new with ⟨inner, contains, same⟩
        obtain rfl := Task.destroy.inj same
        rcases explores.sound (.inl keyOpened) with ⟨start, member, falls⟩
        exact ⟨start, member, falls.dragged (.inr (explores.contained_subset contains))⟩
      · exact explores.sound (.inr (List.mem_cons_of_mem _ old))
  case started =>
    intro start member
    rcases explores.started member with opened | due
    · exact .inl opened
    · exact .inr (Task.still_due due nofun _)
  case follows_dependent =>
    intro source name depends
    rcases explores.follows_dependent depends with opened | ⟨opened, due⟩ | kept
    · exact .inl opened
    · exact .inr (.inl ⟨opened, Task.still_due due nofun _⟩)
    · exact .inr (.inr kept)
  case follows_contained =>
    intro source name contains
    rcases explores.follows_contained contains with opened | due | ⟨kept, willTake⟩
    · exact .inl opened
    · exact .inr (.inl (Task.still_due due nofun _))
    · by_cases same : source = key
      · subst same
        have new := Registry.mem_releaseContained.mpr ⟨name, kept, rfl⟩
        exact .inr (.inl (List.mem_append_left _ new))
      · refine .inr (.inr ⟨EdgeMap.mem_of_erase.mpr ⟨same, kept⟩, fun opened => ?_⟩)
        exact Task.still_due (willTake opened) (by simpa using same) _

theorem scrub (explores : Explores g starts w (.scrub key :: rest)) :
    Explores g starts (w.perform (.scrub key)).2 ((w.perform (.scrub key)).1 ++ rest) := by
  rw [perform_scrub]
  have keyOpened : key ∈ w.opened := explores.about _ List.mem_cons_self
  constructor
  case about => exact fun task member => explores.about task (List.mem_cons_of_mem _ member)
  case dependents_subset =>
    intro source name depends
    exact explores.dependents_subset (EdgeMap.mem_of_withoutTarget.mp depends).2
  case contained_subset => exact explores.contained_subset
  case sound =>
    intro name open_or_due
    exact explores.sound (open_or_due.imp_right (List.mem_cons_of_mem _))
  case started =>
    intro start member
    simpa using explores.started member
  case follows_dependent =>
    intro source name depends
    rcases explores.follows_dependent depends with opened | ⟨opened, due⟩ | ⟨closed, kept⟩
    · exact .inl opened
    · exact .inr (.inl ⟨opened, List.mem_of_ne_of_mem (by simp) due⟩)
    · by_cases same : name = key
      · -- The only edges that are lost here lead to the key itself.
        exact .inl (same ▸ keyOpened)
      · exact .inr (.inr ⟨closed, EdgeMap.mem_of_withoutTarget.mpr ⟨same, kept⟩⟩)
  case follows_contained =>
    intro source name contains
    simpa [Graph.scrub] using explores.follows_contained contains

theorem step (w : Sweep κ) (task : Task κ) (rest : List (Task κ))
    (explores : Explores g starts w (task :: rest)) :
    Explores g starts (w.perform task).2 ((w.perform task).1 ++ rest) := by
  cases task with
  | destroy key => exact explores.destroy
  | dispose key callback => exact explores.dispose
  | destroyContained key => exact explores.destroyContained
  | scrub key => exact explores.scrub
  | forgetAll | markDestroyed => exact absurd (explores.about _ List.mem_cons_self) id

/-- When all is done, what has been opened drags along nothing that has not been opened. -/
theorem opened_of_drags (explores : Explores g starts w []) {name : Name} (opened : key ∈ w.opened)
    (drags : g.Drags key name) : name ∈ w.opened := by
  rcases drags with depends | contains
  · rcases explores.follows_dependent depends with nameOpened | ⟨_, due⟩ | ⟨closed, _⟩
    · exact nameOpened
    · contradiction
    · exact absurd opened closed
  · rcases explores.follows_contained contains with nameOpened | due | ⟨_, willTake⟩
    · exact nameOpened
    · contradiction
    · exact absurd (willTake opened) List.not_mem_nil

/-- When all is done, exactly what falls with the starts has been opened. -/
theorem opened_iff (explores : Explores g starts w []) :
    key ∈ w.opened ↔ ∃ start ∈ starts, g.FallsWith key start := by
  constructor
  · intro opened
    exact explores.sound (.inl opened)
  · rintro ⟨start, member, falls⟩
    induction falls with
    | refl => exact (explores.started member).resolve_right List.not_mem_nil
    | tail _ drags ih => exact explores.opened_of_drags ih drags

end Explores

/-- A sweep that destroys some keys opens exactly what falls with them. -/
theorem explores_run (r : Registry κ) (starts : List Name) :
    Explores r.graph starts (run { registry := r } (starts.map .destroy)) [] := by
  apply invariant Explores.step
  rw [List.append_nil]
  exact Explores.begin r starts

end Sweep

end Lifecycle
