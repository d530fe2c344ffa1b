import Lifecycle.Proofs.Session.Effect
import Mathlib.Data.List.Induction
import Mathlib.Data.List.Nodup

/-!
# Registered disposals

The keys of the registered disposals stand in the order in which they were first registered, and a
key that is registered again keeps its place (`Disposals.firstRegistered_order`).  No move of a
session lists a key twice (`Session.distinct_of_reaches`).
-/

namespace Lifecycle

open Log

variable {κ : Type}

namespace Disposals

variable {disposals : Disposals κ} {key k : Name} {callback : κ}

/-! ## Look-ups -/

theorem mem_keys_of_mem (member : (key, callback) ∈ disposals) : key ∈ disposals.keys :=
  List.mem_map_of_mem member

theorem mem_keys_iff : key ∈ disposals.keys ↔ ∃ callback, (key, callback) ∈ disposals := by
  simp [keys]

theorem mem_of_callback? (found : disposals.callback? key = some callback) :
    (key, callback) ∈ disposals := by
  induction disposals with
  | nil => contradiction
  | cons entry rest ih =>
      simp only [callback?, NameMap.lookup] at found
      split at found
      · rename_i same
        obtain rfl := Option.some.inj found
        exact same ▸ List.mem_cons_self
      · exact List.mem_cons_of_mem _ (ih found)

theorem not_mem_keys_of_callback? (absent : disposals.callback? key = none) :
    key ∉ disposals.keys := by
  induction disposals with
  | nil => simp [keys]
  | cons entry rest ih =>
      simp only [callback?, NameMap.lookup] at absent
      split at absent
      · contradiction
      · rename_i differ
        exact List.not_mem_cons_of_ne_of_not_mem differ (ih absent)

/-- Among distinct keys a key has one disposal. -/
theorem eq_of_mem (distinct : disposals.keys.Nodup) {callback' : κ}
    (first : (key, callback) ∈ disposals) (second : (key, callback') ∈ disposals) :
    callback = callback' := by
  have same := List.inj_on_of_nodup_map distinct first second rfl
  exact (Prod.mk.inj same).2

theorem callback?_of_mem (distinct : disposals.keys.Nodup) (member : (key, callback) ∈ disposals) :
    disposals.callback? key = some callback := by
  cases found : disposals.callback? key with
  | none => exact absurd (mem_keys_of_mem member) (not_mem_keys_of_callback? found)
  | some callback' => rw [eq_of_mem distinct (mem_of_callback? found) member]

theorem keys_filter_sublist (keep : Name × κ → Bool) :
    (keys (disposals.filter keep)).Sublist disposals.keys :=
  List.filter_sublist.map Prod.fst

/-! ## Order -/

/-- One key stands before another. -/
def Before (disposals : Disposals κ) (first second : Name) : Prop :=
  [first, second].Sublist disposals.keys

theorem before_append {first second : Disposals κ} {earlier later : Name}
    (member : earlier ∈ first.keys) (member' : later ∈ second.keys) :
    Before (first ++ second) earlier later := by
  rw [Before, keys, List.map_append]
  exact (List.singleton_sublist.mpr member).append (List.singleton_sublist.mpr member')

/-- Of two keys, one stands before the other. -/
theorem before_or_before {first second : Name} (member : first ∈ disposals.keys)
    (member' : second ∈ disposals.keys) (differ : first ≠ second) :
    disposals.Before first second ∨ disposals.Before second first := by
  rcases List.append_of_mem member with ⟨before, after, split⟩
  rw [Before, Before, split]
  rw [split, List.mem_append, List.mem_cons] at member'
  rcases member' with earlier | same | later
  · right
    exact (List.singleton_sublist.mpr earlier).append
      (List.singleton_sublist.mpr List.mem_cons_self)
  · exact absurd same.symm differ
  · left
    exact (List.cons_sublist_cons.mpr (List.singleton_sublist.mpr later)).trans
      (List.sublist_append_right before _)

/-- Distinct keys do not stand before one another. -/
theorem not_before_of_before (distinct : disposals.keys.Nodup) {first second : Name}
    (before : disposals.Before first second) : ¬ disposals.Before second first := by
  intro after
  have order : disposals.keys.Pairwise fun k k' =>
      disposals.keys.idxOf k < disposals.keys.idxOf k' := by
    rw [List.pairwise_iff_getElem]
    intro i j hi hj less
    rwa [distinct.idxOf_getElem i hi, distinct.idxOf_getElem j hj]
  have less := List.pairwise_iff_forall_sublist.mp order before
  have less' := List.pairwise_iff_forall_sublist.mp order after
  omega

/-! ## Registrations -/

theorem keys_register (disposals : Disposals κ) (key : Name) (callback : κ) :
    (disposals.register key callback).keys =
      if key ∈ disposals.keys then disposals.keys else disposals.keys ++ [key] := by
  induction disposals with
  | nil => rfl
  | cons entry rest ih =>
      by_cases same : entry.1 = key
      · simp [register, keys, same]
      · rw [register, if_neg same]
        change entry.1 :: (register key callback rest).keys = _
        rw [ih]
        change _ = if key ∈ entry.1 :: keys rest then _ else _
        simp only [List.mem_cons, Ne.symm same, false_or]
        split <;> rfl

theorem callback?_register (disposals : Disposals κ) (key k : Name) (callback : κ) :
    (disposals.register key callback).callback? k =
      if k = key then some callback else disposals.callback? k := by
  induction disposals with
  | nil => rfl
  | cons entry rest ih =>
      simp only [callback?] at ih
      by_cases same : entry.1 = key
      · by_cases asked : k = key <;> simp [register, callback?, NameMap.lookup, same, asked]
      · simp only [register, same, if_false, callback?, NameMap.lookup, ih]
        by_cases asked : k = key
        · simp [asked, Ne.symm same]
        · simp [asked]

theorem nodup_keys_register (distinct : disposals.keys.Nodup) (key : Name) (callback : κ) :
    (disposals.register key callback).keys.Nodup := by
  rw [keys_register]
  split
  · exact distinct
  · rename_i absent
    exact List.nodup_append.mpr ⟨distinct, List.nodup_singleton key, by
      rintro k member _ last rfl
      exact absent (List.mem_singleton.mp last ▸ member)⟩

/-- The disposals after a row of registrations. -/
def ofRegistrations (registrations : List (Name × κ)) : Disposals κ :=
  registrations.foldl (fun disposals entry => disposals.register entry.1 entry.2) []

theorem ofRegistrations_concat (registrations : List (Name × κ)) (entry : Name × κ) :
    ofRegistrations (registrations ++ [entry]) =
      (ofRegistrations registrations).register entry.1 entry.2 := by
  simp [ofRegistrations]

theorem nodup_keys_ofRegistrations (registrations : List (Name × κ)) :
    (ofRegistrations registrations).keys.Nodup := by
  induction registrations using List.reverseRecOn with
  | nil => exact List.nodup_nil
  | append_singleton registrations entry ih =>
      rw [ofRegistrations_concat]
      exact nodup_keys_register ih entry.1 entry.2

theorem mem_keys_ofRegistrations (registrations : List (Name × κ)) (key : Name) :
    key ∈ (ofRegistrations registrations).keys ↔ key ∈ registrations.map Prod.fst := by
  induction registrations using List.reverseRecOn with
  | nil => simp [ofRegistrations, keys]
  | append_singleton registrations entry ih =>
      rw [ofRegistrations_concat, keys_register, List.map_append, List.mem_append, ← ih]
      split
      · rename_i listed
        constructor
        · exact .inl
        · rintro (member | last)
          · exact member
          · exact List.mem_singleton.mp last ▸ listed
      · rw [List.mem_append]
        rfl

/-- The disposal of a key is the one that was registered last. -/
theorem callback?_ofRegistrations (registrations : List (Name × κ)) (key : Name) :
    (ofRegistrations registrations).callback? key = NameMap.lookup key registrations.reverse := by
  induction registrations using List.reverseRecOn with
  | nil => rfl
  | append_singleton registrations entry ih =>
      rw [ofRegistrations_concat, callback?_register, List.reverse_append, ih]
      rfl

/-- The keys stand in the order in which they were registered first. -/
theorem firstRegistered_order (registrations : List (Name × κ)) :
    (ofRegistrations registrations).keys.Pairwise fun earlier later =>
      (registrations.map Prod.fst).idxOf earlier < (registrations.map Prod.fst).idxOf later := by
  induction registrations using List.reverseRecOn with
  | nil => exact .nil
  | append_singleton registrations entry ih =>
      have earliest : ∀ k ∈ (ofRegistrations registrations).keys,
          ((registrations ++ [entry]).map Prod.fst).idxOf k =
            (registrations.map Prod.fst).idxOf k := by
        intro k listed
        rw [List.map_append]
        exact List.idxOf_append_of_mem ((mem_keys_ofRegistrations registrations k).mp listed)
      have kept : (ofRegistrations registrations).keys.Pairwise fun earlier later =>
          ((registrations ++ [entry]).map Prod.fst).idxOf earlier <
            ((registrations ++ [entry]).map Prod.fst).idxOf later := by
        refine ih.imp_of_mem ?_
        intro earlier later listed listed' before
        rwa [earliest earlier listed, earliest later listed']
      rw [ofRegistrations_concat, keys_register]
      split
      · exact kept
      · rename_i fresh
        refine List.pairwise_append.mpr ⟨kept, List.pairwise_singleton _ _, ?_⟩
        intro k listed _ last
        rw [List.mem_singleton.mp last, earliest k listed, List.map_append,
          List.idxOf_append_of_notMem (mt (mem_keys_ofRegistrations _ _).mpr fresh)]
        have within := List.idxOf_lt_length_iff.mpr ((mem_keys_ofRegistrations _ k).mp listed)
        omega

end Disposals

/-! ## Distinct keys -/

namespace Registry

/-- A teardown only takes disposals off the list. -/
theorem keys_teardown_sublist (r : Registry κ) (tasks : List (Task κ)) :
    (r.teardown tasks).value.1.disposals.keys.Sublist r.disposals.keys := by
  induction r, tasks using Registry.teardown.induct with
  | case1 r => simp [teardown]
  | case2 r key callback rest => simp [teardown]
  | case3 r key rest _ _ ih | case4 r key rest _ _ ih =>
      rw [value_teardown_destroy]
      exact ih.trans (Disposals.keys_filter_sublist _)
  | case5 r key rest ih =>
      rw [teardown]
      exact ih
  | case6 r key rest ih =>
      rw [teardown]
      exact ih
  | case7 r rest ih =>
      rw [teardown]
      exact ih
  | case8 r rest ih =>
      rw [teardown]
      exact ih

theorem disposals_callCache (r : Registry κ) (call : CacheCall κ) :
    (r.callCache call).value.1.disposals = r.disposals := by
  cases call with
  | getEarly key => cases opened : r.cache.openEarly key <;> simp [callCache, opened, answer]
  | getOrCreate key factory =>
      cases factory with
      | none => rfl
      | some factory =>
          cases opened : (r.cache.openCreation key).value <;>
            simp [callCache, opened, answer, raise]
  | _ => rfl

theorem nodup_keys_callTeardown {r : Registry κ} (distinct : r.disposals.keys.Nodup)
    (call : TeardownCall κ) : (r.callTeardown call).value.1.disposals.keys.Nodup := by
  have torn : ∀ (r' : Registry κ) (tasks : List (Task κ)), r'.disposals = r.disposals →
      (r'.teardown tasks).value.1.disposals.keys.Nodup := by
    intro r' tasks same
    exact (r'.keys_teardown_sublist tasks).nodup (same ▸ distinct)
  cases call with
  | registerDisposal key callback =>
      cases callback with
      | none => exact distinct
      | some callback => exact Disposals.nodup_keys_register distinct key callback
  | hasDisposal | disposalCount => exact distinct
  | destroy key => exact torn r _ rfl
  | destroyAll | retire => exact torn _ _ rfl
  | close =>
      by_cases destroyed : r.destroyed
      · simp only [callTeardown, destroyed]
        exact distinct
      · simp only [callTeardown, destroyed]
        exact torn _ _ rfl

theorem nodup_keys_call {r : Registry κ} (distinct : r.disposals.keys.Nodup) (call : Call κ) :
    (r.call call).value.1.disposals.keys.Nodup := by
  cases call with
  | name => exact distinct
  | aliases call => exact distinct
  | tracker call =>
      cases granted : (call.run r.cache.tracker).value with
      | error cause => simpa [Registry.call, granted, raise] using distinct
      | ok result => simpa [Registry.call, granted, answer] using distinct
  | cache call =>
      rw [Registry.call, disposals_callCache]
      exact distinct
  | graph call => exact distinct
  | teardown call => exact nodup_keys_callTeardown distinct call

theorem nodup_keys_resume {r : Registry κ} (distinct : r.disposals.keys.Nodup)
    (outcome : Outcome) (frame : Frame κ) :
    (r.resume outcome frame).value.1.disposals.keys.Nodup := by
  cases frame with
  | creating key outermost => exact distinct
  | exposing key => cases outcome <;> exact distinct
  | disposing key rest => exact (r.keys_teardown_sublist rest).nodup distinct

end Registry

namespace Session

theorem nodup_keys_of_move? {s t : Session κ} {move : Move κ}
    (distinct : s.registry.disposals.keys.Nodup) (moved : s.move? move = some t) :
    t.registry.disposals.keys.Nodup := by
  cases move with
  | call c =>
      obtain rfl := Option.some.inj moved
      simpa [call] using Registry.nodup_keys_call distinct c
  | finish outcome =>
      rcases move?_finish_eq_some_iff.mp moved with ⟨frame, rest, _, rfl⟩
      simpa using Registry.nodup_keys_resume distinct outcome frame
  | raise cause | attach fault others =>
      obtain rfl := Option.some.inj moved
      exact distinct

/-- Whatever has been done to a new registry, no key has two disposals. -/
theorem distinct_of_reaches {s : Session κ} {name : Name} {allowOverriding : Bool}
    {ledger : Ledger} (reached : (begin name allowOverriding ledger).Reaches s) :
    s.registry.disposals.keys.Nodup := by
  rcases reached with ⟨moves, moved⟩
  have new : (begin (κ := κ) name allowOverriding ledger).registry.disposals.keys.Nodup :=
    List.nodup_nil
  exact invariant (fun _ _ _ distinct moved => nodup_keys_of_move? distinct moved) new moved

end Session

end Lifecycle
