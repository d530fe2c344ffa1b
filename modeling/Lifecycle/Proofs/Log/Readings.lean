import Lifecycle.Log.Plan
import Lifecycle.Proofs.Log.Openings

/-!
# What a log section asks for

A log section names, for each tag and for all tags, the sinks and the level that it wants
(`sinksIn`, `levelIn`).  A reading that goes through to its end gives exactly these to the tags,
whatever the order of the sections: the section of a tag does nothing to the other tags, and the
section for all tags is read first (`stateOf_afterOrders`).
-/

namespace Lifecycle

/-- The field of a given name, or the empty document. -/
def Document.fieldOrNull (d : Document) (key : String) : Document :=
  match d.field? key with
  | .ok (some value) => value
  | _ => .null

namespace Log

/-- The sinks that a section lists for a tag. -/
def sinksIn (tag : Name) (section_ : Document) : List Sink :=
  (section_.fieldOrNull "sinks").items.filterMap fun item =>
    (readSink tag item).toOption.bind Except.toOption

/-- The level that a section gives. -/
def levelIn (section_ : Document) : Option Level :=
  match section_.field? "level" with
  | .ok (some level) => level.text.toOption.map Level.ofName
  | _ => none

/-- The section of a tag, or the empty document. -/
def sectionFor (log : Document) (tag : Name) : Document := (log.sections.lookup tag).getD .null

/-- The sinks for the records of a tag, by a log section: those of the tag, then those for all tags,
or the console if there are none. -/
def sinksFor (log : Document) (tag : Name) : List Sink :=
  let sinks := sinksIn tag (sectionFor log tag) ++ sinksIn globalTag (log.fieldOrNull globalTag)
  if sinks.isEmpty then [.console] else sinks

/-- The level of a tag by a log section: its own, or the one for all tags, or `info`. -/
def levelFor (log : Document) (tag : Name) : Level :=
  (levelIn (sectionFor log tag)).getD ((levelIn (log.fieldOrNull globalTag)).getD .info)

/-! ## Plans that go through -/

namespace Plan

variable {α β : Type} {plan : Plan α} {next : α → Plan β} {a : α} {b : β}

theorem result_bind_eq_ok :
    (plan >>= next).result = .ok b ↔ ∃ a, plan.result = .ok a ∧ (next a).result = .ok b := by
  change (Plan.bind plan next).result = .ok b ↔ _
  rw [Plan.bind]
  cases plan.result with
  | error e => simp
  | ok a => simp

theorem orders_bind (goes : plan.result = .ok a) :
    (plan >>= next).orders = plan.orders ++ (next a).orders := by
  change (Plan.bind plan next).orders = _
  simp [Plan.bind, goes]

theorem result_forEach_eq_ok {items : List α} {act : α → Plan Unit} :
    (forEach items act).result = .ok () ↔ ∀ item ∈ items, (act item).result = .ok () := by
  induction items with
  | nil => simp [forEach, pure]
  | cons item rest ih =>
      rw [forEach, result_bind_eq_ok, List.forall_mem_cons, ← ih]
      constructor
      · rintro ⟨⟨⟩, now, later⟩
        exact ⟨now, later⟩
      · rintro ⟨now, later⟩
        exact ⟨(), now, later⟩

theorem orders_forEach {items : List α} {act : α → Plan Unit}
    (goes : (forEach items act).result = .ok ()) :
    (forEach items act).orders = items.flatMap fun item => (act item).orders := by
  induction items with
  | nil => rfl
  | cons item rest ih =>
      rw [result_forEach_eq_ok] at goes
      have later : (forEach rest act).result = .ok () :=
        result_forEach_eq_ok.mpr fun item member => goes item (List.mem_cons_of_mem _ member)
      rw [forEach, orders_bind (goes item List.mem_cons_self), ih later, List.flatMap_cons]

end Plan

/-! ## What orders make of the state of a tag -/

namespace TagState

/-- The state of a tag after an order. -/
def obey (tag : Name) (s : TagState) : Order → TagState
  | .setLevel tag' level => s.follow tag (.setLevel tag' level)
  | .addSink tag' sink => s.follow tag (.addSink tag' sink)
  | .openChannel tag' => if tag = tag' then s.opened else s
  | .complain _ => s

/-- The state of a tag with further sinks for a tag. -/
def withSinks (tag tag' : Name) (s : TagState) (sinks : List Sink) : TagState :=
  { s with
    sinks := s.sinks ++ if tag = tag' then sinks else []
    sharedSinks := s.sharedSinks ++ if globalTag = tag' then sinks else [] }

variable {s : TagState} {tag tag' : Name} {section_ : Document}

@[simp]
theorem withSinks_nil (tag tag' : Name) (s : TagState) : s.withSinks tag tag' [] = s := by
  simp [withSinks]

theorem withSinks_append (tag tag' : Name) (s : TagState) (sinks sinks' : List Sink) :
    s.withSinks tag tag' (sinks ++ sinks') =
      (s.withSinks tag tag' sinks).withSinks tag tag' sinks' := by
  simp only [withSinks, List.append_assoc]
  congr 2
  · split <;> simp
  · split <;> simp

theorem withSinks_of_ne (other : tag ≠ tag') (ordinary : tag' ≠ globalTag) (s : TagState)
    (sinks : List Sink) : s.withSinks tag tag' sinks = s := by
  simp [withSinks, other, ordinary.symm]

/-- The sinks that a section lists are added. -/
theorem obey_planSinks (goes : (planSinks tag' section_).result = .ok ()) (s : TagState) :
    (planSinks tag' section_).orders.foldl (obey tag) s =
      s.withSinks tag tag' (sinksIn tag' section_) := by
  rw [planSinks, Plan.result_bind_eq_ok] at goes
  obtain ⟨field, found, goes⟩ := goes
  have found : section_.field? "sinks" = .ok field := found
  rw [planSinks, Plan.orders_bind found, sinksIn, Document.fieldOrNull, found]
  cases field with
  | none => simp [Plan.read, pure, Document.items]
  | some sinks =>
      simp only at goes ⊢
      rw [Plan.orders_forEach goes]
      rw [Plan.result_forEach_eq_ok] at goes
      simp only [Plan.read, List.nil_append]
      generalize sinks.items = items at goes ⊢
      induction items generalizing s with
      | nil => exact (withSinks_nil tag tag' s).symm
      | cons item rest ih =>
          obtain ⟨sink, read, -⟩ :=
            Plan.result_bind_eq_ok.mp (goes item List.mem_cons_self)
          have read : readSink tag' item = .ok sink := read
          rw [List.flatMap_cons, List.foldl_append,
            ih _ fun item member => goes item (List.mem_cons_of_mem _ member)]
          rw [Plan.orders_bind read]
          cases sink with
          | ok sink =>
              rw [List.filterMap_cons_some (b := sink) (by rw [read]; rfl),
                ← List.singleton_append, withSinks_append]
              rfl
          | error kind =>
              rw [List.filterMap_cons_none (by rw [read]; rfl)]
              rfl

/-- The level that a section gives is set. -/
theorem obey_planLevel (goes : (planLevel tag' section_).result = .ok ()) (s : TagState) :
    (planLevel tag' section_).orders.foldl (obey tag) s =
      (levelIn section_).elim s fun level => s.follow tag (.setLevel tag' level) := by
  rw [planLevel, Plan.result_bind_eq_ok] at goes
  obtain ⟨field, found, goes⟩ := goes
  have found : section_.field? "level" = .ok field := found
  rw [planLevel, Plan.orders_bind found, levelIn, found]
  cases field with
  | none => rfl
  | some level =>
      obtain ⟨word, read, -⟩ := Plan.result_bind_eq_ok.mp goes
      have read : level.text = .ok word := read
      simp only [Plan.read, List.nil_append]
      rw [Plan.orders_bind read, read]
      rfl

/-- The state of a tag with what its section asks for. -/
def withSection (tag : Name) (s : TagState) (section_ : Document) : TagState :=
  let s := (s.withSinks tag tag (sinksIn tag section_)).opened
  (levelIn section_).elim s fun level => s.follow tag (.setLevel tag level)

/-- The section of a tag is about that tag alone. -/
theorem obey_planTag {entry : Name × Document} (ordinary : tag ≠ globalTag)
    (goes : (planTag entry).result = .ok ()) (s : TagState) :
    (planTag entry).orders.foldl (obey tag) s =
      if tag = entry.1 then s.withSection tag entry.2 else s := by
  obtain ⟨tag', section_⟩ := entry
  by_cases shared : tag' = globalTag
  · subst shared
    rw [if_neg ordinary]
    rfl
  · rw [planTag, if_neg shared] at goes ⊢
    obtain ⟨⟨⟩, sinks, goes⟩ := Plan.result_bind_eq_ok.mp goes
    obtain ⟨⟨⟩, opens, level⟩ := Plan.result_bind_eq_ok.mp goes
    rw [Plan.orders_bind sinks, Plan.orders_bind opens, List.foldl_append, List.foldl_append,
      obey_planSinks sinks, obey_planLevel level]
    by_cases own : tag = tag'
    · subst own
      simp [withSection, Plan.order, obey]
    · rw [if_neg own, withSinks_of_ne own shared]
      simp only [Plan.order, List.foldl_cons, List.foldl_nil, obey, if_neg own]
      cases levelIn section_ <;> simp [follow, shared, own]

/-- The section for all tags gives a level and sinks to all tags. -/
theorem obey_planGlobal {log : Document} (ordinary : tag ≠ globalTag)
    (goes : (planGlobal log).result = .ok ()) (s : TagState) :
    (planGlobal log).orders.foldl (obey tag) s =
      { s with
        sharedLevel := (levelIn (log.fieldOrNull globalTag)).getD s.sharedLevel
        sharedSinks := s.sharedSinks ++ sinksIn globalTag (log.fieldOrNull globalTag) } := by
  obtain ⟨field, found, goes⟩ := Plan.result_bind_eq_ok.mp goes
  have found : log.field? globalTag = .ok field := found
  rw [planGlobal, Plan.orders_bind found, Document.fieldOrNull, found]
  cases field with
  | none => simp [Plan.read, pure, sinksIn, levelIn, Document.fieldOrNull, Document.field?,
      Document.items]
  | some section_ =>
      obtain ⟨⟨⟩, level, sinks⟩ := Plan.result_bind_eq_ok.mp goes
      simp only [Plan.read, List.nil_append]
      rw [Plan.orders_bind level, List.foldl_append, obey_planLevel level, obey_planSinks sinks]
      cases levelIn section_ <;> simp [follow, withSinks, ordinary]

/-- The sections of the tags give to each tag what its own section asks for. -/
theorem obey_sections {sections : List (Name × Document)} (ordinary : tag ≠ globalTag)
    (goes : ∀ entry ∈ sections, (planTag entry).result = .ok ())
    (distinct : (sections.map Prod.fst).Nodup) (s : TagState) :
    (sections.flatMap fun entry => (planTag entry).orders).foldl (obey tag) s =
      (sections.lookup tag).elim s (s.withSection tag) := by
  induction sections generalizing s with
  | nil => rfl
  | cons entry rest ih =>
      obtain ⟨new, distinct⟩ := List.nodup_cons.mp distinct
      have later := ih (fun entry member => goes entry (List.mem_cons_of_mem _ member)) distinct
      rw [List.flatMap_cons, List.foldl_append,
        obey_planTag ordinary (goes entry List.mem_cons_self), later, List.lookup_cons]
      by_cases own : tag = entry.1
      · have absent : rest.lookup tag = none := by
          rw [List.lookup_eq_none_iff]
          intro entry' member
          rw [bne_iff_ne, own]
          rintro same
          exact new (same ▸ List.mem_map_of_mem member)
        rw [if_pos own, absent, beq_iff_eq.mpr own]
        rfl
      · have other : (tag == entry.1) = false := beq_false_of_ne own
        rw [if_neg own, other]

/-- A log section that is read to its end gives a tag the channel that it describes. -/
theorem next_obey_planLog {log : Document} (ordinary : tag ≠ globalTag)
    (goes : (planLog log).result = .ok ()) (distinct : (log.sections.map Prod.fst).Nodup)
    {s : TagState} (start : s = ⟨none, [], [], none, .info, false, false⟩) :
    let s' := (planLog log).orders.foldl (obey tag) s
    s'.next = ⟨sinksFor log tag, levelFor log tag⟩ ∧ s'.muted = false ∧ s'.closed = false := by
  obtain ⟨⟨⟩, shared, sections⟩ := Plan.result_bind_eq_ok.mp goes
  rw [planLog, Plan.orders_bind shared, Plan.orders_forEach sections, List.foldl_append,
    obey_planGlobal ordinary shared,
    obey_sections ordinary (Plan.result_forEach_eq_ok.mp sections) distinct, start]
  rw [sinksFor, levelFor, sectionFor]
  cases log.sections.lookup tag with
  | none => simp [next, fresh, sinksIn, levelIn, Document.fieldOrNull, Document.field?,
      Document.items]
  | some section_ =>
      simp only [Option.elim_some, withSection, Option.getD_some]
      cases levelIn section_ <;>
        simp [follow, withSinks, opened, next, fresh, leveled, ordinary, ordinary.symm,
          Channel.withLevel]

end TagState

/-- The state of a tag after orders is made from its state before. -/
theorem stateOf_afterOrders (routing : Router × ChannelTable) (tag : Name) (orders : List Order) :
    stateOf (orders.foldl Order.carryOut routing) tag =
      orders.foldl (TagState.obey tag) (stateOf routing tag) := by
  induction orders generalizing routing with
  | nil => rfl
  | cons order rest ih =>
      have now : stateOf (order.carryOut routing) tag = (stateOf routing tag).obey tag order := by
        cases order with
        | setLevel tag' level => exact stateOf_setLevel routing tag' level
        | addSink tag' sink => exact stateOf_addSink routing tag' sink
        | openChannel tag' => exact stateOf_openChannel routing tag tag'
        | complain kind => rfl
      rw [List.foldl_cons, ih, now, List.foldl_cons]

/-! ## The order of the sections -/

/-- A log section is read to its end exactly if each section is. -/
theorem result_planLog_eq_ok {log : Document} :
    (planLog log).result = .ok () ↔
      (planGlobal log).result = .ok () ∧
        ∀ entry ∈ log.sections, (planTag entry).result = .ok () := by
  rw [planLog, Plan.result_bind_eq_ok, ← Plan.result_forEach_eq_ok]
  constructor
  · rintro ⟨⟨⟩, shared, sections⟩
    exact ⟨shared, sections⟩
  · rintro ⟨shared, sections⟩
    exact ⟨(), shared, sections⟩

theorem lookup_eq_of_perm {fields fields' : List (String × Document)}
    (permuted : fields.Perm fields') (distinct : (fields.map Prod.fst).Nodup) (key : String) :
    fields.lookup key = fields'.lookup key := by
  induction permuted with
  | nil => rfl
  | cons field _ ih =>
      rw [List.lookup_cons, List.lookup_cons, ih (List.nodup_cons.mp distinct).2]
  | swap field field' rest =>
      have different : field.1 ≠ field'.1 := by
        rintro same
        simp [same] at distinct
      rw [List.lookup_cons, List.lookup_cons, List.lookup_cons, List.lookup_cons]
      cases first : key == field.1 <;> cases second : key == field'.1
      · rfl
      · rfl
      · rfl
      · exact absurd ((eq_of_beq first).symm.trans (eq_of_beq second)) different
  | trans first _ ih ih' =>
      exact (ih distinct).trans (ih' ((first.map Prod.fst).nodup_iff.mp distinct))

section

variable {sections sections' : List (String × Document)}

theorem fieldOrNull_eq_of_perm (permuted : sections.Perm sections')
    (distinct : (sections.map Prod.fst).Nodup) (key : String) :
    (Document.mapping sections).fieldOrNull key = (Document.mapping sections').fieldOrNull key := by
  simp only [Document.fieldOrNull, Document.field?, lookup_eq_of_perm permuted distinct]

/-- Log sections with the same entries in another order give a tag the same. -/
theorem channelFor_eq_of_perm (permuted : sections.Perm sections')
    (distinct : (sections.map Prod.fst).Nodup) (tag : Name) :
    sinksFor (.mapping sections) tag = sinksFor (.mapping sections') tag ∧
      levelFor (.mapping sections) tag = levelFor (.mapping sections') tag := by
  have own : sectionFor (.mapping sections) tag = sectionFor (.mapping sections') tag :=
    congrArg (fun own : Option Document => own.getD .null)
      (lookup_eq_of_perm permuted distinct tag)
  have shared := fieldOrNull_eq_of_perm permuted distinct globalTag
  rw [sinksFor, sinksFor, levelFor, levelFor, own, shared]
  exact ⟨rfl, rfl⟩

/-- Whether a log section can be read does not depend on the order of its entries. -/
theorem planLog_goes_of_perm (permuted : sections.Perm sections')
    (distinct : (sections.map Prod.fst).Nodup)
    (goes : (planLog (.mapping sections)).result = .ok ()) :
    (planLog (.mapping sections')).result = .ok () := by
  obtain ⟨shared, tags⟩ := result_planLog_eq_ok.mp goes
  refine result_planLog_eq_ok.mpr ⟨?_, ?_⟩
  · have same : (Document.mapping sections).field? globalTag =
        (Document.mapping sections').field? globalTag :=
      congrArg Except.ok (lookup_eq_of_perm permuted distinct globalTag)
    rw [planGlobal, ← same]
    exact shared
  · intro entry member
    exact tags entry (permuted.mem_iff.mpr member)

end

end Log

end Lifecycle
