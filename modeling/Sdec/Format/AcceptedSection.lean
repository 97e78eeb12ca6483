import Sdec.Codec.DeltaDecode
import Sdec.Format.Accepted
import Sdec.Format.Entity

/-!
# What the section decoders accept

What is known of the entities and updates that a section decoder returns for a body of which nothing
is known. Entities ascend strictly and are well-formed, updates name fields of the schema with
values in range, and a create section that is written anew takes no more room than the one that was
read.
-/

namespace Sdec

open Rust Bits Bitstream Codec Wire Sorted

variable {build : Build} {schema : Schema} {limits : CodecLimits} {c : Nat} {risk : Prop}

/-- The schemas whose values are read without overflow. -/
def Schema.Safe (schema : Schema) : Prop :=
  ∀ definition ∈ schema.components, ∀ field ∈ definition.fields, field.codec.Safe

instance (schema : Schema) : Decidable schema.Safe :=
  inferInstanceAs (Decidable (∀ definition ∈ schema.components, ∀ field ∈ definition.fields,
    field.codec.Safe))

/-- The risk of a field is a risk of its schema. -/
theorem Schema.risk_of_field {definition : ComponentDef}
    (hdefinition : definition ∈ schema.components)
    (hrisk : build.overflowChecks → ¬ schema.Safe → risk) (hchecks : build.overflowChecks)
    (field : FieldDef) (hfield : field ∈ definition.fields) (hnsafe : ¬ field.codec.Safe) : risk :=
  hrisk hchecks fun hsafe => hnsafe (hsafe definition hdefinition field hfield)

/-! ## The frame -/

/-- What a section decoder returns, its entries have yielded behind a count within the limit. The
section that starts with the canonical count and goes on with their layout is no longer than the
body. -/
theorem read_section_ensures {α : Type} {tag : SectionTag} {kind : LimitKind} {limit : Nat}
    {body : List UInt8} {readEntries : Nat → Call CodecError BitReader α}
    {post : Nat → α → Layout → Prop}
    (hread : ∀ count c, count ≤ limit → Yields c (readEntries count) (post count) risk) :
    Ensures (readSection tag limits kind limit body readEntries) (fun a => ∃ count items,
      count < 2 ^ 32 ∧ count ≤ limit ∧ post count a items ∧ body.length ≤ limits.maxSectionBytes
        ∧ stop 0 (countedLayout count items) ≤ 8 * body.length) (PanicsOnlyIf risk) := by
  unfold readSection
  refine Ensures.check (fun _ => panics_only_if_err _) fun hmax => ?_
  refine (Yields.eval_on (fun a items => ∃ count more, count < 2 ^ 32 ∧ count ≤ limit
    ∧ post count a more ∧ items = countedLayout count more) ?_).imp ?_
  · refine yields_align_to_byte.safe.map_err.bind_layout fun _ _ => ?_
    refine yields_read_varu32.safe.map_err.bind_layout fun count _ => ?_
    refine Yields.check fun hlimit => ?_
    refine (hread count.toNat _ (Nat.le_of_not_lt hlimit)).bind fun a more ha => ?_
    refine yields_align_to_byte.safe.map_err.bind_layout fun _ _ => Yields.get fun reader => ?_
    refine Yields.check fun _ => Yields.pure ?_
    refine ⟨count.toNat, more, count.toNat_lt, Nat.le_of_not_lt hlimit, ha, ?_⟩
    rw [countedLayout, UInt32.ofNat_toNat, List.append_nil, List.singleton_append]
  · intro a h
    obtain ⟨items, ⟨count, more, hcount, hlimit, ha, hitems⟩, hstop⟩ := h
    exact ⟨count, more, hcount, hlimit, ha, Nat.le_of_not_lt hmax, hitems ▸ hstop⟩

theorem ensure_after_ensures (prev : Option UInt32) (id : UInt32) :
    Ensures (ensureAfter prev id) (fun _ => ∀ p, prev = some p → p < id) (PanicsOnlyIf risk) := by
  cases h : ensureAfter prev id with
  | ok u => exact ensure_after_eq_ok.mp h
  | error e =>
      unfold ensureAfter at h
      split at h
      · cases h
      · split at h
        · cases h
          exact panics_only_if_err _
        · cases h

/-- The loop over entries whose ids ascend. -/
theorem yields_read_ascending {α : Type} {readEntry : UInt32 → Call CodecError BitReader α}
    (id : α → UInt32) (post : α → Layout → Prop)
    (hread : ∀ key c, Yields c (readEntry key) (fun a items => id a = key ∧ post a items) risk)
    (count : Nat) (prev : Option UInt32) :
    Yields c (readAscending readEntry count prev) (fun entries items =>
      entries.length = count ∧ AscendFrom (· < ·) prev (entries.map id)
        ∧ Sequence (fun a items => ∃ more, post a more
          ∧ items = .align :: (bytes (leBytes 4 (id a).toNat) ++ more)) entries items) risk := by
  induction count generalizing c prev with
  | zero => exact Yields.pure ⟨rfl, ascend_from_nil, .nil⟩
  | succ count ih =>
      unfold readAscending
      refine yields_align_to_byte.safe.map_err.bind_layout fun _ _ => ?_
      refine yields_read_u32_aligned.safe.map_err.bind_layout fun key _ => ?_
      refine Yields.lift (ensure_after_ensures prev key) fun _ hafter => ?_
      refine (hread key _).bind fun a more hentry => ?_
      obtain ⟨hid, ha⟩ := hentry
      refine (ih (some key)).bind fun entries rest hrest => Yields.pure ?_
      obtain ⟨hcount, hascend, hentries⟩ := hrest
      refine ⟨by rw [List.length_cons, hcount], ?_, ?_⟩
      · rw [List.map_cons, hid]
        exact ids_ascend_cons.mpr ⟨hafter, hascend⟩
      · have hhead : .align :: (bytes (leBytes 4 key.toNat) ++ more)
            = .align :: (bytes (leBytes 4 (id a).toNat) ++ more) := by rw [hid]
        have hsequence := Sequence.cons ⟨more, ha, hhead⟩ hentries
        simpa only [List.append_nil, List.cons_append, List.nil_append, List.append_assoc]
          using hsequence

/-! ## Created entities -/

/-- An entity of the schema whose components are within the limits. -/
structure EntitySnapshot.Accepted (schema : Schema) (limits : CodecLimits)
    (entity : EntitySnapshot) :
    Prop where
  wellFormed : entity.WellFormed schema
  fields : ∀ component ∈ entity.components,
    component.fields.length ≤ limits.maxFieldsPerComponent

/-- Looking up the components that were picked from the schema finds them again. -/
theorem filterMap_find_picks {definitions : List ComponentDef}
    (hids : (definitions.map ComponentDef.id).Nodup)
    {picks : List (ComponentDef × ComponentSnapshot)}
    (hsub : (picks.map Prod.fst).Sublist definitions) (hid : ∀ p ∈ picks, p.2.id = p.1.id) :
    (definitions.filterMap fun d =>
      ((picks.map Prod.snd).find? fun component => component.id = d.id).map (Prod.mk d))
        = picks := by
  induction definitions generalizing picks with
  | nil =>
      obtain rfl := List.map_eq_nil_iff.mp (List.sublist_nil.mp hsub)
      rfl
  | cons definition definitions ih =>
      rw [List.map_cons, List.nodup_cons] at hids
      rw [List.filterMap_cons]
      rcases List.sublist_cons_iff.mp hsub with hsub | ⟨rest, hpicks, hsub⟩
      · have hnone : ((picks.map Prod.snd).find? fun component => component.id = definition.id)
            = none := by
          rw [List.find?_eq_none]
          intro component hcomponent
          obtain ⟨p, hp, rfl⟩ := List.mem_map.mp hcomponent
          have hmem := hsub.subset (List.mem_map_of_mem hp)
          have hne : p.2.id ≠ definition.id := fun h =>
            hids.1 (h ▸ hid p hp ▸ List.mem_map_of_mem hmem)
          simpa using hne
        rw [hnone]
        exact ih hids.2 hsub hid
      · obtain ⟨p, picks, rfl, rfl, rfl⟩ := List.map_eq_cons_iff.mp hpicks
        have hid := List.forall_mem_cons.mp hid
        have hfirst : (((p :: picks).map Prod.snd).find? fun component => component.id = p.1.id)
            = some p.2 := by
          rw [List.map_cons, List.find?_cons_of_pos (by simpa using hid.1)]
        have hothers : ∀ d ∈ definitions,
            (((p :: picks).map Prod.snd).find? fun component => component.id = d.id).map (Prod.mk d)
              = ((picks.map Prod.snd).find? fun component => component.id = d.id).map
                (Prod.mk d) := by
          intro d hd
          have hne : ¬ p.2.id = d.id := fun h =>
            hids.1 (hid.1 ▸ h ▸ List.mem_map_of_mem hd)
          rw [List.map_cons, List.find?_cons_of_neg (by simpa using hne)]
        rw [hfirst, List.filterMap_congr hothers, ih hids.2 hsub hid.2]
        rfl

/-- The components of an entity, as both decoders of entities read them. -/
theorem yields_read_entity (hschema : schema.Valid)
    (hrisk : build.overflowChecks → ¬ schema.Safe → risk) (key : UInt32) :
    Yields c (do
      let componentMask ← readMask schema.components.length .componentMask
      let components ← readComponents (fun component => do
        let fields ← decodeComponentFields build component limits
        return ComponentSnapshot.mk component.id fields) componentMask 0 schema.components
      return EntitySnapshot.mk ⟨key⟩ components)
      (fun entity items => (entity.id.raw = key ∧ entity.Accepted schema limits)
        ∧ items = componentsLayout schema (denseContent entity)) risk := by
  have hcomponent : ∀ d ∈ schema.components, ∀ c, Yields c (do
      let fields ← decodeComponentFields build d limits
      return ComponentSnapshot.mk d.id fields)
      (fun component items => (component.WellFormed d
        ∧ component.fields.length ≤ limits.maxFieldsPerComponent)
        ∧ items = denseLayout d component.fields) risk := by
    intro d hd c
    refine (yields_decode_component_fields (hschema.components d hd)
      (Schema.risk_of_field hd hrisk)).bind_layout fun fields hfields => Yields.pure ?_
    exact ⟨⟨⟨rfl, hfields.1⟩, hfields.1.length_eq ▸ hfields.2⟩, by rw [List.append_nil]⟩
  refine Yields.of_stop_eq ((yields_read_mask _ _).safe.bind_layout fun mask hmask => ?_)
  refine (yields_read_components _ mask 0 hcomponent (by omega)).bind
    fun components more ⟨picks, hpicks, hsub, hsequence⟩ => Yields.pure ?_
  have hgood : ∀ p ∈ picks, p.2.WellFormed p.1
      ∧ p.2.fields.length ≤ limits.maxFieldsPerComponent := fun p hp =>
    have ⟨_, h⟩ := hsequence.forall_mem p hp
    h.1
  have hfind := filterMap_find_picks hschema.componentIds hsub fun p hp => (hgood p hp).1.id
  rw [← hpicks] at hfind
  refine ⟨⟨rfl, ?_, ?_⟩, ?_⟩
  · refine List.sublistForall₂_iff.mpr ⟨picks.map Prod.fst, ?_, hsub⟩
    rw [hpicks, List.forall₂_map_left_iff, List.forall₂_map_right_iff, List.forall₂_same]
    exact fun p hp => (hgood p hp).1
  · intro component hcomponent
    rw [hpicks] at hcomponent
    obtain ⟨p, hp, rfl⟩ := List.mem_map.mp hcomponent
    exact (hgood p hp).2
  · have hcontents : (schema.components.flatMap fun d =>
        (denseContent ⟨⟨key⟩, components⟩ d).getD []) = more := by
      rw [hsequence.eq_flatMap (fun p => denseLayout p.1 p.2.fields)
        fun p _ items h => h.2]
      conv_rhs => rw [← hfind]
      rw [flatMap_filterMap]
      refine List.flatMap_congr fun d _ => ?_
      rw [denseContent, findComponent]
      cases components.find? fun component => component.id = d.id with
      | none => rfl
      | some component => exact (List.append_nil _).symm
    rw [componentsLayout, hcontents, List.append_nil, stop_append, stop_append, stop_flags,
      stop_flags, hmask, List.length_map]

/-- What a create section decodes to. -/
structure AcceptedCreates (schema : Schema) (limits : CodecLimits) (body : List UInt8)
    (entities : List EntitySnapshot) : Prop where
  ascending : Ascending entities
  accepted : ∀ entity ∈ entities, entity.Accepted schema limits
  count : entities.length ≤ limits.maxEntitiesCreate
  size : body.length ≤ limits.maxSectionBytes
  layout : stop 0 (countedLayout entities.length (createLayout schema entities)) ≤ 8 * body.length

/-- The entries of a create section. -/
theorem accepted_creates_of_entries {body : List UInt8} {entities : List EntitySnapshot}
    {count : Nat} {items : Layout}
    (hcount : count ≤ limits.maxEntitiesCreate)
    (hlength : entities.length = count)
    (hascend : AscendFrom (· < ·) none (entities.map fun entity => entity.id.raw))
    (hsequence : Sequence (fun entity items => ∃ more, (entity.Accepted schema limits
        ∧ more = componentsLayout schema (denseContent entity))
      ∧ items = .align :: (bytes (leBytes 4 entity.id.raw.toNat) ++ more)) entities items)
    (hsize : body.length ≤ limits.maxSectionBytes)
    (hstop : stop 0 (countedLayout count items) ≤ 8 * body.length) :
    AcceptedCreates schema limits body entities where
  ascending := List.pairwise_map.mp (ascend_from_none.mp hascend)
  accepted := fun entity hentity =>
    have ⟨_, _, h, _⟩ := hsequence.forall_mem entity hentity
    h.1
  count := hlength ▸ hcount
  size := hsize
  layout := by
    have hitems : items = createLayout schema entities := by
      refine hsequence.eq_flatMap _ fun entity _ items h => ?_
      obtain ⟨more, ⟨_, rfl⟩, rfl⟩ := h
      rfl
    rw [hlength, ← hitems]
    exact hstop

/-- The entries of a create section, as both decoders read them. -/
theorem yields_read_entities (hschema : schema.Valid)
    (hrisk : build.overflowChecks → ¬ schema.Safe → risk) (count : Nat) :
    Yields c (readAscending (fun entityId => do
      let componentMask ← readMask schema.components.length .componentMask
      let components ← readComponents (fun component => do
        let fields ← decodeComponentFields build component limits
        return ComponentSnapshot.mk component.id fields) componentMask 0 schema.components
      return EntitySnapshot.mk ⟨entityId⟩ components) count none)
      (fun entities items => entities.length = count
        ∧ AscendFrom (· < ·) none (entities.map fun entity => entity.id.raw)
        ∧ Sequence (fun entity items => ∃ more, (entity.Accepted schema limits
            ∧ more = componentsLayout schema (denseContent entity))
          ∧ items = .align :: (bytes (leBytes 4 entity.id.raw.toNat) ++ more)) entities items)
            risk :=
  yields_read_ascending (fun entity : EntitySnapshot => entity.id.raw) _ (fun key _ =>
    (yields_read_entity hschema hrisk key).imp fun _ _ h => ⟨h.1.1, h.1.2, h.2⟩) count none

theorem decode_full_create_section_ensures (hschema : schema.Valid)
    (hrisk : build.overflowChecks → ¬ schema.Safe → risk) (body : List UInt8) :
    Ensures (Full.decodeCreateSection build schema body limits)
      (fun entities => AcceptedCreates schema limits body entities
        ∧ schema.components.length ≤ limits.maxComponentsPerEntity) (PanicsOnlyIf risk) := by
  unfold Full.decodeCreateSection
  refine (read_section_ensures fun count c _ => Yields.check fun hcomponents =>
    (yields_read_entities hschema hrisk count).imp fun entities items h =>
      And.intro (Nat.le_of_not_lt hcomponents) h).imp ?_
  intro entities ⟨count, items, _, hcount, ⟨hcomponents, hlength, hascend, hsequence⟩, hsize,
    hstop⟩
  exact ⟨accepted_creates_of_entries hcount hlength hascend hsequence hsize hstop, hcomponents⟩

theorem decode_create_section_ensures (hschema : schema.Valid)
    (hrisk : build.overflowChecks → ¬ schema.Safe → risk) (body : List UInt8) :
    Ensures (Delta.decodeCreateSection build schema body limits)
      (AcceptedCreates schema limits body) (PanicsOnlyIf risk) := by
  unfold Delta.decodeCreateSection
  simp only [read_known_entity_eq]
  refine (read_section_ensures fun count c _ => yields_read_entities hschema hrisk count).imp ?_
  intro entities ⟨count, items, _, hcount, ⟨hlength, hascend, hsequence⟩, hsize, hstop⟩
  exact accepted_creates_of_entries hcount hlength hascend hsequence hsize hstop

end Sdec
