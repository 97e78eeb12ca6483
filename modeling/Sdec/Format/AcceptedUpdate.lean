import Sdec.Format.AcceptedSection

/-!
# What the update decoders accept

What is known of the updates that the three update decoders return for a body of which nothing is
known. Every update names components of the schema, each of them once, and gives fields of these
values in the ranges of their codecs. The masked decoder meets the components in schema order; the
sparse ones group entries whose components ascend within an entity.
-/

namespace Sdec

open Rust Bits Bitstream Codec Wire Sorted

variable {build : Build} {schema : Schema} {limits : CodecLimits} {c : Nat} {risk : Prop}

/-- A field of a component, by its index, and a value in its range. -/
def ComponentDef.HoldsField (definition : ComponentDef) (p : Nat × FieldValue) : Prop :=
  ∃ field, definition.fields[p.1]? = some field ∧ field.codec.Contains p.2

/-- An update of a component of the schema, within the limits. -/
structure DeltaUpdateComponent.Accepted (schema : Schema) (limits : CodecLimits)
    (update : DeltaUpdateComponent) : Prop where
  known : ∃ definition ∈ schema.components, update.id = definition.id
    ∧ ∀ p ∈ update.fields, definition.HoldsField p
  fields : update.fields.length ≤ limits.maxFieldsPerComponent

/-- An update of an entity that names each component at most once. -/
structure DeltaUpdateEntity.Accepted (schema : Schema) (limits : CodecLimits)
    (update : DeltaUpdateEntity) : Prop where
  components : ∀ component ∈ update.components, component.Accepted schema limits
  distinct : (update.components.map DeltaUpdateComponent.id).Nodup

/-- The updates that an update section decodes to. -/
structure AcceptedUpdates (schema : Schema) (limits : CodecLimits)
    (updates : List DeltaUpdateEntity) :
    Prop where
  accepted : ∀ update ∈ updates, update.Accepted schema limits
  count : updates.length ≤ limits.maxEntitiesUpdate

/-- An update names no more components than the schema has. -/
theorem DeltaUpdateEntity.Accepted.length_le {update : DeltaUpdateEntity}
    (h : update.Accepted schema limits) : update.components.length ≤ schema.components.length := by
  have hsub :
      update.components.map DeltaUpdateComponent.id ⊆ schema.components.map ComponentDef.id := by
    intro id hid
    obtain ⟨component, hcomponent, rfl⟩ := List.mem_map.mp hid
    obtain ⟨definition, hdefinition, heq, _⟩ := (h.components component hcomponent).known
    rw [heq]
    exact List.mem_map_of_mem hdefinition
  simpa only [List.length_map] using (h.distinct.subperm hsub).length_le

/-! ## Masked updates -/

/-- The loop over the fields of a component whose bit of the mask is set. -/
theorem yields_read_changed_fields {definition : ComponentDef} (mask : List Bool) (idx : Nat)
    {fields : List FieldDef} (hfields : definition.fields.drop idx = fields)
    (hmask : idx + fields.length ≤ mask.length)
    (hvalid : ∀ field ∈ fields, field.codec.Valid)
    (hrisk : build.overflowChecks → ∀ field ∈ fields, ¬ field.codec.Safe → risk) :
    Yields c (Delta.readChangedFields build definition mask idx fields) (fun changed _ =>
      (∀ p ∈ changed, definition.HoldsField p) ∧ changed.length ≤ fields.length) risk := by
  induction fields generalizing c idx with
  | nil => exact Yields.pure ⟨fun p hp => (nomatch hp), Nat.le_refl _⟩
  | cons field fields ih =>
      rw [List.length_cons] at hmask
      obtain ⟨_, hfield, hdrop⟩ := drop_eq_cons hfields
      have hvalid := List.forall_mem_cons.mp hvalid
      have ih {c : Nat} : Yields c _ _ risk := ih (idx + 1) hdrop (by omega) hvalid.2
        fun hchecks f hf => hrisk hchecks f (List.mem_cons_of_mem _ hf)
      unfold Delta.readChangedFields
      refine Yields.index (by omega) fun bit _ => ?_
      cases bit with
      | true =>
          rw [if_pos rfl]
          refine (yields_read_field_value definition.id hvalid.1
            fun hchecks => hrisk hchecks field List.mem_cons_self).bind fun value _ hvalue => ?_
          refine ih.bind fun changed _ hchanged => Yields.pure ⟨?_, ?_⟩
          · exact List.forall_mem_cons.mpr ⟨⟨field, hfield, hvalue.1⟩, hchanged.1⟩
          · exact Nat.succ_le_succ hchanged.2
      | false =>
          rw [if_neg Bool.false_ne_true]
          exact ih.imp fun changed _ h => ⟨h.1, Nat.le_succ_of_le h.2⟩

/-- A changed component, within the limits. -/
theorem yields_decode_update_component {definition : ComponentDef} (hvalid : definition.Valid)
    (hrisk : build.overflowChecks → ∀ field ∈ definition.fields, ¬ field.codec.Safe → risk) :
    Yields c (Delta.decodeUpdateComponent build definition limits) (fun changed _ =>
      (∀ p ∈ changed, definition.HoldsField p) ∧ changed.length ≤ limits.maxFieldsPerComponent)
      risk := by
  unfold Delta.decodeUpdateComponent
  refine Yields.check fun hlimit => ?_
  refine (yields_read_mask _ _).safe.bind fun mask _ hmask => Yields.check fun _ => ?_
  refine (yields_read_changed_fields mask 0 List.drop_zero (by omega) hvalid.codecs hrisk).imp
    fun changed _ h => ?_
  exact ⟨h.1, by omega⟩

theorem decode_update_section_masked_ensures (hschema : schema.Valid)
    (hrisk : build.overflowChecks → ¬ schema.Safe → risk) (body : List UInt8) :
    Ensures (Delta.decodeUpdateSectionMasked build schema body limits)
      (AcceptedUpdates schema limits) (PanicsOnlyIf risk) := by
  unfold Delta.decodeUpdateSectionMasked
  refine (read_section_ensures fun count c _ => yields_read_ascending
    (fun update : DeltaUpdateEntity => update.id.raw)
    (fun update _ => update.Accepted schema limits) (fun key c => ?_) count none).imp ?_
  · refine (yields_read_mask _ _).safe.bind fun mask _ hmask => ?_
    refine (yields_read_components (fun definition update _ =>
      update.id = definition.id ∧ update.fields.length ≤ limits.maxFieldsPerComponent
        ∧ ∀ p ∈ update.fields, definition.HoldsField p) mask 0
      (fun definition hdefinition c => ?_) (by omega)).bind
      fun components _ ⟨picks, hpicks, hsub, hsequence⟩ => Yields.pure ⟨rfl, ?_, ?_⟩
    · refine (yields_decode_update_component (hschema.components definition hdefinition)
        (Schema.risk_of_field hdefinition hrisk)).bind fun changed _ h => Yields.pure ?_
      exact ⟨rfl, h.2, h.1⟩
    · intro component hcomponent
      rw [hpicks] at hcomponent
      obtain ⟨p, hp, rfl⟩ := List.mem_map.mp hcomponent
      obtain ⟨_, hid, hlength, hfields⟩ := hsequence.forall_mem p hp
      exact ⟨⟨p.1, hsub.subset (List.mem_map_of_mem hp), hid, hfields⟩, hlength⟩
    · have hids : components.map DeltaUpdateComponent.id
          = (picks.map Prod.fst).map ComponentDef.id := by
        rw [hpicks, List.map_map, List.map_map]
        refine List.map_congr_left fun p hp => ?_
        exact (hsequence.forall_mem p hp).elim fun _ h => h.1
      show (components.map DeltaUpdateComponent.id).Nodup
      rw [hids]
      exact hschema.componentIds.sublist (hsub.map ComponentDef.id)
  · intro updates ⟨count, items, _, hcount, ⟨hlength, _, hsequence⟩, _, _⟩
    refine ⟨fun update hupdate => ?_, hlength ▸ hcount⟩
    obtain ⟨_, _, h, _⟩ := hsequence.forall_mem update hupdate
    exact h

/-! ## Sparse updates -/

/-- A sparse encoding whose keys and indices are read without a panic. -/
structure SparseReaderSafe (format : Delta.SparseReader) : Prop where
  key : ∀ c, Yields c format.readKey (fun _ _ => True) False
  fieldIndex : ∀ definition c, Yields c (format.readIndex definition) (fun _ _ => True) False

theorem sparse_varint_reader_safe : SparseReaderSafe Delta.sparseVarintReader where
  key := fun c => by
    refine yields_read_u32_aligned.map_err.bind fun _ _ _ => ?_
    exact yields_read_u16_aligned.map_err.bind fun _ _ _ => Yields.pure trivial
  fieldIndex := fun _ c => by
    refine yields_align_to_byte.map_err.bind fun _ _ _ => ?_
    exact yields_read_varu32.map_err.bind fun _ _ _ => Yields.pure trivial

theorem sparse_packed_reader_safe : SparseReaderSafe Delta.sparsePackedReader where
  key := fun c => by
    refine yields_read_varu32.map_err.bind fun _ _ _ => ?_
    refine yields_read_varu32.map_err.bind fun _ _ _ => Yields.check fun _ => ?_
    exact Yields.pure trivial
  fieldIndex := fun definition c => by
    show Yields c (if indexBits definition = 0 then pure 0 else _) _ False
    by_cases hzero : indexBits definition = 0
    · rw [if_pos hzero]
      exact Yields.pure trivial
    · rw [if_neg hzero]
      exact (yields_read_bits _).map_err.bind fun _ _ _ => Yields.pure trivial

/-- The check of the order of two entries. -/
theorem ensure_entry_after_ensures (prev : Option (UInt32 × UInt16)) (entityId : UInt32)
    (componentRaw : UInt16) :
    Ensures (Delta.ensureEntryAfter prev entityId componentRaw)
      (fun _ => ∀ p, prev = some p → p.1 < entityId ∨ p.1 = entityId ∧ p.2 < componentRaw)
      (PanicsOnlyIf risk) := by
  unfold Delta.ensureEntryAfter
  cases prev with
  | none => exact fun p hp => nomatch hp
  | some prev =>
      obtain ⟨prevEntity, prevComponent⟩ := prev
      dsimp only
      by_cases hlt : entityId < prevEntity
      · rw [if_pos hlt]
        exact panics_only_if_err _
      by_cases hsame : entityId = prevEntity ∧ componentRaw ≤ prevComponent
      · rw [if_neg hlt, if_pos hsame]
        exact panics_only_if_err _
      · rw [if_neg hlt, if_neg hsame]
        intro p hp
        obtain rfl := Option.some.inj hp
        by_cases heq : entityId = prevEntity
        · exact .inr ⟨heq.symm, UInt16.not_le.mp fun h => hsame ⟨heq, h⟩⟩
        · exact .inl (UInt32.lt_of_le_of_ne (UInt32.not_lt.mp hlt) (Ne.symm heq))

theorem ensure_index_after_ensures (definition : ComponentDef) (prev : Option Nat)
    (fieldIndex : Nat) :
    Ensures (Delta.ensureIndexAfter definition prev fieldIndex)
      (fun _ => ∀ p, prev = some p → p < fieldIndex) (PanicsOnlyIf risk) := by
  unfold Delta.ensureIndexAfter
  cases prev with
  | none => exact fun p hp => by cases hp
  | some prev =>
      by_cases hle : fieldIndex ≤ prev
      · simp only [if_pos hle]
        exact panics_only_if_err _
      · simp only [if_neg hle]
        exact fun p hp => Option.some.inj hp ▸ Nat.lt_of_not_le hle

theorem parse_component_id_ensures (componentRaw : UInt16) :
    Ensures (Delta.parseComponentId componentRaw) (fun id => id.get = componentRaw)
      (PanicsOnlyIf risk) := by
  unfold Delta.parseComponentId ComponentId.new
  by_cases hzero : componentRaw ≠ 0
  · simp only [dif_pos hzero]
    rfl
  · simp only [dif_neg hzero]
    exact panics_only_if_err _

theorem find_definition_ensures (componentId : ComponentId) :
    Ensures (Delta.findDefinition schema componentId)
      (fun definition => definition ∈ schema.components ∧ definition.id = componentId)
      (PanicsOnlyIf risk) := by
  unfold Delta.findDefinition
  cases hfind : schema.components.find? fun component => component.id = componentId with
  | none => exact panics_only_if_err _
  | some definition =>
      exact ⟨List.mem_of_find?_eq_some hfind, by simpa using List.find?_some hfind⟩

/-- The indices of the fields of each component ascend. -/
def IndicesAscend (updates : List DeltaUpdateEntity) : Prop :=
  ∀ update ∈ updates, ∀ component ∈ update.components,
    (component.fields.map Prod.fst).Pairwise (· < ·)

/-- The loop over the fields of an entry. -/
theorem yields_read_sparse_fields {format : Delta.SparseReader} (hformat : SparseReaderSafe format)
    {definition : ComponentDef} (hvalid : definition.Valid)
    (hrisk : build.overflowChecks → ∀ field ∈ definition.fields, ¬ field.codec.Safe → risk)
    (count : Nat) (prev : Option Nat) :
    Yields c (Delta.readSparseFields build format definition count prev) (fun fields _ =>
      (∀ p ∈ fields, definition.HoldsField p) ∧ fields.length = count
        ∧ AscendFrom (· < ·) prev (fields.map Prod.fst)) risk := by
  induction count generalizing c prev with
  | zero => exact Yields.pure ⟨fun p hp => (nomatch hp), rfl, ascend_from_nil⟩
  | succ count ih =>
      unfold Delta.readSparseFields
      refine (hformat.fieldIndex definition c).safe.bind fun fieldIndex _ _ => ?_
      refine Yields.check fun hindex => ?_
      refine Yields.lift (ensure_index_after_ensures definition prev fieldIndex) fun _ hafter => ?_
      refine Yields.index (Nat.lt_of_not_le hindex) fun field hfield => ?_
      have hmem := List.mem_of_getElem? hfield
      refine (yields_read_field_value definition.id (hvalid.codecs field hmem)
        fun hchecks => hrisk hchecks field hmem).bind fun value _ hvalue => ?_
      refine (ih (some fieldIndex)).bind fun fields _ hfields => Yields.pure ⟨?_, ?_, ?_⟩
      · exact List.forall_mem_cons.mpr ⟨⟨field, hfield, hvalue.1⟩, hfields.1⟩
      · rw [List.length_cons, hfields.2.1]
      · rw [List.map_cons, ascend_from_cons (r := fun a b : Nat => a < b) fun _ _ _ => Nat.lt_trans]
        exact ⟨hafter, hfields.2.2⟩

/-- An entry is an update of one component, in order behind the entry before. -/
theorem yields_read_sparse_entry (hschema : schema.Valid)
    (hrisk : build.overflowChecks → ¬ schema.Safe → risk) {format : Delta.SparseReader}
    (hformat : SparseReaderSafe format) (prev : Option (UInt32 × UInt16)) :
    Yields c (Delta.readSparseEntry build format schema limits prev) (fun entry _ =>
      entry.2.Accepted schema limits ∧ (entry.2.fields.map Prod.fst).Pairwise (· < ·)
        ∧ ∀ p, prev = some p → p.1 < entry.1 ∨ p.1 = entry.1 ∧ p.2 < entry.2.id.get) risk := by
  unfold Delta.readSparseEntry
  refine yields_align_to_byte.safe.map_err.bind fun _ _ _ => ?_
  refine (hformat.key _).safe.bind fun key _ _ => ?_
  obtain ⟨entityId, componentRaw⟩ := key
  refine Yields.lift (parse_component_id_ensures componentRaw) fun componentId hid => ?_
  refine Yields.lift (ensure_entry_after_ensures prev entityId componentRaw) fun _ hafter => ?_
  refine Yields.lift (find_definition_ensures componentId) fun definition hdefinition => ?_
  refine yields_read_varu32.safe.map_err.bind fun fieldCount _ _ => ?_
  refine Yields.check fun _ => Yields.check fun hlimit => Yields.check fun _ => ?_
  refine (yields_read_sparse_fields hformat (hschema.components definition hdefinition.1)
    (Schema.risk_of_field hdefinition.1 hrisk) fieldCount.toNat none).bind
    fun fields _ hfields => Yields.pure ⟨⟨⟨definition, hdefinition.1, rfl, hfields.1⟩, ?_⟩,
      ascend_from_none.mp hfields.2.2, ?_⟩
  · exact hfields.2.1 ▸ Nat.le_of_not_lt hlimit
  · rw [hdefinition.2, hid]
    exact hafter

/-- The updates that the entries so far make, the last of which has the key `prev`. -/
structure Grouped (schema : Schema) (limits : CodecLimits) (prev : Option (UInt32 × UInt16))
    (updates : List DeltaUpdateEntity) : Prop where
  accepted : ∀ update ∈ updates, update.Accepted schema limits
  last : ∀ update, updates.getLast? = some update → ∃ p, prev = some p ∧ p.1 = update.id.raw
    ∧ ∀ component ∈ update.components, component.id.get ≤ p.2

/-- Adding the next entry. -/
theorem Grouped.push {prev : Option (UInt32 × UInt16)} {updates : List DeltaUpdateEntity}
    {entityId : UInt32} {component : DeltaUpdateComponent} (h : Grouped schema limits prev updates)
    (hcomponent : component.Accepted schema limits)
    (hafter : ∀ p, prev = some p → p.1 < entityId ∨ p.1 = entityId ∧ p.2 < component.id.get) :
    Grouped schema limits (some (entityId, component.id.get))
      (Delta.pushEntry updates entityId component) := by
  -- an entry of another entity starts an update of its own
  have hnew : Grouped schema limits (some (entityId, component.id.get))
      (updates ++ [⟨⟨entityId⟩, [component]⟩]) := by
    refine ⟨fun update hupdate => ?_, fun update hupdate => ?_⟩
    · rcases List.mem_append.mp hupdate with hupdate | hupdate
      · exact h.accepted update hupdate
      · obtain rfl := List.mem_singleton.mp hupdate
        exact ⟨List.forall_mem_singleton.mpr hcomponent, List.nodup_singleton _⟩
    · rw [List.getLast?_concat] at hupdate
      obtain rfl := Option.some.inj hupdate
      exact ⟨_, rfl, rfl, List.forall_mem_singleton.mpr (UInt16.le_refl _)⟩
  unfold Delta.pushEntry
  cases hlast : updates.getLast? with
  | none => exact hnew
  | some last =>
      by_cases hsame : last.id.raw = entityId
      · -- The entry before has the same entity, so the component comes behind all it has.
        obtain ⟨p, hp, hentity, hcomponents⟩ := h.last last hlast
        have hlt : p.2 < component.id.get := by
          rcases hafter p hp with hlt | hlt
          · exact absurd (hentity.trans hsame) (UInt32.ne_of_lt hlt)
          · exact hlt.2
        have hmem : last ∈ updates := List.mem_of_getLast? hlast
        dsimp only
        rw [if_pos hsame]
        refine ⟨fun update hupdate => ?_, fun update hupdate => ?_⟩
        · rcases List.mem_append.mp hupdate with hupdate | hupdate
          · exact h.accepted update ((List.dropLast_subset _) hupdate)
          · obtain rfl := List.mem_singleton.mp hupdate
            have hold := h.accepted last hmem
            refine ⟨fun d hd => ?_, ?_⟩
            · rcases List.mem_append.mp hd with hd | hd
              · exact hold.components d hd
              · exact List.mem_singleton.mp hd ▸ hcomponent
            · rw [List.map_append, List.nodup_append]
              refine ⟨hold.distinct, List.nodup_singleton _, ?_⟩
              intro a ha b hb hab
              obtain ⟨d, hd, rfl⟩ := List.mem_map.mp ha
              obtain rfl := List.mem_singleton.mp hb
              have hle := hcomponents d hd
              rw [hab] at hle
              exact UInt16.not_le.mpr hlt hle
        · rw [List.getLast?_concat] at hupdate
          obtain rfl := Option.some.inj hupdate
          refine ⟨_, rfl, hsame.symm, fun d hd => ?_⟩
          rcases List.mem_append.mp hd with hd | hd
          · exact UInt16.le_trans (hcomponents d hd) (UInt16.le_of_lt hlt)
          · exact List.mem_singleton.mp hd ▸ UInt16.le_refl _
      · dsimp only
        rw [if_neg hsame]
        exact hnew

/-- The next entry keeps what all components have. -/
theorem push_entry_forall {p : DeltaUpdateComponent → Prop} {updates : List DeltaUpdateEntity}
    (h : ∀ update ∈ updates, ∀ component ∈ update.components, p component) (entityId : UInt32)
    {component : DeltaUpdateComponent} (hcomponent : p component) :
    ∀ update ∈ Delta.pushEntry updates entityId component, ∀ component ∈ update.components,
      p component := by
  have hnew : ∀ update ∈ updates ++ [⟨⟨entityId⟩, [component]⟩], ∀ component ∈ update.components,
      p component := by
    intro update hupdate
    rcases List.mem_append.mp hupdate with hupdate | hupdate
    · exact h update hupdate
    · obtain rfl := List.mem_singleton.mp hupdate
      exact List.forall_mem_singleton.mpr hcomponent
  unfold Delta.pushEntry
  cases hlast : updates.getLast? with
  | none => exact hnew
  | some last =>
      by_cases hsame : last.id.raw = entityId
      · dsimp only
        rw [if_pos hsame]
        intro update hupdate
        rcases List.mem_append.mp hupdate with hupdate | hupdate
        · exact h update (List.dropLast_subset _ hupdate)
        · obtain rfl := List.mem_singleton.mp hupdate
          intro d hd
          rcases List.mem_append.mp hd with hd | hd
          · exact h last (List.mem_of_getLast? hlast) d hd
          · exact List.mem_singleton.mp hd ▸ hcomponent
      · dsimp only
        rw [if_neg hsame]
        exact hnew

theorem yields_read_sparse_entries (hschema : schema.Valid)
    (hrisk : build.overflowChecks → ¬ schema.Safe → risk) {format : Delta.SparseReader}
    (hformat : SparseReaderSafe format) (count : Nat) {prev : Option (UInt32 × UInt16)}
    {updates : List DeltaUpdateEntity} (h : Grouped schema limits prev updates)
    (hindices : IndicesAscend updates) :
    Yields c (Delta.readSparseEntries build format schema limits count prev updates)
      (fun updates _ => (∀ update ∈ updates, update.Accepted schema limits) ∧ IndicesAscend updates)
      risk := by
  induction count generalizing c prev updates with
  | zero => exact Yields.pure ⟨h.accepted, hindices⟩
  | succ count ih =>
      unfold Delta.readSparseEntries
      refine (yields_read_sparse_entry hschema hrisk hformat prev).bind fun entry _ hentry => ?_
      exact ih (h.push hentry.1 hentry.2.2) (push_entry_forall hindices entry.1 hentry.2.1)

/-- Both sparse decoders. -/
theorem decode_update_section_sparse_ensures (hschema : schema.Valid)
    (hrisk : build.overflowChecks → ¬ schema.Safe → risk) {format : Delta.SparseReader}
    (hformat : SparseReaderSafe format) (body : List UInt8) :
    Ensures (Delta.decodeUpdateSectionSparse format build schema body limits)
      (fun updates => AcceptedUpdates schema limits updates ∧ IndicesAscend updates)
      (PanicsOnlyIf risk) := by
  unfold Delta.decodeUpdateSectionSparse
  refine (read_section_ensures fun count c _ =>
    yields_read_sparse_entries hschema hrisk hformat count
    ⟨List.forall_mem_nil _, fun _ h => by cases h⟩ (List.forall_mem_nil _)).bind ?_
  intro updates ⟨_, _, _, _, haccepted, _, _⟩
  refine Ensures.check (fun _ => panics_only_if_err _) fun hcount => ?_
  exact ⟨⟨haccepted.1, Nat.le_of_not_lt hcount⟩, haccepted.2⟩

end Sdec
