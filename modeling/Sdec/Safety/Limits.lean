import Sdec.Format.AcceptedPacket
import Sdec.Format.Delta

/-!
# Limits on what is decoded

The decoders bound the numbers of entities and fields in every packet they accept. The number of
components of an entity they bound only by the schema: none but the decoder of full snapshots
compares `max_components_per_entity` with anything.
-/

namespace Sdec

open Rust Bits Bitstream Codec Wire Sorted

variable {build : Build} {schema : Schema} {limits : CodecLimits}

/-- The bounds on a decoded full snapshot. -/
structure Snapshot.Within (limits : CodecLimits) (snapshot : Snapshot) : Prop where
  entities : snapshot.entities.length ≤ limits.maxEntitiesCreate
  components : ∀ entity ∈ snapshot.entities,
    entity.components.length ≤ limits.maxComponentsPerEntity
  fields : ∀ entity ∈ snapshot.entities, ∀ component ∈ entity.components,
    component.fields.length ≤ limits.maxFieldsPerComponent

/-- The bounds on a decoded delta. -/
structure DeltaDecoded.Within (limits : CodecLimits) (decoded : DeltaDecoded) : Prop where
  creates : decoded.creates.length ≤ limits.maxEntitiesCreate
  destroys : decoded.destroys.length ≤ limits.maxEntitiesDestroy
  updates : decoded.updates.length ≤ limits.maxEntitiesUpdate
  createdComponents : ∀ entity ∈ decoded.creates,
    entity.components.length ≤ limits.maxComponentsPerEntity
  createdFields : ∀ entity ∈ decoded.creates, ∀ component ∈ entity.components,
    component.fields.length ≤ limits.maxFieldsPerComponent
  updatedComponents : ∀ update ∈ decoded.updates,
    update.components.length ≤ limits.maxComponentsPerEntity
  updatedFields : ∀ update ∈ decoded.updates, ∀ component ∈ update.components,
    component.fields.length ≤ limits.maxFieldsPerComponent

/-- An accepted delta is within the limits, if the schema has no more components than an entity
may. -/
theorem AcceptedDelta.within {decoded : DeltaDecoded}
    (h : AcceptedDelta schema limits decoded.destroys decoded.creates decoded.updates)
    (hschema : schema.components.length ≤ limits.maxComponentsPerEntity) :
      decoded.Within limits where
  creates := h.createCount
  destroys := h.destroyCount
  updates := h.updates.count
  createdComponents := fun entity hentity =>
    Nat.le_trans (length_le_of_sublistForall₂ (h.createsAccepted entity hentity).wellFormed) hschema
  createdFields := fun entity hentity => (h.createsAccepted entity hentity).fields
  updatedComponents := fun update hupdate =>
    Nat.le_trans (h.updates.accepted update hupdate).length_le hschema
  updatedFields := fun update hupdate component hcomponent =>
    ((h.updates.accepted update hupdate).components component hcomponent).fields

/-- A full snapshot is within the limits whatever the schema, since its decoder checks the
schema. -/
theorem AcceptedFull.within {sections : List WireSection} {snapshot : Snapshot}
    (h : AcceptedFull schema limits sections snapshot.entities) : snapshot.Within limits := by
  rcases h.entities with hnil | ⟨section_, _, haccepted, hschema⟩
  · refine ⟨?_, ?_, ?_⟩ <;> rw [hnil]
    · exact Nat.zero_le _
    · exact List.forall_mem_nil _
    · exact List.forall_mem_nil _
  · exact ⟨haccepted.count, fun entity hentity => Nat.le_trans
      (length_le_of_sublistForall₂ (haccepted.accepted entity hentity).wellFormed) hschema,
      fun entity hentity => (haccepted.accepted entity hentity).fields⟩

/-! ## An entity with every component -/

/-- The value whose code is zero. -/
def FieldCodec.least : FieldCodec → FieldValue
  | .bool => .bool false
  | .uint _ => .uint 0
  | .sint _ => .sint 0
  | .varUInt => .varUInt 0
  | .varSInt => .varSInt 0
  | .fixedPoint fp => .fixedPoint fp.minQ

/-- A component of these values. -/
def ComponentDef.least (definition : ComponentDef) : ComponentSnapshot :=
  ⟨definition.id, definition.fields.map fun field => field.codec.least⟩

/-- An entity with every component of a schema. -/
def Schema.leastEntity (schema : Schema) : EntitySnapshot :=
  ⟨⟨0⟩, schema.components.map ComponentDef.least⟩

theorem FieldCodec.contains_least {codec : FieldCodec} (h : codec.Valid) :
    codec.Contains codec.least := by
  cases codec with
  | bool => trivial
  | uint bits => exact Nat.two_pow_pos _
  | sint bits =>
      exact ⟨Int.neg_nonpos_of_nonneg (Int.le_of_lt (Int.pow_pos (by decide))),
        Int.pow_pos (by decide)⟩
  | varUInt => exact Nat.two_pow_pos _
  | varSInt => exact ⟨by decide, by decide⟩
  | fixedPoint fp => exact ⟨Int64.le_refl _, h.2⟩

/-- The layout of a value takes at most 64 bits. -/
theorem stop_field_layout_le {codec : FieldCodec} (h : codec.Valid)
    (value : FieldValue) (pos : Nat) :
    stop pos (fieldLayout codec value) ≤ pos + 64 := by
  unfold fieldLayout
  split
  next =>
    rw [stop_bit]
    omega
  next bits v =>
    rw [stop_number]
    have := h.2
    omega
  next bits v =>
    rw [stop_number]
    have := h.2
    omega
  next v =>
    have := padding_lt pos
    have := length_varu32_le v.toUInt32
    rw [stop_cons, stop_bytes, stop_align]
    omega
  next v =>
    have := padding_lt pos
    have := length_varu32_le ((v.toInt32 <<< 1) ^^^ (v.toInt32 >>> 31)).toUInt32
    rw [stop_cons, stop_bytes, stop_align, vars32]
    omega
  next fp v =>
    rw [stop_number]
    have := (required_bits_spec (fp.maxQ - fp.minQ).toUInt64).1
    rw [FixedPoint.width]
    omega
  next =>
    rw [stop_nil]
    omega

/-- Layouts of bounded length laid out one after another. -/
theorem stop_flatMap_le {β : Type} {layout : β → Layout} {k : Nat} {xs : List β}
    (h : ∀ x ∈ xs, ∀ pos, stop pos (layout x) ≤ pos + k) (pos : Nat) :
    stop pos (xs.flatMap layout) ≤ pos + xs.length * k := by
  induction xs generalizing pos with
  | nil => exact Nat.le_add_right _ _
  | cons x xs ih =>
      have hx := h x List.mem_cons_self pos
      have hxs := ih (fun y hy => h y (List.mem_cons_of_mem _ hy)) (stop pos (layout x))
      rw [List.flatMap_cons, stop_append, List.length_cons, Nat.succ_mul]
      omega

/-- Ids of 16 bits that differ are at most `2 ^ 16`. -/
theorem length_le_of_nodup {α : Type} (id : α → UInt16) {xs : List α} (h : (xs.map id).Nodup) :
    xs.length ≤ 2 ^ 16 := by
  have hnodup : ((xs.map id).map UInt16.toNat).Nodup :=
    h.map fun _ _ hab => UInt16.toNat_inj.mp hab
  have hsub : (xs.map id).map UInt16.toNat ⊆ List.range (2 ^ 16) := by
    intro n hn
    obtain ⟨i, _, rfl⟩ := List.mem_map.mp hn
    exact List.mem_range.mpr i.toNat_lt
  simpa only [List.length_map, List.length_range] using (hnodup.subperm hsub).length_le

theorem ComponentDef.Valid.length_le {definition : ComponentDef} (h : definition.Valid) :
    definition.fields.length ≤ 2 ^ 16 := by
  refine length_le_of_nodup (fun field => field.id.val) ?_
  have hinj : Function.Injective FieldId.val := fun a b hab => by
    cases a
    cases hab
    rfl
  simpa only [List.map_map, Function.comp_def] using h.fieldIds.map hinj

theorem Schema.Valid.length_le (h : schema.Valid) : schema.components.length ≤ 2 ^ 16 := by
  refine length_le_of_nodup (fun definition => definition.id.val) ?_
  have hinj : Function.Injective ComponentId.val := fun a b hab => by
    cases a
    cases hab
    rfl
  simpa only [List.map_map, Function.comp_def] using h.componentIds.map hinj

/-- The components of an entity take less than `2 ^ 39` bits. -/
theorem stop_components_layout_le (hschema : schema.Valid) (entity : EntitySnapshot) (pos : Nat) :
    stop pos (componentsLayout schema (denseContent entity)) ≤ pos + 2 ^ 39 := by
  have hcount := hschema.length_le
  have hdense : ∀ d ∈ schema.components, ∀ pos,
      stop pos ((denseContent entity d).getD []) ≤ pos + (2 ^ 16 + 2 ^ 16 * 64) := by
    intro d hd pos
    have hvalid := hschema.components d hd
    rw [denseContent]
    cases findComponent entity d.id with
    | none => exact Nat.le_add_right _ _
    | some component =>
        have hlength : (d.fields.zip component.fields).length ≤ d.fields.length := by
          rw [List.length_zip]
          exact Nat.min_le_left _ _
        have hmax := hvalid.length_le
        have hvalues := Nat.mul_le_mul_right 64 (Nat.le_trans hlength hmax)
        show stop pos (denseLayout d component.fields) ≤ _
        rw [denseLayout, stop_append, stop_flags, List.length_map]
        refine Nat.le_trans (stop_flatMap_le (k := 64) (fun p hp pos => ?_) _) (by omega)
        exact stop_field_layout_le (hvalid.codecs _ (List.of_mem_zip hp).1) p.2 pos
  have hall := stop_flatMap_le hdense (pos + schema.components.length)
  have := Nat.mul_le_mul_right (2 ^ 16 + 2 ^ 16 * 64) hcount
  rw [componentsLayout, stop_append, stop_flags, List.length_map]
  omega

/-- The body of a create section with one entity. -/
theorem length_created_body_le (hschema : schema.Valid) {entity : EntitySnapshot}
    {body : List UInt8}
    (hbody : ofBytes body = render 0 (countedLayout 1 (createLayout schema [entity]))) :
    8 * body.length ≤ usizeMax := by
  have hstop : 8 * body.length = stop 0 (countedLayout 1 (createLayout schema [entity])) := by
    rw [stop, ← hbody, length_ofBytes, Nat.zero_add]
  have hcomponents := stop_components_layout_le hschema entity
  have hvarint := length_varu32_le (UInt32.ofNat 1)
  have halign (pos : Nat) : stop pos [.align] ≤ pos + 8 := by
    have := padding_lt pos
    rw [stop_align]
    omega
  have hentry (pos : Nat) : stop pos (createLayout schema [entity]) ≤ pos + 8 + 32 + 2 ^ 39 := by
    rw [createLayout, keyedLayout, List.flatMap_singleton, stop_cons, stop_append, stop_bytes,
      length_leBytes]
    have := halign pos
    have := hcomponents (stop pos [.align] + 8 * 4)
    omega
  rw [hstop, countedLayout, stop_cons, stop_append, stop_append, stop_bytes]
  have := halign 0
  have := hentry (stop 0 [.align] + 8 * (varu32 (UInt32.ofNat 1)).length)
  have := halign (stop (stop 0 [.align] + 8 * (varu32 (UInt32.ofNat 1)).length)
    (createLayout schema [entity]))
  simp only [usizeMax]
  omega

/-! ## The limit on components -/

theorem Schema.well_formed_least (h : schema.Valid) : schema.leastEntity.WellFormed schema := by
  refine List.sublistForall₂_iff.mpr ⟨schema.components, ?_, List.Sublist.refl _⟩
  rw [Schema.leastEntity, List.forall₂_map_left_iff, List.forall₂_same]
  intro definition hdefinition
  refine ⟨rfl, ?_⟩
  rw [ComponentDef.least, List.forall₂_map_right_iff, List.forall₂_same]
  exact fun field hfield =>
    FieldCodec.contains_least ((h.components definition hdefinition).codecs field hfield)

/-- A packet with the entity that has every component, for limits that are enough but for the number
of components. -/
theorem exists_least_packet (hschema : schema.Valid) (hwrapping : build.overflowChecks = false)
    (bound : Nat) :
    ∃ limits packet decoded, limits.maxComponentsPerEntity = bound
      ∧ decodeDeltaPacket build schema packet limits = .ok decoded
      ∧ decoded.creates = [schema.leastEntity] := by
  obtain ⟨body, hbody⟩ := exists_body 1 (createLayout schema [schema.leastEntity])
  have hwellFormed := Schema.well_formed_least hschema
  obtain ⟨limits, hlimits⟩ : ∃ limits : CodecLimits,
      limits = ⟨1, 0, 0, bound, 2 ^ 16, body.length, 1⟩ := ⟨_, rfl⟩
  have hencodes : schema.leastEntity.Encodes build schema limits := by
    intro definition hdefinition component hcomponent
    have hvalid := hschema.components definition hdefinition
    have hfields :=
      (((EntitySnapshot.wellFormed_iff hschema).mp hwellFormed).2 definition hdefinition
        component hcomponent).fields
    refine ⟨hfields.length_eq.symm, hlimits ▸ hvalid.length_le, fun p hp => ⟨?_, ?_⟩⟩
    · exact (List.forall₂_iff_zip.mp hfields).2 hp
    · exact FieldCodec.writable_of_wrapping hwrapping (hvalid.codecs _ (List.of_mem_zip hp).1)
  have hcreates :
      Delta.decodeCreateSection build schema body limits = .ok [schema.leastEntity] := by
    refine (decode_create_section_eq_ok hschema (List.forall_mem_singleton.mpr hwellFormed.shaped)
      (List.forall_mem_singleton.mpr hencodes) ?_ hbody (length_created_body_le hschema hbody)
      (Nat.one_lt_two_pow (by decide))).mpr ⟨?_, rfl⟩
    · exact ascend_from_none.mpr (List.pairwise_singleton _ _)
    · exact hlimits ▸ ⟨Nat.le_refl _, Nat.le_refl _, List.forall_mem_singleton.mpr fun _ _ _ _ =>
        ComponentDef.readable_of_wrapping hwrapping⟩
  refine ⟨limits, ⟨PacketHeader.deltaSnapshot (schemaHash build schema) 1 1 0,
    [⟨.entityCreate, body⟩]⟩, ⟨⟨1⟩, ⟨1⟩, [], [schema.leastEntity], []⟩, by rw [hlimits], ?_, rfl⟩
  refine decode_delta_packet_eq_ok.mpr ⟨⟨(by decide : PacketFlags.deltaSnapshot.isDeltaSnapshot),
    (by decide : (1 : UInt32) ≠ 0), rfl⟩, ?_, rfl, rfl⟩
  simp only [Delta.decodeDeltaSections, List.foldlM_cons, List.foldlM_nil, Delta.decodeDeltaSection,
    Delta.ensureFirst, Option.isSome_none, Bool.false_eq_true, if_false, hcreates,
    pure_bind, ok_bind, Option.getD_none, Option.getD_some]
  rfl

/-- Every accepted packet is within the limits exactly if the schema has no more components than the
limit allows for an entity. -/
theorem accepted_packets_within_iff {components : List ComponentDef}
    (hschema : Schema.new components = .ok schema) (bound : Nat) :
    (∀ build limits packet, limits.maxComponentsPerEntity = bound →
      (∀ snapshot, decodeFullSnapshotFromPacket build schema packet limits = .ok snapshot →
        snapshot.Within limits)
      ∧ ∀ decoded, decodeDeltaPacket build schema packet limits = .ok decoded →
        decoded.Within limits)
    ↔ schema.components.length ≤ bound := by
  have hvalid := (schema_new_eq_ok.mp hschema).2
  constructor
  · intro h
    obtain ⟨limits, packet, decoded, hbound, hdecode, hcreates⟩ :=
      @exists_least_packet (goldenBuild false) schema hvalid rfl bound
    have hwithin := (h (goldenBuild false) limits packet hbound).2 decoded hdecode
    have hcomponents := hwithin.createdComponents schema.leastEntity
      (hcreates ▸ List.mem_singleton_self _)
    rw [hbound] at hcomponents
    simpa only [Schema.leastEntity, List.length_map] using hcomponents
  · intro hbound build limits packet hlimits
    refine ⟨fun snapshot hdecode => ?_, fun decoded hdecode => ?_⟩
    · exact AcceptedFull.within ((@decode_full_packet_ensures build schema limits True hvalid
        (fun _ _ => trivial) packet).of_ok hdecode)
    · exact AcceptedDelta.within ((@decode_delta_packet_ensures build schema limits True hvalid
        (fun _ _ => trivial) packet).of_ok hdecode) (hlimits ▸ hbound)

/-- A delta packet of `goldenSchema` that creates the golden entities. -/
def goldenCreates : WirePacket :=
  ⟨PacketHeader.deltaSnapshot (schemaHash (goldenBuild false) goldenSchema) 8 7 17,
    [⟨.entityCreate, [2, 3, 0, 0, 0, 255, 254, 227, 119, 0, 9, 0, 0, 0, 0]⟩]⟩

/-- The schema has one component, and a limit of one component for each entity is kept. -/
theorem accepted_packets_within_golden :
    decodeDeltaPacket (goldenBuild false) goldenSchema goldenCreates
        { goldenLimits with maxComponentsPerEntity := 1 } = .ok ⟨⟨8⟩, ⟨7⟩, [], goldenEntities, []⟩
      ∧ DeltaDecoded.Within { goldenLimits with maxComponentsPerEntity := 1 }
        ⟨⟨8⟩, ⟨7⟩, [], goldenEntities, []⟩ := by
  have hdecode : decodeDeltaPacket (goldenBuild false) goldenSchema goldenCreates
      { goldenLimits with maxComponentsPerEntity := 1 }
      = .ok ⟨⟨8⟩, ⟨7⟩, [], goldenEntities, []⟩ := by decide +kernel
  have hwithin := (accepted_packets_within_iff golden_schema_new 1).mpr (Nat.le_refl 1)
  exact ⟨hdecode, (hwithin (goldenBuild false) _ goldenCreates rfl).2 _ hdecode⟩

/-- Where no component is allowed, an entity with one is still created. -/
theorem created_components_over_limit :
    decodeDeltaPacket (goldenBuild false) goldenSchema goldenCreates
        { goldenLimits with maxComponentsPerEntity := 0 } = .ok ⟨⟨8⟩, ⟨7⟩, [], goldenEntities, []⟩
      ∧ ¬ DeltaDecoded.Within { goldenLimits with maxComponentsPerEntity := 0 }
        ⟨⟨8⟩, ⟨7⟩, [], goldenEntities, []⟩ := by
  refine ⟨by decide +kernel, fun h => ?_⟩
  have hcomponents := h.createdComponents _ List.mem_cons_self
  exact absurd hcomponents (by decide)

end Sdec
