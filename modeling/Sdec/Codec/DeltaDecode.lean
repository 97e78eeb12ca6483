import Sdec.Codec.Change
import Sdec.Sorted.Search

/-!
# Delta decoding

The decoders of delta packets and their application to a baseline, after `codec/src/delta.rs`.
-/

namespace Sdec.Codec

open Rust Bitstream Wire Sorted

namespace Delta

/-! ## Destroys and creates -/

/-- `decode_destroy_section`. -/
def decodeDestroySection (body : List UInt8) (limits : CodecLimits) :
    Outcome CodecError (List EntityId) :=
  readSection .entityDestroy limits .entitiesDestroy limits.maxEntitiesDestroy body fun count =>
    readAscending (fun id => return EntityId.mk id) count none

/-- `decode_create_section` of `delta.rs`. -/
def decodeCreateSection (build : Build) (schema : Schema) (body : List UInt8)
    (limits : CodecLimits) : Outcome CodecError (List EntitySnapshot) :=
  readSection .entityCreate limits .entitiesCreate limits.maxEntitiesCreate body fun count =>
    readAscending (fun id => do
      let componentMask ← readMask schema.components.length .componentMask
      let components ← readComponents (fun component => do
        let fields ← decodeFullComponent build component limits
        return ComponentSnapshot.mk component.id fields) componentMask 0 schema.components
      let entity : EntitySnapshot := ⟨⟨id⟩, components⟩
      ensureKnownComponents schema entity
      return entity) count none

/-! ## Masked updates -/

/-- The loop of `decode_update_component` over the fields. -/
def readChangedFields (build : Build) (component : ComponentDef) (mask : List Bool) :
    Nat → List FieldDef → Call CodecError BitReader (List (Nat × FieldValue))
  | _, [] => return []
  | idx, field :: rest => do
      if ← index mask idx then
        let value ← readFieldValue build component.id field
        let fields ← readChangedFields build component mask (idx + 1) rest
        return (idx, value) :: fields
      else
        readChangedFields build component mask (idx + 1) rest

/-- `decode_update_component`. -/
def decodeUpdateComponent (build : Build) (component : ComponentDef) (limits : CodecLimits) :
    Call CodecError BitReader (List (Nat × FieldValue)) := do
  if component.fields.length > limits.maxFieldsPerComponent then
    fail (.limitsExceeded .fieldsPerComponent limits.maxFieldsPerComponent component.fields.length)
  let mask ← readMask component.fields.length (.fieldMask component.id)
  if !mask.any id then
    fail (.invalidMask (.fieldMask component.id) (.emptyFieldMask component.id))
  readChangedFields build component mask 0 component.fields

/-- `decode_update_section_masked`. -/
def decodeUpdateSectionMasked (build : Build) (schema : Schema) (body : List UInt8)
    (limits : CodecLimits) : Outcome CodecError (List DeltaUpdateEntity) :=
  readSection .entityUpdate limits .entitiesUpdate limits.maxEntitiesUpdate body fun count =>
    readAscending (fun id => do
      let componentMask ← readMask schema.components.length .componentMask
      let components ← readComponents (fun component => do
        let fields ← decodeUpdateComponent build component limits
        return DeltaUpdateComponent.mk component.id fields) componentMask 0 schema.components
      return DeltaUpdateEntity.mk ⟨id⟩ components) count none

/-! ## Sparse updates -/

/-- A sparse encoding of updates: the tag of its section, and how it reads the entity and component
of an entry and the index of a field. -/
structure SparseReader where
  tag : SectionTag
  readKey : Call CodecError BitReader (UInt32 × UInt16)
  readIndex : ComponentDef → Call CodecError BitReader Nat

/-- The entry key and the field index of `decode_update_section_sparse_varint`. -/
def sparseVarintReader : SparseReader where
  tag := .entityUpdateSparse
  readKey := do
    let entityId ← stream BitReader.readU32Aligned
    let componentRaw ← stream BitReader.readU16Aligned
    return (entityId, componentRaw)
  readIndex _ := do
    stream BitReader.alignToByte
    let fieldIndex ← stream BitReader.readVaru32
    return fieldIndex.toNat

/-- The entry key and the field index of `decode_update_section_sparse_packed`. -/
def sparsePackedReader : SparseReader where
  tag := .entityUpdateSparsePacked
  readKey := do
    let entityId ← stream BitReader.readVaru32
    let componentRaw ← stream BitReader.readVaru32
    if componentRaw.toNat > 2 ^ 16 - 1 then
      fail (.invalidMask .componentMask (.invalidComponentId 0xFFFF))
    return (entityId, componentRaw.toUInt16)
  readIndex component := do
    if indexBits component = 0 then
      return 0
    let fieldIndex ← stream (BitReader.readBits (indexBits component))
    return fieldIndex.toNat

/-- The check of an entry against the one before. The source keeps the previous entity and the
previous component in two options that are set together. -/
def ensureEntryAfter (prev : Option (UInt32 × UInt16)) (entityId : UInt32)
    (componentRaw : UInt16) : Outcome CodecError Unit :=
  match prev with
  | none => return
  | some (prevEntity, prevComponent) =>
      if entityId < prevEntity then fail (.invalidEntityOrder prevEntity entityId)
      else if entityId = prevEntity ∧ componentRaw ≤ prevComponent then
        fail (.invalidEntityOrder prevEntity entityId)
      else return

/-- The check of a field index against the one before. -/
def ensureIndexAfter (component : ComponentDef) (prev : Option Nat) (fieldIndex : Nat) :
    Outcome CodecError Unit :=
  match prev with
  | none => return
  | some prev =>
      if fieldIndex ≤ prev then
        fail (.invalidMask (.fieldMask component.id)
          (.invalidFieldIndex fieldIndex component.fields.length))
      else return

/-- The component of the schema with the id of an entry. -/
def findDefinition (schema : Schema) (componentId : ComponentId) :
    Outcome CodecError ComponentDef :=
  match schema.components.find? fun component => component.id = componentId with
  | some component => return component
  | none => fail (.invalidMask .componentMask (.unknownComponent componentId))

/-- The loop over the fields of an entry, with the index of the one before. -/
def readSparseFields (build : Build) (format : SparseReader) (component : ComponentDef) :
    Nat → Option Nat → Call CodecError BitReader (List (Nat × FieldValue))
  | 0, _ => return []
  | count + 1, prevIndex => do
      let fieldIndex ← format.readIndex component
      if fieldIndex ≥ component.fields.length then
        fail (.invalidMask (.fieldMask component.id)
          (.invalidFieldIndex fieldIndex component.fields.length))
      ensureIndexAfter component prevIndex fieldIndex
      let field ← index component.fields fieldIndex
      let value ← readFieldValueSparse build component.id field
      let fields ← readSparseFields build format component count (some fieldIndex)
      return (fieldIndex, value) :: fields

/-- The component id of an entry. -/
def parseComponentId (componentRaw : UInt16) : Outcome CodecError ComponentId :=
  match ComponentId.new componentRaw with
  | some componentId => return componentId
  | none => fail (.invalidMask .componentMask (.invalidComponentId componentRaw))

/-- One entry: the id of its entity, and the update of one component. -/
def readSparseEntry (build : Build) (format : SparseReader) (schema : Schema)
    (limits : CodecLimits) (prev : Option (UInt32 × UInt16)) :
    Call CodecError BitReader (UInt32 × DeltaUpdateComponent) := do
  stream BitReader.alignToByte
  let (entityId, componentRaw) ← format.readKey
  let componentId ← parseComponentId componentRaw
  ensureEntryAfter prev entityId componentRaw
  let component ← findDefinition schema componentId
  let fieldCount ← stream BitReader.readVaru32
  if fieldCount.toNat = 0 then
    fail (.invalidMask (.fieldMask component.id) (.emptyFieldMask component.id))
  if fieldCount.toNat > limits.maxFieldsPerComponent then
    fail (.limitsExceeded .fieldsPerComponent limits.maxFieldsPerComponent fieldCount.toNat)
  if fieldCount.toNat > component.fields.length then
    fail (.invalidMask (.fieldMask component.id)
      (.fieldCountMismatch component.fields.length fieldCount.toNat))
  let fields ← readSparseFields build format component fieldCount.toNat none
  return (entityId, ⟨component.id, fields⟩)

/-- Adding an entry to the updates: to the last entity if it has the id, else as a new entity. -/
def pushEntry (updates : List DeltaUpdateEntity) (entityId : UInt32)
    (component : DeltaUpdateComponent) : List DeltaUpdateEntity :=
  match updates.getLast? with
  | some last =>
      if last.id.raw = entityId then
        updates.dropLast ++ [{ last with components := last.components ++ [component] }]
      else updates ++ [⟨⟨entityId⟩, [component]⟩]
  | none => updates ++ [⟨⟨entityId⟩, [component]⟩]

/-- The loop over the entries, with the key of the one before and the updates so far. -/
def readSparseEntries (build : Build) (format : SparseReader) (schema : Schema)
    (limits : CodecLimits) : Nat → Option (UInt32 × UInt16) → List DeltaUpdateEntity →
    Call CodecError BitReader (List DeltaUpdateEntity)
  | 0, _, updates => return updates
  | count + 1, prev, updates => do
      let (entityId, component) ← readSparseEntry build format schema limits prev
      readSparseEntries build format schema limits count (some (entityId, component.id.get))
        (pushEntry updates entityId component)

/-- The body of both sparse decoders. -/
def decodeUpdateSectionSparse (format : SparseReader) (build : Build) (schema : Schema)
    (body : List UInt8) (limits : CodecLimits) : Outcome CodecError (List DeltaUpdateEntity) := do
  let entryLimit := saturatingMul limits.maxEntitiesUpdate limits.maxComponentsPerEntity
  let updates ← readSection format.tag limits .entitiesUpdate entryLimit body fun entryCount =>
    readSparseEntries build format schema limits entryCount none []
  if updates.length > limits.maxEntitiesUpdate then
    fail (.limitsExceeded .entitiesUpdate limits.maxEntitiesUpdate updates.length)
  return updates

/-- `decode_update_section_sparse_varint`. -/
def decodeUpdateSectionSparseVarint := decodeUpdateSectionSparse sparseVarintReader

/-- `decode_update_section_sparse_packed`. -/
def decodeUpdateSectionSparsePacked := decodeUpdateSectionSparse sparsePackedReader

/-! ## Sections -/

/-- The sections seen by `decode_delta_sections`. -/
structure SeenSections where
  destroys : Option (List EntityId)
  creates : Option (List EntitySnapshot)
  updatesMasked : Option (List DeltaUpdateEntity)
  updatesSparse : Option (List DeltaUpdateEntity)
  deriving DecidableEq, Repr

/-- The check that a section is the first of its kind. -/
def ensureFirst {α : Type} (seen : Option α) (tag : SectionTag) : Outcome CodecError Unit :=
  if seen.isSome then fail (.duplicateSection tag) else return

/-- One iteration of the loop of `decode_delta_sections`. -/
def decodeDeltaSection (build : Build) (schema : Schema) (limits : CodecLimits)
    (seen : SeenSections) (section_ : WireSection) : Outcome CodecError SeenSections :=
  match section_.tag with
  | .entityDestroy => do
      ensureFirst seen.destroys section_.tag
      let destroys ← decodeDestroySection section_.body limits
      return { seen with destroys := some destroys }
  | .entityCreate => do
      ensureFirst seen.creates section_.tag
      let creates ← decodeCreateSection build schema section_.body limits
      return { seen with creates := some creates }
  | .entityUpdate => do
      ensureFirst seen.updatesMasked section_.tag
      let updates ← decodeUpdateSectionMasked build schema section_.body limits
      return { seen with updatesMasked := some updates }
  | .entityUpdateSparse => do
      ensureFirst seen.updatesSparse section_.tag
      let updates ← decodeUpdateSectionSparseVarint build schema section_.body limits
      return { seen with updatesSparse := some updates }
  | .entityUpdateSparsePacked => do
      ensureFirst seen.updatesSparse section_.tag
      let updates ← decodeUpdateSectionSparsePacked build schema section_.body limits
      return { seen with updatesSparse := some updates }
  | .sessionInit => fail (.unexpectedSection section_.tag)

/-- `decode_delta_sections`. -/
def decodeDeltaSections (build : Build) (schema : Schema) (packet : WirePacket)
    (limits : CodecLimits) :
    Outcome CodecError (List EntityId × List EntitySnapshot × List DeltaUpdateEntity) := do
  let seen ← packet.sections.foldlM (decodeDeltaSection build schema limits)
    ⟨none, none, none, none⟩
  match seen.updatesMasked, seen.updatesSparse with
  | some _, some _ => fail .duplicateUpdateEncoding
  | some updates, none => return (seen.destroys.getD [], seen.creates.getD [], updates)
  | none, some updates => return (seen.destroys.getD [], seen.creates.getD [], updates)
  | none, none => return (seen.destroys.getD [], seen.creates.getD [], [])

/-- The checks of a delta header that both packet decoders start with. -/
def checkDeltaHeader (header : PacketHeader) : Outcome CodecError Unit := do
  if !header.flags.isDeltaSnapshot then
    fail (.wire (.invalidFlags header.flags.raw))
  if header.baselineTick = 0 then
    fail (.wire (.invalidBaselineTick header.baselineTick header.flags.raw))

/-- When a header is that of a delta. -/
theorem check_delta_header_eq_ok {header : PacketHeader} {u : Unit} :
    checkDeltaHeader header = .ok u ↔ header.flags.isDeltaSnapshot ∧ header.baselineTick ≠ 0 := by
  simp only [checkDeltaHeader, check_fail_eq_ok, Bool.not_eq_true', Bool.not_eq_false, ne_eq]
  refine and_congr_right fun _ => ?_
  by_cases hzero : header.baselineTick = 0
  · rw [if_pos hzero]
    exact ⟨fun h => (nomatch h), fun h => absurd hzero h⟩
  · rw [if_neg hzero]
    exact ⟨fun _ => hzero, fun _ => rfl⟩

/-- The check of the schema hash of a header. -/
def checkSchemaHash (build : Build) (schema : Schema) (header : PacketHeader) :
    Outcome CodecError Unit := do
  let expectedHash := schemaHash build schema
  if header.schemaHash ≠ expectedHash then
    fail (.schemaMismatch expectedHash header.schemaHash)

theorem check_schema_hash_eq_ok {build : Build} {schema : Schema}
    {header : PacketHeader} {u : Unit} :
    checkSchemaHash build schema header = .ok u ↔ header.schemaHash = schemaHash build schema := by
  rw [checkSchemaHash]
  by_cases hhash : header.schemaHash = schemaHash build schema
  · rw [if_neg (not_not.mpr hhash)]
    exact ⟨fun _ => hhash, fun _ => rfl⟩
  · rw [if_pos hhash]
    exact ⟨fun h => (nomatch h), fun h => absurd h hhash⟩

end Delta

/-- `decode_delta_packet`. -/
def decodeDeltaPacket (build : Build) (schema : Schema) (packet : WirePacket)
    (limits : CodecLimits) : Outcome CodecError DeltaDecoded := do
  let header := packet.header
  Delta.checkDeltaHeader header
  Delta.checkSchemaHash build schema header
  let (destroys, creates, updates) ← Delta.decodeDeltaSections build schema packet limits
  return ⟨⟨header.tick⟩, ⟨header.baselineTick⟩, destroys, creates, updates⟩

/-- When a packet is decoded as a delta. -/
theorem decode_delta_packet_eq_ok {build : Build} {schema : Schema} {packet : WirePacket}
    {limits : CodecLimits} {decoded : DeltaDecoded} :
    decodeDeltaPacket build schema packet limits = .ok decoded ↔
      (packet.header.flags.isDeltaSnapshot ∧ packet.header.baselineTick ≠ 0
        ∧ packet.header.schemaHash = schemaHash build schema)
      ∧ Delta.decodeDeltaSections build schema packet limits
        = .ok (decoded.destroys, decoded.creates, decoded.updates)
      ∧ decoded.tick = ⟨packet.header.tick⟩
      ∧ decoded.baselineTick = ⟨packet.header.baselineTick⟩ := by
  simp only [decodeDeltaPacket, bind_eq_ok, Delta.check_delta_header_eq_ok,
    Delta.check_schema_hash_eq_ok, exists_const, and_assoc]
  refine and_congr_right fun _ => and_congr_right fun _ => and_congr_right fun _ => ?_
  constructor
  · rintro ⟨⟨destroys, creates, updates⟩, hsections, h⟩
    cases h
    exact ⟨hsections, rfl, rfl⟩
  · rintro ⟨hsections, htick, hbaseline⟩
    refine ⟨_, hsections, ?_⟩
    rw [← htick, ← hbaseline]
    rfl

/-! ## Application -/

namespace Delta

/-- `apply_destroys`. -/
def applyDestroys (baseline : List EntitySnapshot) (destroys : List EntityId) :
    Outcome CodecError (List EntitySnapshot) :=
  (walk entityKey EntityId.raw baseline destroys).foldlM (fun result step =>
    match step with
    | .left b => return result ++ [b]
    | .right d => fail (.entityNotFound d.raw)
    | .both _ _ => return result) []

/-- `apply_creates`. -/
def applyCreates (baseline creates : List EntitySnapshot) :
    Outcome CodecError (List EntitySnapshot) :=
  (walk entityKey entityKey baseline creates).foldlM (fun result step =>
    match step with
    | .left b => return result ++ [b]
    | .right c => return result ++ [c]
    | .both _ c => fail (.entityAlreadyExists c.id.raw)) []

/-- The loop of `apply_updates` over the fields of a component. -/
def applyFields (id : ComponentId) (fields : List FieldValue) (updates : List (Nat × FieldValue)) :
    Outcome CodecError (List FieldValue) :=
  updates.foldlM (fun fields (fieldIdx, value) => do
    if fieldIdx ≥ fields.length then
      fail (.invalidMask (.fieldMask id) (.fieldCountMismatch fields.length (fieldIdx + 1)))
    store fields fieldIdx value) fields

/-- The update of one component in `apply_updates`. -/
def applyComponent (entity : EntitySnapshot) (update : DeltaUpdateComponent) :
    Outcome CodecError EntitySnapshot :=
  match entity.components.findIdx? fun c => c.id = update.id with
  | none => fail (.componentNotFound entity.id.raw update.id.get)
  | some idx => do
      let component ← index entity.components idx
      let fields ← applyFields update.id component.fields update.fields
      let components ← store entity.components idx { component with fields }
      return { entity with components }

/-- The update of one entity in `apply_updates`. -/
def applyUpdate (entities : List EntitySnapshot) (update : DeltaUpdateEntity) :
    Outcome CodecError (List EntitySnapshot) :=
  match binarySearchBy entityKey entities update.id.raw with
  | none => fail (.entityNotFound update.id.raw)
  | some idx => do
      let entity ← index entities idx
      let entity ← update.components.foldlM applyComponent entity
      store entities idx entity

/-- `apply_updates`. -/
def applyUpdates (entities : List EntitySnapshot) (updates : List DeltaUpdateEntity) :
    Outcome CodecError (List EntitySnapshot) :=
  updates.foldlM applyUpdate entities

end Delta

/-- `apply_delta_snapshot_from_packet`. -/
def applyDeltaSnapshotFromPacket (build : Build) (schema : Schema) (baseline : Snapshot)
    (packet : WirePacket) (limits : CodecLimits) : Outcome CodecError Snapshot := do
  let header := packet.header
  Delta.checkDeltaHeader header
  if header.baselineTick ≠ baseline.tick.raw then
    fail (.baselineTickMismatch baseline.tick.raw header.baselineTick)
  Delta.checkSchemaHash build schema header
  let (destroys, creates, updates) ← Delta.decodeDeltaSections build schema packet limits
  ensureEntitiesSorted baseline.entities
  ensureEntitiesSorted creates
  let remaining ← Delta.applyDestroys baseline.entities destroys
  let remaining ← Delta.applyCreates remaining creates
  if remaining.length > limits.maxTotalEntitiesAfterApply then
    fail (.limitsExceeded .totalEntitiesAfterApply limits.maxTotalEntitiesAfterApply
      remaining.length)
  let entities ← Delta.applyUpdates remaining updates
  return ⟨⟨header.tick⟩, entities⟩

/-- When a packet is applied to a baseline. -/
theorem apply_delta_packet_eq_ok {build : Build} {schema : Schema} {baseline : Snapshot}
    {packet : WirePacket} {limits : CodecLimits} {snapshot : Snapshot} :
    applyDeltaSnapshotFromPacket build schema baseline packet limits = .ok snapshot ↔
      (packet.header.flags.isDeltaSnapshot ∧ packet.header.baselineTick ≠ 0
        ∧ packet.header.baselineTick = baseline.tick.raw
        ∧ packet.header.schemaHash = schemaHash build schema)
      ∧ ∃ destroys creates updates remaining merged,
        Delta.decodeDeltaSections build schema packet limits = .ok (destroys, creates, updates)
        ∧ ensureEntitiesSorted baseline.entities = .ok () ∧ ensureEntitiesSorted creates = .ok ()
        ∧ Delta.applyDestroys baseline.entities destroys = .ok remaining
        ∧ Delta.applyCreates remaining creates = .ok merged
        ∧ merged.length ≤ limits.maxTotalEntitiesAfterApply
        ∧ Delta.applyUpdates merged updates = .ok snapshot.entities
        ∧ snapshot.tick = ⟨packet.header.tick⟩ := by
  simp only [applyDeltaSnapshotFromPacket, bind_eq_ok, Delta.check_delta_header_eq_ok,
    Delta.check_schema_hash_eq_ok, check_fail_eq_ok, exists_const, and_assoc, ne_eq, not_not]
  refine and_congr_right fun _ => and_congr_right fun _ => and_congr_right fun _ =>
    and_congr_right fun _ => ?_
  constructor
  · rintro ⟨⟨destroys, creates, updates⟩, hsections, ⟨⟩, hbaseline, ⟨⟩, hcreates, remaining,
      hremaining, merged, hmerged, htotal, entities, hentities, h⟩
    cases h
    exact ⟨destroys, creates, updates, remaining, merged, hsections, hbaseline, hcreates,
      hremaining, hmerged, Nat.le_of_not_lt htotal, hentities, rfl⟩
  · rintro ⟨destroys, creates, updates, remaining, merged, hsections, hbaseline, hcreates,
      hremaining, hmerged, htotal, hentities, htick⟩
    refine ⟨_, hsections, (), hbaseline, (), hcreates, remaining, hremaining, merged, hmerged,
      Nat.not_lt.mpr htotal, _, hentities, ?_⟩
    rw [← htick]
    rfl

/-- `apply_delta_snapshot`. -/
def applyDeltaSnapshot (build : Build) (schema : Schema) (baseline : Snapshot)
    (bytes : List UInt8) (wireLimits : Wire.Limits) (limits : CodecLimits) :
    Outcome CodecError Snapshot := do
  let packet ← (decodePacket bytes wireLimits).mapErr .wire
  applyDeltaSnapshotFromPacket build schema baseline packet limits

end Sdec.Codec
