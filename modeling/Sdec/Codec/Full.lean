import Sdec.Codec.Component
import Sdec.Codec.Section

/-!
# Full snapshots

Full snapshot encoding and decoding, after `codec/src/snapshot.rs`.
-/

namespace Sdec.Codec

open Rust Bitstream Wire

namespace Full

/-- `write_component_fields`. -/
def writeComponentFields (build : Build) (component : ComponentDef) (snapshot : ComponentSnapshot)
    (limits : CodecLimits) : Call CodecError BitWriter Unit := do
  if component.fields.length > limits.maxFieldsPerComponent then
    fail (.limitsExceeded .fieldsPerComponent limits.maxFieldsPerComponent component.fields.length)
  if snapshot.fields.length ≠ component.fields.length then
    fail (.invalidMask (.fieldMask component.id)
      (.fieldCountMismatch component.fields.length snapshot.fields.length))
  if snapshot.fields.length > limits.maxFieldsPerComponent then
    fail (.limitsExceeded .fieldsPerComponent limits.maxFieldsPerComponent snapshot.fields.length)
  writeAllFields build component snapshot

/-- The loop of `encode_create_body` over the entities, with the id of the one before. -/
def writeEntities (build : Build) (schema : Schema) (limits : CodecLimits) :
    Option UInt32 → List EntitySnapshot → Call CodecError BitWriter Unit
  | _, [] => return
  | prevId, entity :: rest => do
      ensureAfter prevId entity.id.raw
      stream BitWriter.alignToByte
      stream (BitWriter.writeU32Aligned entity.id.raw)
      if entity.components.length > limits.maxComponentsPerEntity then
        fail (.limitsExceeded .componentsPerEntity limits.maxComponentsPerEntity
          entity.components.length)
      ensureKnownComponents schema entity
      writeComponentMask schema entity
      schema.components.forM fun component =>
        match findComponent entity component.id with
        | some snapshot => writeComponentFields build component snapshot limits
        | none => return
      writeEntities build schema limits (some entity.id.raw) rest

/-- `encode_create_body` of `snapshot.rs`. -/
def encodeCreateBody (build : Build) (schema : Schema) (entities : List EntitySnapshot)
    (limits : CodecLimits) : Call CodecError BitWriter Unit := do
  if schema.components.length > limits.maxComponentsPerEntity then
    fail (.limitsExceeded .componentsPerEntity limits.maxComponentsPerEntity
      schema.components.length)
  stream BitWriter.alignToByte
  stream (BitWriter.writeVaru32 (UInt32.ofNat entities.length))
  writeEntities build schema limits none entities
  stream BitWriter.alignToByte

/-- `decode_create_section` of `snapshot.rs`. -/
def decodeCreateSection (build : Build) (schema : Schema) (body : List UInt8)
    (limits : CodecLimits) : Outcome CodecError (List EntitySnapshot) :=
  readSection .entityCreate limits .entitiesCreate limits.maxEntitiesCreate body fun count => do
    if schema.components.length > limits.maxComponentsPerEntity then
      fail (.limitsExceeded .componentsPerEntity limits.maxComponentsPerEntity
        schema.components.length)
    readAscending (fun entityId => do
      let componentMask ← readMask schema.components.length .componentMask
      let components ← readComponents (fun component => do
        let fields ← decodeComponentFields build component limits
        return ComponentSnapshot.mk component.id fields) componentMask 0 schema.components
      return EntitySnapshot.mk ⟨entityId⟩ components) count none

end Full

/-- `encode_header` on the front of a buffer, with its error mapped as the encoders map it. -/
def writeHeader (header : PacketHeader) (out : List UInt8) : Outcome CodecError (List UInt8) := do
  let front ← slice out 0 HEADER_SIZE
  match encodeHeader header front with
  | .ok (_, front) => copyFromSlice out 0 front
  | .error (.err _) => fail (.outputTooSmall HEADER_SIZE out.length)
  | .error .panic => fault .panic

/-- `encode_full_snapshot`. -/
def encodeFullSnapshot (build : Build) (schema : Schema) (tick : SnapshotTick)
    (entities : List EntitySnapshot) (limits : CodecLimits) (out : List UInt8) :
    Outcome CodecError (Nat × List UInt8) := do
  if out.length < HEADER_SIZE then
    fail (.outputTooSmall HEADER_SIZE out.length)
  if entities.length > limits.maxEntitiesCreate then
    fail (.limitsExceeded .entitiesCreate limits.maxEntitiesCreate entities.length)
  let ((_, offset), out) ← appendSection (!entities.isEmpty) .entityCreate limits
    (Full.encodeCreateBody build schema entities limits) () HEADER_SIZE out
  let payloadLen ← usizeSub offset HEADER_SIZE
  let header := PacketHeader.fullSnapshot (schemaHash build schema) tick.raw
    (UInt32.ofNat payloadLen)
  let out ← writeHeader header out
  return (offset, out)

/-- The loop of `decode_full_snapshot_from_packet` over the sections, with the entities of the
create section that was seen. -/
def decodeFullSections (build : Build) (schema : Schema) (limits : CodecLimits) :
    Option (List EntitySnapshot) → List WireSection → Outcome CodecError (List EntitySnapshot)
  | entities, [] => return entities.getD []
  | entities, section_ :: rest =>
      match section_.tag with
      | .entityCreate => do
          if entities.isSome then
            fail (.duplicateSection section_.tag)
          let decoded ← Full.decodeCreateSection build schema section_.body limits
          decodeFullSections build schema limits (some decoded) rest
      | _ => fail (.unexpectedSection section_.tag)

/-- `decode_full_snapshot_from_packet`. -/
def decodeFullSnapshotFromPacket (build : Build) (schema : Schema) (packet : WirePacket)
    (limits : CodecLimits) : Outcome CodecError Snapshot := do
  let header := packet.header
  if !header.flags.isFullSnapshot then
    fail (.wire (.invalidFlags header.flags.raw))
  if header.baselineTick ≠ 0 then
    fail (.wire (.invalidBaselineTick header.baselineTick header.flags.raw))
  let expectedHash := schemaHash build schema
  if header.schemaHash ≠ expectedHash then
    fail (.schemaMismatch expectedHash header.schemaHash)
  let entities ← decodeFullSections build schema limits none packet.sections
  return ⟨⟨header.tick⟩, entities⟩

/-- When a packet is decoded as a full snapshot. -/
theorem decode_full_packet_eq_ok {build : Build} {schema : Schema} {packet : WirePacket}
    {limits : CodecLimits} {snapshot : Snapshot} :
    decodeFullSnapshotFromPacket build schema packet limits = .ok snapshot ↔
      packet.header.flags.isFullSnapshot ∧ packet.header.baselineTick = 0
        ∧ packet.header.schemaHash = schemaHash build schema
        ∧ decodeFullSections build schema limits none packet.sections = .ok snapshot.entities
        ∧ snapshot.tick = ⟨packet.header.tick⟩ := by
  simp only [decodeFullSnapshotFromPacket, check_fail_eq_ok, bind_eq_ok, pure_eq_ok,
    Bool.not_eq_true', Bool.not_eq_false, not_not, ne_eq]
  constructor
  · rintro ⟨hflags, hbaseline, hhash, entities, hsections, rfl⟩
    exact ⟨hflags, hbaseline, hhash, hsections, rfl⟩
  · rintro ⟨hflags, hbaseline, hhash, hsections, htick⟩
    refine ⟨hflags, hbaseline, hhash, snapshot.entities, hsections, ?_⟩
    rw [← htick]

/-- `decode_full_snapshot`. -/
def decodeFullSnapshot (build : Build) (schema : Schema) (bytes : List UInt8)
    (wireLimits : Wire.Limits) (limits : CodecLimits) : Outcome CodecError Snapshot := do
  let packet ← (decodePacket bytes wireLimits).mapErr .wire
  decodeFullSnapshotFromPacket build schema packet limits

end Sdec.Codec
