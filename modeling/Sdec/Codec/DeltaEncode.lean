import Sdec.Codec.Change
import Sdec.Codec.Full
import Sdec.Wire.Session

/-!
# Delta encoding

The encoders of delta packets, after `codec/src/delta.rs`: from two snapshots, with masked or sparse
updates, and from change lists, behind a standard or a compact header.
-/

namespace Sdec.Codec

open Rust Bitstream Wire Sorted

namespace Delta

/-! ## Destroys and creates -/

/-- The id of a destroyed entity. -/
def writeDestroy (id : UInt32) : Call CodecError BitWriter Unit := do
  stream BitWriter.alignToByte
  stream (BitWriter.writeU32Aligned id)

/-- `encode_destroy_body_from_list`. -/
def encodeDestroyBodyFromList (destroys : List EntityId) (limits : CodecLimits) :
    Call CodecError BitWriter Unit := do
  if destroys.length > limits.maxEntitiesDestroy then
    fail (.limitsExceeded .entitiesDestroy limits.maxEntitiesDestroy destroys.length)
  stream BitWriter.alignToByte
  stream (BitWriter.writeVaru32 (UInt32.ofNat destroys.length))
  destroys.forM fun id => writeDestroy id.raw
  stream BitWriter.alignToByte

/-- `encode_destroy_body`. -/
def encodeDestroyBody (baseline current : Snapshot) (destroyCount : Nat) (limits : CodecLimits) :
    Call CodecError BitWriter Unit := do
  if destroyCount > limits.maxEntitiesDestroy then
    fail (.limitsExceeded .entitiesDestroy limits.maxEntitiesDestroy destroyCount)
  stream BitWriter.alignToByte
  stream (BitWriter.writeVaru32 (UInt32.ofNat destroyCount))
  (mergeSteps baseline current).forM fun step =>
    match step with
    | .left b => writeDestroy b.id.raw
    | _ => return
  stream BitWriter.alignToByte

/-- `write_full_component`. -/
def writeFullComponent (build : Build) (component : ComponentDef) (snapshot : ComponentSnapshot)
    (limits : CodecLimits) : Call CodecError BitWriter Unit := do
  if snapshot.fields.length ≠ component.fields.length then
    fail (.invalidMask (.fieldMask component.id)
      (.fieldCountMismatch component.fields.length snapshot.fields.length))
  if snapshot.fields.length > limits.maxFieldsPerComponent then
    fail (.limitsExceeded .fieldsPerComponent limits.maxFieldsPerComponent snapshot.fields.length)
  writeAllFields build component snapshot

/-- `write_create_entity`. -/
def writeCreateEntity (build : Build) (schema : Schema) (entity : EntitySnapshot)
    (limits : CodecLimits) : Call CodecError BitWriter Unit := do
  stream BitWriter.alignToByte
  stream (BitWriter.writeU32Aligned entity.id.raw)
  ensureKnownComponents schema entity
  writeComponentMask schema entity
  schema.components.forM fun component =>
    match findComponent entity component.id with
    | some snapshot => writeFullComponent build component snapshot limits
    | none => return

/-- `encode_create_body_from_list`. -/
def encodeCreateBodyFromList (build : Build) (schema : Schema) (creates : List EntitySnapshot)
    (limits : CodecLimits) : Call CodecError BitWriter Unit := do
  if creates.length > limits.maxEntitiesCreate then
    fail (.limitsExceeded .entitiesCreate limits.maxEntitiesCreate creates.length)
  stream BitWriter.alignToByte
  stream (BitWriter.writeVaru32 (UInt32.ofNat creates.length))
  creates.forM fun entity => writeCreateEntity build schema entity limits
  stream BitWriter.alignToByte

/-- `encode_create_body` of `delta.rs`. -/
def encodeCreateBody (build : Build) (schema : Schema) (baseline current : Snapshot)
    (createCount : Nat) (limits : CodecLimits) : Call CodecError BitWriter Unit := do
  if createCount > limits.maxEntitiesCreate then
    fail (.limitsExceeded .entitiesCreate limits.maxEntitiesCreate createCount)
  stream BitWriter.alignToByte
  stream (BitWriter.writeVaru32 (UInt32.ofNat createCount))
  (mergeSteps baseline current).forM fun step =>
    match step with
    | .right c => writeCreateEntity build schema c limits
    | _ => return
  stream BitWriter.alignToByte

/-! ## Masked updates -/

/-- The first loop of `write_update_components`: the component mask, which is kept for the second
loop. -/
def writeChangedMask (build : Build) (schema : Schema) (limits : CodecLimits)
    (baseline current : EntitySnapshot) (scratch : CodecScratch) :
    Call CodecError BitWriter CodecScratch :=
  schema.components.zipIdx.foldlM (fun scratch (component, idx) => do
    let (scanned, scratch) ← scanComponent build schema limits baseline current component scratch
    match scanned with
    | some (_, fieldMask) =>
        let anyChanged := fieldMask.any id
        stream (BitWriter.writeBit anyChanged)
        if anyChanged then
          let componentChanged ← store scratch.componentChanged idx true
          return { scratch with componentChanged }
        return scratch
    | none =>
        stream (BitWriter.writeBit false)
        return scratch) scratch

/-- The second loop of `write_update_components`: the field masks and the changed values. -/
def writeChangedFields (build : Build) (schema : Schema) (limits : CodecLimits)
    (baseline current : EntitySnapshot) (scratch : CodecScratch) :
    Call CodecError BitWriter CodecScratch :=
  schema.components.zipIdx.foldlM (fun scratch (component, idx) =>
    match findComponent baseline component.id, findComponent current component.id with
    | some base, some curr => do
        if component.fields.length > limits.maxFieldsPerComponent then
          fail (.limitsExceeded .fieldsPerComponent limits.maxFieldsPerComponent
            component.fields.length)
        let scratch := scratch.ensure schema.components.length component.fields.length
        if ← index scratch.componentChanged idx then
          let fieldMask ← computeFieldMaskInto build component base curr
            (scratch.fieldMask.take component.fields.length)
          fieldMask.forM fun bit => stream (BitWriter.writeBit bit)
          (((component.fields.zip base.fields).zip curr.fields).zip fieldMask).forM
            fun (((field, _), currVal), changed) => do
              if changed then
                writeFieldValue build component.id field currVal
          return scratch.setFieldMask fieldMask
        return scratch
    | _, _ => return scratch) scratch

/-- `write_update_components`. -/
def writeUpdateComponents (build : Build) (schema : Schema) (limits : CodecLimits)
    (baseline current : EntitySnapshot) (scratch : CodecScratch) :
    Call CodecError BitWriter CodecScratch := do
  let scratch :=
    (scratch.ensure schema.components.length 0).clearComponents schema.components.length
  let scratch ← writeChangedMask build schema limits baseline current scratch
  writeChangedFields build schema limits baseline current scratch

/-- `encode_update_body_masked`. -/
def encodeUpdateBodyMasked (build : Build) (schema : Schema) (baseline current : Snapshot)
    (updateCount : Nat) (limits : CodecLimits) (scratch : CodecScratch) :
    Call CodecError BitWriter CodecScratch := do
  if updateCount > limits.maxEntitiesUpdate then
    fail (.limitsExceeded .entitiesUpdate limits.maxEntitiesUpdate updateCount)
  stream BitWriter.alignToByte
  stream (BitWriter.writeVaru32 (UInt32.ofNat updateCount))
  let scratch ← (mergeSteps baseline current).foldlM (fun scratch step =>
    match step with
    | .both b c => do
        if ← entityHasUpdates build schema limits b c then
          stream BitWriter.alignToByte
          stream (BitWriter.writeU32Aligned c.id.raw)
          ensureComponentPresenceMatches schema b c
          writeUpdateComponents build schema limits b c scratch
        else return scratch
    | _ => return scratch) scratch
  stream BitWriter.alignToByte
  return scratch

/-! ## Sparse updates -/

/-- A sparse encoding of updates: how it writes the entity and component of an entry, and the index
of a field. -/
structure SparseWriter where
  writeKey : UInt32 → ComponentId → Call CodecError BitWriter Unit
  writeIndex : ComponentDef → Nat → Call CodecError BitWriter Unit

/-- The entry key and the field index of `encode_update_body_sparse_varint`. -/
def sparseVarint : SparseWriter where
  writeKey entityId componentId := do
    stream (BitWriter.writeU32Aligned entityId)
    stream (BitWriter.writeU16Aligned componentId.get)
  writeIndex _ idx := do
    stream BitWriter.alignToByte
    stream (BitWriter.writeVaru32 (UInt32.ofNat idx))

/-- The entry key and the field index of `encode_update_body_sparse_packed`. -/
def sparsePacked : SparseWriter where
  writeKey entityId componentId := do
    stream (BitWriter.writeVaru32 entityId)
    stream (BitWriter.writeVaru32 componentId.get.toUInt32)
  writeIndex component idx := do
    if indexBits component > 0 then
      stream (BitWriter.writeBits (UInt64.ofNat idx) (indexBits component))

/-- The loop over the fields of an entry. -/
def writeSparseFields (build : Build) (format : SparseWriter) (component : ComponentDef)
    (curr : ComponentSnapshot) (fieldMask : List Bool) : Call CodecError BitWriter Unit :=
  component.fields.zipIdx.forM fun (field, idx) => do
    if ← index fieldMask idx then
      format.writeIndex component idx
      let value ← index curr.fields idx
      writeFieldValueSparse build component.id field value

/-- The entry of a changed component. -/
def writeSparseEntry (build : Build) (format : SparseWriter) (entityId : UInt32)
    (component : ComponentDef) (curr : ComponentSnapshot) (fieldMask : List Bool) :
    Call CodecError BitWriter Unit := do
  let changedFields := fieldMask.count true
  if changedFields > 0 then
    stream BitWriter.alignToByte
    format.writeKey entityId component.id
    stream (BitWriter.writeVaru32 (UInt32.ofNat changedFields))
    writeSparseFields build format component curr fieldMask

/-- The body of both sparse encoders. -/
def encodeUpdateBodySparse (format : SparseWriter) (build : Build) (schema : Schema)
    (baseline current : Snapshot) (updateCount : Nat) (limits : CodecLimits)
    (scratch : CodecScratch) : Call CodecError BitWriter CodecScratch := do
  if updateCount > limits.maxEntitiesUpdate then
    fail (.limitsExceeded .entitiesUpdate limits.maxEntitiesUpdate updateCount)
  let (entryCount, scratch) ←
    countSparseUpdateEntries build schema limits baseline current scratch
  let entryLimit := saturatingMul limits.maxEntitiesUpdate limits.maxComponentsPerEntity
  if entryCount > entryLimit then
    fail (.limitsExceeded .entitiesUpdate entryLimit entryCount)
  stream BitWriter.alignToByte
  stream (BitWriter.writeVaru32 (UInt32.ofNat entryCount))
  let scratch ← (mergeSteps baseline current).foldlM (fun scratch step =>
    match step with
    | .both base curr => do
        if ← entityHasUpdates build schema limits base curr then
          schema.components.foldlM (fun scratch component => do
            let (scanned, scratch) ← scanComponent build schema limits base curr component scratch
            match scanned with
            | some (currComponent, fieldMask) =>
                writeSparseEntry build format curr.id.raw component currComponent fieldMask
                return scratch
            | none => return scratch) scratch
        else return scratch
    | _ => return scratch) scratch
  stream BitWriter.alignToByte
  return scratch

/-- `encode_update_body_sparse_varint`. -/
def encodeUpdateBodySparseVarint := encodeUpdateBodySparse sparseVarint

/-- `encode_update_body_sparse_packed`. -/
def encodeUpdateBodySparsePacked := encodeUpdateBodySparse sparsePacked

/-! ## Updates from change lists -/

/-- `ComponentLookup`. -/
structure ComponentLookup where
  index : List (Option Nat)
  indexBits : List UInt8
  deriving DecidableEq, Repr

/-- `build_component_lookup`. -/
def buildComponentLookup (schema : Schema) : ComponentLookup :=
  let maxId := (schema.components.map fun component => component.id.get.toNat).max?.getD 0
  schema.components.zipIdx.foldl (fun lookup (component, componentIndex) =>
    let id := component.id.get.toNat
    { index := lookup.index.set id (some componentIndex)
      indexBits := lookup.indexBits.set id (indexBits component) })
    ⟨List.replicate (maxId + 1) none, List.replicate (maxId + 1) 0⟩

/-- `ComponentLookup::component`. -/
def ComponentLookup.component (lookup : ComponentLookup) (schema : Schema) (id : ComponentId) :
    Outcome CodecError ComponentDef :=
  match lookup.index[id.get.toNat]? with
  | some (some componentIndex) => Rust.index schema.components componentIndex
  | _ => fail (.invalidMask .componentMask (.unknownComponent id))

/-- `ComponentLookup::index_bits`. -/
def ComponentLookup.bits (lookup : ComponentLookup) (id : ComponentId) : UInt8 :=
  lookup.indexBits[id.get.toNat]?.getD 0

/-- The checks of `validate_updates_for_encoding` on one component. -/
def validateUpdateComponent (schema : Schema) (limits : CodecLimits) (lookup : ComponentLookup)
    (update : DeltaUpdateComponent) : Outcome CodecError Unit := do
  let component ← lookup.component schema update.id
  if update.fields.isEmpty then
    fail (.invalidMask (.fieldMask update.id) (.emptyFieldMask update.id))
  if update.fields.length > limits.maxFieldsPerComponent then
    fail (.limitsExceeded .fieldsPerComponent limits.maxFieldsPerComponent update.fields.length)
  let maxIndex := component.fields.length - 1
  update.fields.forM fun (fieldIdx, _) => do
    if fieldIdx ≥ component.fields.length then
      fail (.invalidMask (.fieldMask update.id) (.invalidFieldIndex fieldIdx maxIndex))

/-- The loop of `validate_updates_for_encoding`, with the id of the entity before. -/
def validateUpdatesLoop (schema : Schema) (limits : CodecLimits) (lookup : ComponentLookup) :
    Option UInt32 → List DeltaUpdateEntity → Outcome CodecError Unit
  | _, [] => return
  | prev, update :: rest => do
      ensureAfter prev update.id.raw
      if update.components.length > limits.maxComponentsPerEntity then
        fail (.limitsExceeded .componentsPerEntity limits.maxComponentsPerEntity
          update.components.length)
      update.components.forM (validateUpdateComponent schema limits lookup)
      validateUpdatesLoop schema limits lookup (some update.id.raw) rest

/-- `validate_updates_for_encoding`. -/
def validateUpdatesForEncoding (schema : Schema) (updates : List DeltaUpdateEntity)
    (limits : CodecLimits) (lookup : ComponentLookup) : Outcome CodecError Unit :=
  validateUpdatesLoop schema limits lookup none updates

/-- The entry of one component of a change list. -/
def writeListedEntry (build : Build) (schema : Schema) (lookup : ComponentLookup)
    (entityId : UInt32) (update : DeltaUpdateComponent) : Call CodecError BitWriter Unit := do
  let component ← lookup.component schema update.id
  stream BitWriter.alignToByte
  stream (BitWriter.writeVaru32 entityId)
  stream (BitWriter.writeVaru32 component.id.get.toUInt32)
  stream (BitWriter.writeVaru32 (UInt32.ofNat update.fields.length))
  let bits := lookup.bits component.id
  update.fields.forM fun (fieldIdx, value) => do
    if bits > 0 then
      stream (BitWriter.writeBits (UInt64.ofNat fieldIdx) bits)
    let field ← index component.fields fieldIdx
    writeFieldValueSparse build component.id field value

/-- `encode_update_body_sparse_packed_from_updates`. -/
def encodeUpdateBodySparsePackedFromUpdates (build : Build) (schema : Schema)
    (updates : List DeltaUpdateEntity) (limits : CodecLimits) (lookup : ComponentLookup) :
    Call CodecError BitWriter Unit := do
  if updates.length > limits.maxEntitiesUpdate then
    fail (.limitsExceeded .entitiesUpdate limits.maxEntitiesUpdate updates.length)
  let entryCount := (updates.map fun update => update.components.length).sum
  let entryLimit := saturatingMul limits.maxEntitiesUpdate limits.maxComponentsPerEntity
  if entryCount > entryLimit then
    fail (.limitsExceeded .entitiesUpdate entryLimit entryCount)
  stream BitWriter.alignToByte
  stream (BitWriter.writeVaru32 (UInt32.ofNat entryCount))
  updates.forM fun update =>
    update.components.forM (writeListedEntry build schema lookup update.id.raw)
  stream BitWriter.alignToByte

end Delta

/-! ## Payloads -/

/-- `EncodeUpdateMode`. -/
inductive EncodeUpdateMode where
  | auto
  | sparse
  deriving DecidableEq, Repr

/-- The choice of the update encoding in `encode_delta_payload_with_mode`. -/
def chooseUpdateEncoding (build : Build) (schema : Schema) (baseline current : Snapshot)
    (limits : CodecLimits) (scratch : CodecScratch) (mode : EncodeUpdateMode) :
    Outcome CodecError (UpdateEncoding × CodecScratch) :=
  match mode with
  | .auto => selectUpdateEncoding build schema limits baseline current scratch
  | .sparse => return (.sparse, scratch)

/-- The tag of the section of an update encoding. -/
def UpdateEncoding.tag : UpdateEncoding → SectionTag
  | .masked => .entityUpdate
  | .sparse => .entityUpdateSparsePacked

/-- The body of the section of an update encoding. -/
def UpdateEncoding.encodeBody : UpdateEncoding → Build → Schema → Snapshot → Snapshot → Nat →
    CodecLimits → CodecScratch → Call CodecError BitWriter CodecScratch
  | .masked => Delta.encodeUpdateBodyMasked
  | .sparse => Delta.encodeUpdateBodySparsePacked

/-- `encode_delta_payload_with_mode`. -/
def encodeDeltaPayloadWithMode (build : Build) (schema : Schema) (baselineTick : SnapshotTick)
    (baseline current : Snapshot) (limits : CodecLimits) (mode : EncodeUpdateMode)
    (scratch : CodecScratch) (out : List UInt8) :
    Outcome CodecError ((CodecScratch × Nat) × List UInt8) := do
  if baseline.tick ≠ baselineTick then
    fail (.baselineTickMismatch baseline.tick.raw baselineTick.raw)
  ensureEntitiesSorted baseline.entities
  ensureEntitiesSorted current.entities
  let counts ← diffCounts build schema limits baseline current
  if counts.creates > limits.maxEntitiesCreate then
    fail (.limitsExceeded .entitiesCreate limits.maxEntitiesCreate counts.creates)
  if counts.updates > limits.maxEntitiesUpdate then
    fail (.limitsExceeded .entitiesUpdate limits.maxEntitiesUpdate counts.updates)
  if counts.destroys > limits.maxEntitiesDestroy then
    fail (.limitsExceeded .entitiesDestroy limits.maxEntitiesDestroy counts.destroys)
  let ((_, offset), out) ← appendSection (counts.destroys > 0) .entityDestroy limits
    (Delta.encodeDestroyBody baseline current counts.destroys limits) () 0 out
  let ((_, offset), out) ← appendSection (counts.creates > 0) .entityCreate limits
    (Delta.encodeCreateBody build schema baseline current counts.creates limits) () offset out
  if counts.updates > 0 then
    let (updateEncoding, scratch) ←
      chooseUpdateEncoding build schema baseline current limits scratch mode
    appendSection true updateEncoding.tag limits
      (updateEncoding.encodeBody build schema baseline current counts.updates limits scratch)
      scratch offset out
  else
    return ((scratch, offset), out)

/-- `encode_delta_payload_from_updates`. -/
def encodeDeltaPayloadFromUpdates (build : Build) (schema : Schema) (destroys : List EntityId)
    (creates : List EntitySnapshot) (updates : List DeltaUpdateEntity) (limits : CodecLimits)
    (out : List UInt8) : Outcome CodecError (Nat × List UInt8) := do
  if destroys.length > limits.maxEntitiesDestroy then
    fail (.limitsExceeded .entitiesDestroy limits.maxEntitiesDestroy destroys.length)
  if creates.length > limits.maxEntitiesCreate then
    fail (.limitsExceeded .entitiesCreate limits.maxEntitiesCreate creates.length)
  if updates.length > limits.maxEntitiesUpdate then
    fail (.limitsExceeded .entitiesUpdate limits.maxEntitiesUpdate updates.length)
  ensureEntityIdsSorted destroys
  ensureEntitiesSorted creates
  let lookup := Delta.buildComponentLookup schema
  Delta.validateUpdatesForEncoding schema updates limits lookup
  let ((_, offset), out) ← appendSection (!destroys.isEmpty) .entityDestroy limits
    (Delta.encodeDestroyBodyFromList destroys limits) () 0 out
  let ((_, offset), out) ← appendSection (!creates.isEmpty) .entityCreate limits
    (Delta.encodeCreateBodyFromList build schema creates limits) () offset out
  let ((_, offset), out) ← appendSection (!updates.isEmpty) .entityUpdateSparsePacked limits
    (Delta.encodeUpdateBodySparsePackedFromUpdates build schema updates limits lookup) () offset out
  return (offset, out)

/-! ## Packets -/

/-- A payload behind the header of a delta packet, as `encode_delta_snapshot_with_scratch_mode` and
`encode_delta_snapshot_from_updates` assemble it. -/
def encodeDeltaPacket {α : Type} (build : Build) (schema : Schema)
    (tick baselineTick : SnapshotTick)
    (encodePayload : List UInt8 → Outcome CodecError ((α × Nat) × List UInt8)) (out : List UInt8) :
    Outcome CodecError ((α × Nat) × List UInt8) := do
  if out.length < HEADER_SIZE then
    fail (.outputTooSmall HEADER_SIZE out.length)
  let ((a, payloadLen), out) ← withTail out HEADER_SIZE encodePayload
  let header := PacketHeader.deltaSnapshot (schemaHash build schema) tick.raw baselineTick.raw
    (UInt32.ofNat payloadLen)
  let out ← writeHeader header out
  let len ← usizeAdd HEADER_SIZE payloadLen
  return ((a, len), out)

/-- `encode_delta_snapshot_with_scratch_mode`. -/
def encodeDeltaSnapshotWithScratchMode (build : Build) (schema : Schema)
    (tick baselineTick : SnapshotTick) (baseline current : Snapshot) (limits : CodecLimits)
    (mode : EncodeUpdateMode) (scratch : CodecScratch) (out : List UInt8) :
    Outcome CodecError ((CodecScratch × Nat) × List UInt8) :=
  encodeDeltaPacket build schema tick baselineTick
    (encodeDeltaPayloadWithMode build schema baselineTick baseline current limits mode scratch) out

/-- `encode_delta_snapshot_with_scratch`. -/
def encodeDeltaSnapshotWithScratch (build : Build) (schema : Schema)
    (tick baselineTick : SnapshotTick) (baseline current : Snapshot) (limits : CodecLimits)
    (scratch : CodecScratch) (out : List UInt8) :
    Outcome CodecError ((CodecScratch × Nat) × List UInt8) :=
  encodeDeltaSnapshotWithScratchMode build schema tick baselineTick baseline current limits .auto
    scratch out

/-- `encode_delta_snapshot`. -/
def encodeDeltaSnapshot (build : Build) (schema : Schema) (tick baselineTick : SnapshotTick)
    (baseline current : Snapshot) (limits : CodecLimits) (out : List UInt8) :
    Outcome CodecError (Nat × List UInt8) := do
  let ((_, len), out) ← encodeDeltaSnapshotWithScratch build schema tick baselineTick baseline
    current limits .default out
  return (len, out)

/-- `encode_delta_snapshot_for_client_with_scratch`. -/
def encodeDeltaSnapshotForClientWithScratch (build : Build) (schema : Schema)
    (tick baselineTick : SnapshotTick) (baseline current : Snapshot) (limits : CodecLimits)
    (scratch : CodecScratch) (out : List UInt8) :
    Outcome CodecError ((CodecScratch × Nat) × List UInt8) :=
  encodeDeltaSnapshotWithScratchMode build schema tick baselineTick baseline current limits .sparse
    scratch out

/-- `encode_delta_snapshot_for_client`. -/
def encodeDeltaSnapshotForClient (build : Build) (schema : Schema)
    (tick baselineTick : SnapshotTick) (baseline current : Snapshot) (limits : CodecLimits)
    (out : List UInt8) : Outcome CodecError (Nat × List UInt8) := do
  let ((_, len), out) ← encodeDeltaSnapshotForClientWithScratch build schema tick baselineTick
    baseline current limits .default out
  return (len, out)

/-- `encode_delta_snapshot_from_updates`. -/
def encodeDeltaSnapshotFromUpdates (build : Build) (schema : Schema)
    (tick baselineTick : SnapshotTick) (destroys : List EntityId) (creates : List EntitySnapshot)
    (updates : List DeltaUpdateEntity) (limits : CodecLimits) (out : List UInt8) :
    Outcome CodecError (Nat × List UInt8) := do
  let ((_, len), out) ← encodeDeltaPacket build schema tick baselineTick (fun out => do
    let (len, out) ← encodeDeltaPayloadFromUpdates build schema destroys creates updates limits out
    return (((), len), out)) out
  return (len, out)

/-- `SessionEncoder`, less its scratch buffers, which nothing uses. -/
structure SessionEncoder where
  schema : Schema
  limits : CodecLimits
  deriving DecidableEq, Repr

/-- `encode_delta_from_changes`. -/
def encodeDeltaFromChanges (build : Build) (session : SessionEncoder)
    (tick baselineTick : SnapshotTick) (creates : List EntitySnapshot) (destroys : List EntityId)
    (updates : List DeltaUpdateEntity) (out : List UInt8) : Outcome CodecError (Nat × List UInt8) :=
  encodeDeltaSnapshotFromUpdates build session.schema tick baselineTick destroys creates updates
    session.limits out

/-! ## Compact packets -/

/-- `encode_session_header` on the front of a buffer, with its error mapped. -/
def writeSessionHeader (flags : SessionFlags) (tickDelta baselineDelta payloadLen : UInt32)
    (out : List UInt8) : Outcome CodecError (Nat × List UInt8) := do
  let front ← slice out 0 SESSION_MAX_HEADER_SIZE
  match encodeSessionHeader front flags tickDelta baselineDelta payloadLen with
  | .ok (headerLen, front) => do
      let out ← copyFromSlice out 0 front
      return (headerLen, out)
  | .error (.err _) => fail (.outputTooSmall SESSION_MAX_HEADER_SIZE out.length)
  | .error .panic => fault .panic

/-- `encode_delta_snapshot_for_client_session_with_scratch`, on the last tick of the sender. -/
def encodeDeltaSnapshotForClientSessionWithScratch (build : Build) (schema : Schema)
    (tick baselineTick : SnapshotTick) (baseline current : Snapshot) (limits : CodecLimits)
    (scratch : CodecScratch) (out : List UInt8) :
    Call CodecError SnapshotTick ((CodecScratch × Nat) × List UInt8) := do
  let lastTick ← get
  let maxHeader := SESSION_MAX_HEADER_SIZE
  if out.length < maxHeader then
    fail (.outputTooSmall maxHeader out.length)
  if tick.raw ≤ lastTick.raw then
    fail (.invalidEntityOrder lastTick.raw tick.raw)
  if baselineTick.raw > tick.raw then
    fail (.baselineTickMismatch baselineTick.raw tick.raw)
  let ((scratch, payloadLen), out) ← withTail out maxHeader
    (encodeDeltaPayloadWithMode build schema baselineTick baseline current limits .sparse scratch)
  let tickDelta ← u32Sub tick.raw lastTick.raw
  let baselineDelta ← u32Sub tick.raw baselineTick.raw
  let (headerLen, out) ← writeSessionHeader .deltaSnapshot tickDelta baselineDelta
    (UInt32.ofNat payloadLen) out
  let payloadEnd ← usizeAdd maxHeader payloadLen
  let out ←
    if headerLen < maxHeader then copyWithin out maxHeader payloadEnd headerLen
    else pure out
  set tick
  let len ← usizeAdd headerLen payloadLen
  return ((scratch, len), out)

/-- `encode_delta_snapshot_for_client_session`. -/
def encodeDeltaSnapshotForClientSession (build : Build) (schema : Schema)
    (tick baselineTick : SnapshotTick) (baseline current : Snapshot) (limits : CodecLimits)
    (out : List UInt8) : Call CodecError SnapshotTick (Nat × List UInt8) := do
  let ((_, len), out) ← encodeDeltaSnapshotForClientSessionWithScratch build schema tick
    baselineTick baseline current limits .default out
  return (len, out)

end Sdec.Codec
