import Sdec.Codec.Full
import Sdec.Wire.Session

/-!
# Sessions

The packet that starts a session, its decoder, and the receiver of compact packets, after
`codec/src/session.rs`.
-/

namespace Sdec.Codec

open Rust Bitstream Wire

/-- `CompactHeaderMode`. -/
inductive CompactHeaderMode where
  | sessionV1
  deriving DecidableEq, Repr

/-- `CompactHeaderMode as u8`. -/
def CompactHeaderMode.toU8 : CompactHeaderMode → UInt8
  | .sessionV1 => 1

/-- `CompactHeaderMode::from_raw`. -/
def CompactHeaderMode.fromRaw (raw : UInt8) : Option CompactHeaderMode :=
  match raw.toNat with
  | 1 => some .sessionV1
  | _ => none

/-- `SessionState`. -/
structure SessionState where
  schemaHash : UInt64
  sessionId : Option UInt64
  lastTick : SnapshotTick
  compactMode : CompactHeaderMode
  deriving DecidableEq, Repr

/-- `encode_session_init_body`. -/
def encodeSessionInitBody (sessionId : Option UInt64) (compactMode : CompactHeaderMode) :
    Call CodecError BitWriter Unit := do
  stream BitWriter.alignToByte
  stream (BitWriter.writeU64Aligned (sessionId.getD 0))
  stream (BitWriter.writeU8Aligned compactMode.toU8)
  stream BitWriter.alignToByte

/-- `encode_session_init_packet`. Unlike the other encoders it slices `out` before any check of its
length. -/
def encodeSessionInitPacket (build : Build) (schema : Schema) (tick : SnapshotTick)
    (sessionId : Option UInt64) (compactMode : CompactHeaderMode) (limits : CodecLimits)
    (out : List UInt8) : Outcome CodecError (Nat × List UInt8) := do
  let ((_, bodyLen), out) ← withTail out HEADER_SIZE
    (writeSection .sessionInit limits (encodeSessionInitBody sessionId compactMode))
  let offset ← usizeAdd HEADER_SIZE bodyLen
  let payloadLen ← usizeSub offset HEADER_SIZE
  let header : PacketHeader :=
    { version := VERSION
      flags := .sessionInit
      schemaHash := schemaHash build schema
      tick := tick.raw
      baselineTick := 0
      payloadLen := UInt32.ofNat payloadLen }
  let out ← writeHeader header out
  return (offset, out)

/-- The calls of `decode_session_init_body` on its reader. -/
def readSessionInitBody : Call CodecError BitReader (Option UInt64 × CompactHeaderMode) := do
  stream BitReader.alignToByte
  let sessionId ← stream BitReader.readU64Aligned
  let mode ← stream BitReader.readU8Aligned
  stream BitReader.alignToByte
  let reader ← get
  if reader.bitsRemaining ≠ 0 then
    fail (.trailingSectionData .sessionInit reader.bitsRemaining)
  match CompactHeaderMode.fromRaw mode with
  | none => fail (.sessionUnsupportedMode mode)
  | some compactMode => return (if sessionId = 0 then none else some sessionId, compactMode)

/-- `decode_session_init_body`. -/
def decodeSessionInitBody (body : List UInt8) (limits : CodecLimits) :
    Outcome CodecError (Option UInt64 × CompactHeaderMode) := do
  if body.length > limits.maxSectionBytes then
    fail (.limitsExceeded .sectionBytes limits.maxSectionBytes body.length)
  readSessionInitBody.evalOn (BitReader.new body)

/-- The loop of `decode_session_init_packet` over the sections, with the section found so far. -/
def findInitSection : Option WireSection → List WireSection →
    Outcome CodecError (Option WireSection)
  | initSection, [] => return initSection
  | initSection, section_ :: rest =>
      match section_.tag with
      | .sessionInit => do
          if initSection.isSome then
            fail .sessionInitInvalid
          findInitSection (some section_) rest
      | _ => fail (.unexpectedSection section_.tag)

/-- `decode_session_init_packet`. -/
def decodeSessionInitPacket (build : Build) (schema : Schema) (packet : WirePacket)
    (limits : CodecLimits) : Outcome CodecError SessionState := do
  let header := packet.header
  if !header.flags.isSessionInit then
    fail .sessionMissing
  if header.flags.isFullSnapshot || header.flags.isDeltaSnapshot then
    fail .sessionInitInvalid
  if header.baselineTick ≠ 0 then
    fail .sessionInitInvalid
  let expectedHash := schemaHash build schema
  if header.schemaHash ≠ expectedHash then
    fail (.schemaMismatch expectedHash header.schemaHash)
  let initSection ← findInitSection none packet.sections
  match initSection with
  | none => fail .sessionInitInvalid
  | some section_ => do
      let (sessionId, compactMode) ← decodeSessionInitBody section_.body limits
      return ⟨header.schemaHash, sessionId, ⟨header.tick⟩, compactMode⟩

/-- `decode_session_packet`. -/
def decodeSessionPacket (build : Build) (schema : Schema) (bytes : List UInt8)
    (wireLimits : Wire.Limits) : Call CodecError SessionState WirePacket := do
  let session ← get
  if session.schemaHash ≠ schemaHash build schema then
    fail (.schemaMismatch (schemaHash build schema) session.schemaHash)
  let header ← (decodeSessionHeader bytes session.lastTick.raw).mapErr CodecError.wire
  if header.tick ≤ session.lastTick.raw then
    fail (.sessionOutOfOrder session.lastTick.raw header.tick)
  let payloadStart := header.headerLen
  let payloadEnd ← usizeAdd payloadStart header.payloadLen.toNat
  if payloadEnd > bytes.length then
    fail (.wire (.payloadLengthMismatch header.payloadLen (bytes.length - payloadStart)))
  let payload ← slice bytes payloadStart payloadEnd
  let sections ← (decodeSections payload wireLimits).mapErr CodecError.wire
  set { session with lastTick := ⟨header.tick⟩ }
  let flags := if header.flags.isFullSnapshot then PacketFlags.fullSnapshot
    else PacketFlags.deltaSnapshot
  return ⟨⟨VERSION, flags, session.schemaHash, header.tick, header.baselineTick,
    header.payloadLen⟩, sections⟩

end Sdec.Codec
