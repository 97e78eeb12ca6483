import Sdec.Format.Packet
import Sdec.Session.Compact
import Sdec.Wire.SessionHeader

/-!
# Framing of compact packets

A standard packet is refused when it is longer than the limits allow, or when its payload length is
not the number of bytes behind its header. The receiver of compact packets only refuses a payload
length that goes beyond the bytes.
-/

namespace Sdec

open Rust Codec Wire

/-- The bytes are no longer than the limits allow, and all bytes behind the compact header are the
payload, which is made of the sections. -/
def FillsFrame (wireLimits : Wire.Limits) (lastTick : SnapshotTick) (bytes : List UInt8)
    (packet : WirePacket) : Prop :=
  bytes.length ≤ wireLimits.maxPacketBytes
    ∧ ∃ header, decodeSessionHeader bytes lastTick.raw = .ok header
      ∧ header.headerLen + packet.header.payloadLen.toNat = bytes.length
      ∧ Partitioned (bytes.drop header.headerLen) packet.sections

/-- Compact packets are framed strictly exactly where the payload length of a frame is the number of
bytes behind the header and the limits admit the frame, or the frame is refused for another reason.
An error never changes the session. -/
theorem compact_frame_strict_iff (build : Build) (schema : Schema) (session : SessionState)
    (bytes : List UInt8) (hlen : bytes.length ≤ isizeMax) (wireLimits : Wire.Limits) :
    ((∀ packet session',
        decodeSessionPacket build schema bytes wireLimits session = .ok packet session' →
          FillsFrame wireLimits session.lastTick bytes packet)
      ∧ ∀ e session', decodeSessionPacket build schema bytes wireLimits session
        = .error e session' → session' = session)
      ↔ (session.schemaHash = schemaHash build schema →
          ∀ header, decodeSessionHeader bytes session.lastTick.raw = .ok header →
            header.headerLen + header.payloadLen.toNat ≤ bytes.length →
            (∃ sections, decodeSections ((bytes.take (header.headerLen
              + header.payloadLen.toNat)).drop header.headerLen) wireLimits = .ok sections) →
              bytes.length ≤ wireLimits.maxPacketBytes
                ∧ header.payloadLen.toNat = bytes.length - header.headerLen) := by
  constructor
  · intro ⟨hstrict, _⟩ hhash header hheader hlength ⟨sections, hsections⟩
    have hok := (decode_session_packet_eq_ok hlen).mpr
      ⟨header, sections, ⟨hhash, hheader, hlength, hsections⟩, rfl, rfl⟩
    obtain ⟨hsize, header', hheader', hfills, -⟩ := hstrict _ _ hok
    rw [hheader] at hheader'
    cases hheader'
    refine ⟨hsize, ?_⟩
    show header.payloadLen.toNat = _
    have hlast : header.headerLen + header.payloadLen.toNat = bytes.length := hfills
    omega
  · intro hcondition
    refine ⟨fun packet session' hok => ?_, fun e session' herror =>
      (decode_session_packet_error hlen herror).1⟩
    obtain ⟨header, sections, hreceives, rfl, -⟩ := (decode_session_packet_eq_ok hlen).mp hok
    obtain ⟨hsize, hpayload⟩ := hcondition hreceives.hash header hreceives.header_eq
      hreceives.length ⟨sections, hreceives.sections_eq⟩
    have hlast : header.headerLen + header.payloadLen.toNat = bytes.length := by
      have := hreceives.length
      omega
    refine ⟨hsize, header, hreceives.header_eq, hlast, ?_⟩
    -- The payload that is cut into sections is all that comes behind the header.
    have hsections := hreceives.sections_eq
    rw [hlast, List.take_length] at hsections
    have hshort : (bytes.drop header.headerLen).length ≤ isizeMax := by
      rw [List.length_drop]
      omega
    exact ((@decode_sections_ensures _ False _ hshort).of_ok hsections).2

/-- A receiver of packets of the golden schema. -/
def goldenSession : SessionState :=
  ⟨schemaHash (goldenBuild false) goldenSchema, none, ⟨5⟩, .sessionV1⟩

/-- A delta with one section of updates, to a receiver whose last tick is 5. -/
def updateFrame : List UInt8 := [2, 1, 1, 10, 5, 8, 1, 3, 10, 3, 8, 3, 236, 128]

theorem compact_frame_strict_update :
    FillsFrame .unlimited ⟨5⟩ updateFrame
      ⟨⟨VERSION, .deltaSnapshot, goldenSession.schemaHash, 6, 5, 10⟩,
        [⟨.entityUpdateSparsePacked, [1, 3, 10, 3, 8, 3, 236, 128]⟩]⟩ := by
  have hdecode : decodeSessionHeader updateFrame goldenSession.lastTick.raw
      = .ok ⟨.deltaSnapshot, 6, 5, 10, 4⟩ := rfl
  refine ((compact_frame_strict_iff (goldenBuild false) goldenSchema goldenSession updateFrame
    (by decide) .unlimited).mpr ?_).1 _ { goldenSession with lastTick := ⟨6⟩ } ?_
  · intro _ header hheader _ _
    cases hdecode.symm.trans hheader
    exact ⟨by decide, rfl⟩
  · exact (decode_session_packet_eq_ok (by decide)).mpr
      ⟨_, _, ⟨rfl, hdecode, by decide, by decide +kernel⟩, rfl, rfl⟩

/-- An empty delta to a receiver whose last tick is 5. -/
def emptyDeltaFrame : List UInt8 := [2, 2, 1, 0]

/-- A frame with a byte behind its payload is accepted too, under limits that admit no bytes. -/
theorem compact_frame_trailing_byte_accepted :
    decodeSessionPacket (goldenBuild false) goldenSchema (emptyDeltaFrame ++ [255]) ⟨0, 8, 8⟩
        goldenSession
      = .ok ⟨⟨VERSION, .deltaSnapshot, goldenSession.schemaHash, 7, 6, 0⟩, []⟩
          { goldenSession with lastTick := ⟨7⟩ }
      ∧ ¬ FillsFrame ⟨0, 8, 8⟩ goldenSession.lastTick (emptyDeltaFrame ++ [255])
          ⟨⟨VERSION, .deltaSnapshot, goldenSession.schemaHash, 7, 6, 0⟩, []⟩ := by
  constructor
  · exact (decode_session_packet_eq_ok (by decide)).mpr
      ⟨⟨.deltaSnapshot, 7, 6, 0, 4⟩, [], ⟨rfl, rfl, by decide, rfl⟩, rfl, rfl⟩
  · intro ⟨hsize, _⟩
    exact absurd hsize (by decide)

end Sdec
