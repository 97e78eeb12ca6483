import Sdec.Session.Compact
import Sdec.RoundTrip.Full

/-!
# Full snapshots behind a compact header

The compact header of a full snapshot has no baseline distance, so the receiver takes the tick
itself for the baseline tick. The decoder of full snapshots wants none: it refuses every such
packet.
-/

namespace Sdec

open Rust Codec Wire

variable {build : Build} {schema : Schema}

/-- No packet that a receiver has accepted is decoded as a full snapshot. -/
theorem session_packet_not_full {bytes : List UInt8} {wireLimits : Wire.Limits}
    {session session' : SessionState} {packet : WirePacket} (hlen : bytes.length ≤ isizeMax)
    (h : decodeSessionPacket build schema bytes wireLimits session = .ok packet session')
    (limits : CodecLimits) (snapshot : Snapshot) :
    decodeFullSnapshotFromPacket build schema packet limits ≠ .ok snapshot := by
  obtain ⟨header, sections, hreceives, rfl, -⟩ := (decode_session_packet_eq_ok hlen).mp h
  obtain ⟨hafter, hbaseline⟩ := decode_session_header_after hreceives.header_eq
  intro hdecode
  obtain ⟨hflags, hzero, -⟩ := decode_full_packet_eq_ok.mp hdecode
  have hfull : header.flags.isFullSnapshot := by
    by_contra hno
    have hdelta : (receivedPacket session header sections).header.flags = .deltaSnapshot :=
      if_neg hno
    rw [hdelta] at hflags
    exact absurd hflags (by decide)
  have htick : header.tick = 0 := (hbaseline hfull).symm.trans hzero
  rw [htick] at hafter
  exact absurd hafter (UInt32.not_lt.mpr UInt32.zero_le)

/-- A full snapshot is never carried by a compact header: whatever the schema, the session, the tick
and the entities, the frame is not decoded to the snapshot that the standard packet is decoded
to. -/
theorem compact_full_frame_not_decoded {session : SessionState} {tick : SnapshotTick}
    {entities : List EntitySnapshot} {limits : CodecLimits} {out out' : List UInt8} {n : Nat}
    (hlen : out.length ≤ isizeMax)
    (hencode : encodeFullSnapshot build schema tick entities limits out = .ok (n, out'))
    {front front' : List UInt8} {headerLen : Nat} (hfront : front.length ≤ isizeMax)
    (hheader : encodeSessionHeader front .fullSnapshot (tick.raw - session.lastTick.raw) 0
      (UInt32.ofNat (n - HEADER_SIZE)) = .ok (headerLen, front')) (wireLimits : Wire.Limits) :
    ¬ ∃ packet session' snapshot,
        decodeSessionPacket build schema
            (front'.take headerLen ++ (out'.take n).drop HEADER_SIZE) wireLimits session
          = .ok packet session'
        ∧ decodeFullSnapshotFromPacket build schema packet limits = .ok snapshot
        ∧ decodeFullSnapshot build schema (out'.take n) wireLimits limits = .ok snapshot := by
  rintro ⟨packet, session', snapshot, hdecode, hfull, -⟩
  have hsize : SESSION_MAX_HEADER_SIZE ≤ front.length := by
    by_contra hshort
    rw [encodeSessionHeader, if_pos (Nat.lt_of_not_le hshort)] at hheader
    cases hheader
  rw [encode_session_header_eq (by decide) hfront hsize] at hheader
  cases hheader
  obtain ⟨-, -, -, -, hn⟩ := encode_full_snapshot_ok hlen hencode
  have hheaderLen :=
    @length_session_header_bytes_le .fullSnapshot (tick.raw - session.lastTick.raw) 0
      (UInt32.ofNat (n - HEADER_SIZE))
  rw [List.take_left] at hdecode
  refine session_packet_not_full ?_ hdecode limits snapshot hfull
  rw [List.length_append, List.length_drop, List.length_take]
  have hmax : SESSION_MAX_HEADER_SIZE ≤ HEADER_SIZE := by decide
  have hroom : HEADER_SIZE ≤ isizeMax := by decide
  omega

/-- The full snapshot of `goldenEntities` at tick 7 behind a compact header, to a receiver whose
last tick is 5. -/
def goldenFrame : List UInt8 := [1, 2, 0, 17] ++ (goldenPacket.take 45).drop HEADER_SIZE

theorem compact_full_frame_not_decoded_golden :
    ¬ ∃ packet session' snapshot,
        decodeSessionPacket (goldenBuild false) goldenSchema goldenFrame .unlimited
            ⟨schemaHash (goldenBuild false) goldenSchema, none, ⟨5⟩, .sessionV1⟩
          = .ok packet session'
        ∧ decodeFullSnapshotFromPacket (goldenBuild false) goldenSchema packet goldenLimits
          = .ok snapshot
        ∧ decodeFullSnapshot (goldenBuild false) goldenSchema (goldenPacket.take 45) .unlimited
          goldenLimits = .ok snapshot := by
  have hencode : encodeFullSnapshot (goldenBuild false) goldenSchema ⟨7⟩ goldenEntities goldenLimits
      (List.replicate 49 0) = .ok (45, goldenPacket) := by decide +kernel
  have hheader : encodeSessionHeader (List.replicate 16 0) .fullSnapshot (7 - 5) 0
      (UInt32.ofNat (45 - HEADER_SIZE)) = .ok (4, [1, 2, 0, 17] ++ List.replicate 12 0) := by
    decide +kernel
  have hnot := @compact_full_frame_not_decoded (goldenBuild false) goldenSchema
    ⟨schemaHash (goldenBuild false) goldenSchema, none, ⟨5⟩, .sessionV1⟩ ⟨7⟩ _ _ _ _ _
    (by decide) hencode _ _ _ (by decide) hheader .unlimited
  exact hnot

/-- The frame is accepted, as a packet that the decoder of full snapshots refuses. -/
theorem compact_full_frame_refused :
    decodeSessionPacket (goldenBuild false) goldenSchema goldenFrame .unlimited
        ⟨schemaHash (goldenBuild false) goldenSchema, none, ⟨5⟩, .sessionV1⟩
      = .ok ⟨⟨VERSION, .fullSnapshot, schemaHash (goldenBuild false) goldenSchema, 7, 7, 17⟩,
          [⟨.entityCreate, (goldenPacket.take 45).drop 30⟩]⟩
        ⟨schemaHash (goldenBuild false) goldenSchema, none, ⟨7⟩, .sessionV1⟩
      ∧ decodeFullSnapshotFromPacket (goldenBuild false) goldenSchema
          ⟨⟨VERSION, .fullSnapshot, schemaHash (goldenBuild false) goldenSchema, 7, 7, 17⟩,
            [⟨.entityCreate, (goldenPacket.take 45).drop 30⟩]⟩ goldenLimits
        = .error (.err (.wire (.invalidBaselineTick 7 ⟨1⟩)))
      ∧ decodeFullSnapshot (goldenBuild false) goldenSchema (goldenPacket.take 45) .unlimited
        goldenLimits = .ok ⟨⟨7⟩, goldenEntities⟩ :=
  ⟨by decide +kernel, by decide +kernel, by decide +kernel⟩

end Sdec
