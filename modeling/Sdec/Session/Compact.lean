import Sdec.Codec.Session
import Sdec.Format.Packet

/-!
# Compact packets

What the sender of compact packets writes, and what a receiver makes of it. The sender puts the
distance of the tick from its own last tick into the header, and the receiver adds it to its own.
-/

namespace Sdec

open Rust Bits Bitstream Codec Wire

variable {build : Build} {schema : Schema} {limits : CodecLimits}

/-! ## Encoding -/

/-- The compact packet of a delta, from a sender whose last tick is `lastTick`. -/
def compactPacket (lastTick tick baselineTick : SnapshotTick) (payload : List UInt8) : List UInt8 :=
  sessionHeaderBytes .deltaSnapshot (tick.raw - lastTick.raw) (tick.raw - baselineTick.raw)
    (UInt32.ofNat payload.length) ++ payload

/-- `encode_session_header` on the front of a buffer overwrites the front with the header. -/
theorem write_session_header_eq {flags : SessionFlags} (hflags : flags.isValid)
    (tickDelta baselineDelta payloadLen : UInt32) {out : List UInt8} (hlen : out.length ≤ isizeMax)
    (hfits : SESSION_MAX_HEADER_SIZE ≤ out.length) :
    writeSessionHeader flags tickDelta baselineDelta payloadLen out
      = .ok ((sessionHeaderBytes flags tickDelta baselineDelta payloadLen).length,
        sessionHeaderBytes flags tickDelta baselineDelta payloadLen
          ++ out.drop (sessionHeaderBytes flags tickDelta baselineDelta payloadLen).length) := by
  have hsize := @length_session_header_bytes_le flags tickDelta baselineDelta payloadLen
  have hfront : slice (m := Outcome CodecError) out 0 SESSION_MAX_HEADER_SIZE
      = pure (out.take SESSION_MAX_HEADER_SIZE) := slice_of_le (Nat.zero_le _) hfits
  have htake : (out.take SESSION_MAX_HEADER_SIZE).length = SESSION_MAX_HEADER_SIZE := by
    rw [List.length_take, Nat.min_eq_left hfits]
  have hencode := @encode_session_header_eq flags tickDelta baselineDelta payloadLen hflags
    (out.take SESSION_MAX_HEADER_SIZE) (by omega) (by omega)
  rw [writeSessionHeader, hfront, pure_bind, hencode]
  show (copyFromSlice out 0 _ >>= fun out => pure (_, out)) = _
  rw [copy_from_slice_of_le (by rw [List.length_append, List.length_drop, htake]; omega), pure_bind,
    List.length_append, List.length_drop, htake, Nat.add_sub_cancel' hsize, List.take_zero,
    List.nil_append, Nat.zero_add, List.append_assoc, List.drop_take]
  have hdrop : (out.drop (sessionHeaderBytes flags tickDelta baselineDelta payloadLen).length).take
      (SESSION_MAX_HEADER_SIZE
        - (sessionHeaderBytes flags tickDelta baselineDelta payloadLen).length)
      ++ out.drop SESSION_MAX_HEADER_SIZE
        = out.drop (sessionHeaderBytes flags tickDelta baselineDelta payloadLen).length := by
    conv_rhs => rw [← List.take_append_drop (SESSION_MAX_HEADER_SIZE
      - (sessionHeaderBytes flags tickDelta baselineDelta payloadLen).length) (out.drop _)]
    rw [List.drop_drop, Nat.add_sub_cancel' hsize]
  rw [hdrop]
  rfl

/-- The payload is moved from behind the room for the longest header to behind the header. -/
theorem move_payload_eq {header gap payload rest : List UInt8} :
    ∃ rest', copyWithin (m := Call CodecError SnapshotTick) (header ++ gap ++ payload ++ rest)
        (header.length + gap.length) (header.length + gap.length + payload.length) header.length
      = pure (header ++ payload ++ rest') := by
  have hlen : (header ++ gap ++ payload ++ rest).length
      = header.length + gap.length + payload.length + rest.length := by
    simp only [List.length_append]
  have hdrop : (header ++ gap ++ payload ++ rest).drop (header.length + gap.length)
      = payload ++ rest := by
    rw [← List.length_append, List.append_assoc, List.drop_left]
  have htake : (header ++ gap ++ payload ++ rest).take header.length = header := by
    rw [List.append_assoc, List.append_assoc, List.take_left]
  refine ⟨(header ++ gap ++ payload ++ rest).drop (header.length + payload.length), ?_⟩
  rw [copyWithin, slice_of_drop_eq_append hdrop (by omega), pure_bind,
    copy_from_slice_of_le (by omega), htake]

variable {tick baselineTick lastTick : SnapshotTick} {baseline current : Snapshot}

/-- What is known of the compact packet of a delta that was encoded. -/
structure EncodesCompact (build : Build) (schema : Schema) (limits : CodecLimits)
    (tick baselineTick : SnapshotTick) (baseline current : Snapshot) (lastTick : SnapshotTick)
    (sections : List WireSection) (bytes : List UInt8) : Prop where
  after : lastTick.raw < tick.raw
  baseline_le : baselineTick.raw ≤ tick.raw
  delta : ∃ encoding, SnapshotSections build schema limits baselineTick baseline current encoding
    sections
  bytes_eq : bytes = compactPacket lastTick tick baselineTick (sections.flatMap WireSection.bytes)
  length_le : bytes.length ≤ isizeMax
  standard : ∀ out, bytes.length + 32 ≤ out.length → out.length ≤ isizeMax → ∃ m out',
    encodeDeltaSnapshotForClient build schema tick baselineTick baseline current limits out
        = .ok (m, out')
      ∧ out'.take m
        = (PacketHeader.deltaSnapshot (schemaHash build schema) tick.raw baselineTick.raw
        (UInt32.ofNat (sections.flatMap WireSection.bytes).length)).bytes
        ++ sections.flatMap WireSection.bytes

/-- The call behind a payload that was encoded. -/
theorem encode_delta_packet_eq_ok {α : Type}
    {encodePayload : List UInt8 → Outcome CodecError ((α × Nat) × List UInt8)} {a : α}
    {payload rest out : List UInt8} (hlen : out.length ≤ isizeMax)
    (hfits : HEADER_SIZE ≤ out.length)
    (hpayload : encodePayload (out.drop HEADER_SIZE) = .ok ((a, payload.length), payload ++ rest))
    (hrest : payload.length + rest.length = out.length - HEADER_SIZE) :
    encodeDeltaPacket build schema tick baselineTick encodePayload out
      = .ok ((a, HEADER_SIZE + payload.length),
        (PacketHeader.deltaSnapshot (schemaHash build schema)
        tick.raw baselineTick.raw (UInt32.ofNat payload.length)).bytes ++ payload ++ rest) := by
  have hadd : HEADER_SIZE + payload.length ≤ usizeMax := by
    simp only [isizeMax, usizeMax] at *
    omega
  have htail : withTail out HEADER_SIZE encodePayload
      = .ok ((a, payload.length), out.take HEADER_SIZE ++ (payload ++ rest)) := by
    rw [withTail, if_pos hfits, hpayload]
    rfl
  have htake : (out.take HEADER_SIZE).length = HEADER_SIZE := by
    rw [List.length_take, Nat.min_eq_left hfits]
  have hheader := @write_header_eq (PacketHeader.deltaSnapshot (schemaHash build schema) tick.raw
    baselineTick.raw (UInt32.ofNat payload.length)) (out.take HEADER_SIZE ++ (payload ++ rest))
    (by rw [List.length_append]; omega)
  rw [List.drop_left' htake] at hheader
  rw [encodeDeltaPacket, if_neg (Nat.not_lt.mpr hfits), htail]
  simp only [ok_bind, hheader, usize_add_of_le hadd, pure_bind, List.append_assoc]
  rfl

/-- The session encoder behind a payload that was encoded. -/
theorem encode_session_eq_ok {scratch scratch' : CodecScratch} {out payload rest : List UInt8}
    (hlen : out.length ≤ isizeMax) (hfits : SESSION_MAX_HEADER_SIZE ≤ out.length)
    (hafter : lastTick.raw < tick.raw) (hbaseline : baselineTick.raw ≤ tick.raw)
    (hpayload : encodeDeltaPayloadWithMode build schema baselineTick baseline current limits .sparse
      scratch (out.drop SESSION_MAX_HEADER_SIZE)
        = .ok ((scratch', payload.length), payload ++ rest))
    (hrest : payload.length + rest.length = out.length - SESSION_MAX_HEADER_SIZE) :
    ∃ rest', encodeDeltaSnapshotForClientSessionWithScratch build schema tick baselineTick baseline
        current limits scratch out lastTick
      = .ok ((scratch', (compactPacket lastTick tick baselineTick payload).length),
        compactPacket lastTick tick baselineTick payload ++ rest') tick := by
  obtain ⟨header, hheader⟩ : ∃ header, header = sessionHeaderBytes .deltaSnapshot
    (tick.raw - lastTick.raw) (tick.raw - baselineTick.raw) (UInt32.ofNat payload.length) :=
      ⟨_, rfl⟩
  have hsize : header.length ≤ SESSION_MAX_HEADER_SIZE := by
    rw [hheader]
    exact length_session_header_bytes_le
  have hmax : SESSION_MAX_HEADER_SIZE + payload.length ≤ usizeMax := by
    simp only [isizeMax, usizeMax] at *
    omega
  have hadd : header.length + payload.length ≤ usizeMax := by omega
  have htake : (out.take SESSION_MAX_HEADER_SIZE).length = SESSION_MAX_HEADER_SIZE := by
    rw [List.length_take, Nat.min_eq_left hfits]
  have htail : withTail out SESSION_MAX_HEADER_SIZE (encodeDeltaPayloadWithMode build schema
      baselineTick baseline current limits .sparse scratch)
      = .ok ((scratch', payload.length),
        out.take SESSION_MAX_HEADER_SIZE ++ (payload ++ rest)) := by
    rw [withTail, if_pos hfits, hpayload]
    rfl
  -- What the header leaves of its room is the gap that the payload is moved over.
  obtain ⟨gap, hgap⟩ : ∃ gap, gap = (out.take SESSION_MAX_HEADER_SIZE).drop header.length :=
    ⟨_, rfl⟩
  have hroom : header.length + gap.length = SESSION_MAX_HEADER_SIZE := by
    rw [hgap, List.length_drop, htake]
    omega
  have hwrite : writeSessionHeader .deltaSnapshot (tick.raw - lastTick.raw)
      (tick.raw - baselineTick.raw) (UInt32.ofNat payload.length)
      (out.take SESSION_MAX_HEADER_SIZE ++ (payload ++ rest))
      = .ok (header.length, header ++ gap ++ payload ++ rest) := by
    rw [write_session_header_eq (by decide) _ _ _ (by simp only [List.length_append]; omega)
      (by rw [List.length_append]; omega), ← hheader,
      List.drop_append_of_le_length (by omega), ← hgap, List.append_assoc, List.append_assoc]
  have hpacket : compactPacket lastTick tick baselineTick payload = header ++ payload := by
    rw [hheader]
    rfl
  rw [hpacket, List.length_append]
  obtain ⟨rest', hmove⟩ := @move_payload_eq header gap payload rest
  rw [hroom] at hmove
  have hget (f : SnapshotTick → Call CodecError SnapshotTick ((CodecScratch × Nat) × List UInt8)) :
      (get >>= f) lastTick = f lastTick lastTick := bind_apply _ _ _
  rw [encodeDeltaSnapshotForClientSessionWithScratch, hget, if_neg (Nat.not_lt.mpr hfits),
    if_neg (UInt32.not_le.mpr hafter), if_neg (UInt32.not_lt.mpr hbaseline)]
  simp only [htail, u32_sub_of_le (UInt32.le_of_lt hafter), u32_sub_of_le hbaseline, pure_bind,
    hwrite, usize_add_of_le hmax, liftM, monadLift, MonadLift.monadLift, bind_apply,
    lift_outcome_ok]
  by_cases hshort : header.length < SESSION_MAX_HEADER_SIZE
  · simp only [if_pos hshort, hmove, pure_bind, bind_apply, set_apply, usize_add_of_le hadd]
    exact ⟨rest', rfl⟩
  · have hnil : gap = [] := List.eq_nil_of_length_eq_zero (by omega)
    simp only [if_neg hshort, hnil, List.append_nil, pure_bind, bind_apply, set_apply,
      usize_add_of_le hadd]
    exact ⟨rest, rfl⟩

/-- The session encoder fails and leaves the last tick as it was, unless its three checks pass and
the payload is encoded. -/
theorem encode_session_checked {scratch : CodecScratch} {out : List UInt8} :
    (∃ error, encodeDeltaSnapshotForClientSessionWithScratch build schema tick baselineTick baseline
      current limits scratch out lastTick = .error error lastTick) ∨
    (SESSION_MAX_HEADER_SIZE ≤ out.length ∧ lastTick.raw < tick.raw ∧ baselineTick.raw ≤ tick.raw
      ∧ ∃ result, encodeDeltaPayloadWithMode build schema baselineTick baseline current limits
        .sparse scratch (out.drop SESSION_MAX_HEADER_SIZE) = .ok result) := by
  have hget (f : SnapshotTick → Call CodecError SnapshotTick ((CodecScratch × Nat) × List UInt8)) :
      (get >>= f) lastTick = f lastTick lastTick := bind_apply _ _ _
  rw [encodeDeltaSnapshotForClientSessionWithScratch, hget]
  by_cases hshort : out.length < SESSION_MAX_HEADER_SIZE
  · rw [if_pos hshort]
    exact .inl ⟨_, rfl⟩
  by_cases hafter : tick.raw ≤ lastTick.raw
  · rw [if_neg hshort, if_pos hafter]
    exact .inl ⟨_, rfl⟩
  by_cases hbaseline : baselineTick.raw > tick.raw
  · rw [if_neg hshort, if_neg hafter, if_pos hbaseline]
    exact .inl ⟨_, rfl⟩
  have hfits := Nat.le_of_not_lt hshort
  cases hpayload : encodeDeltaPayloadWithMode build schema baselineTick baseline current limits
      .sparse scratch (out.drop SESSION_MAX_HEADER_SIZE) with
  | error e =>
      rw [if_neg hshort, if_neg hafter, if_neg hbaseline, withTail, if_pos hfits, hpayload]
      exact .inl ⟨_, rfl⟩
  | ok result =>
      exact .inr ⟨hfits, UInt32.not_le.mp hafter, UInt32.not_lt.mp hbaseline, _, rfl⟩

theorem length_compact_packet_le {payload : List UInt8} :
    (compactPacket lastTick tick baselineTick payload).length
      ≤ SESSION_MAX_HEADER_SIZE + payload.length := by
  rw [compactPacket, List.length_append]
  exact Nat.add_le_add_right length_session_header_bytes_le _

/-- The encoder of standard packets writes the sections of a sparse delta that was encoded into any
buffer with room for them. -/
theorem encode_for_client_of_puts {facts : CodecScratch → Prop} {need n : Nat}
    {payload tail tail' : List UInt8} {scratch : CodecScratch}
    (hputs : Puts (encodeDeltaPayloadWithMode build schema baselineTick baseline current limits
      .sparse .default) facts need payload)
    (htail : tail.length ≤ isizeMax)
    (hpayload : encodeDeltaPayloadWithMode build schema baselineTick baseline current limits
      .sparse .default tail = .ok ((scratch, n), tail')) {out : List UInt8}
    (hlen : out.length ≤ isizeMax) (hfits : HEADER_SIZE + need ≤ out.length) :
    ∃ m out', encodeDeltaSnapshotForClient build schema tick baselineTick baseline current limits
        out = .ok (m, out')
      ∧ out'.take m
        = (PacketHeader.deltaSnapshot (schemaHash build schema) tick.raw baselineTick.raw
        (UInt32.ofNat payload.length)).bytes ++ payload := by
  have hdrop : (out.drop HEADER_SIZE).length = out.length - HEADER_SIZE := List.length_drop
  obtain ⟨rest, hpayload', hrest⟩ := hputs.ok_of_le htail hpayload
    (by omega : (out.drop HEADER_SIZE).length ≤ isizeMax) (by omega)
  rw [hdrop] at hrest
  have hstandard := @encode_delta_packet_eq_ok build schema tick baselineTick _ _ _ _ _ out hlen
    (by omega) hpayload' hrest
  exact ⟨_, _, bind_eq_ok.mpr ⟨_, hstandard, rfl⟩,
    List.take_left' (by rw [List.length_append, PacketHeader.length_bytes])⟩

/-- The session encoder either fails and leaves the last tick as it was, or it advances the last
tick to the tick of the packet that it has written, with the sections of a sparse delta. -/
theorem encode_session_sparse_cases (hschema : schema.Valid) {out : List UInt8}
    (hlen : out.length ≤ isizeMax) :
    (∃ error, encodeDeltaSnapshotForClientSession build schema tick baselineTick baseline current
      limits out lastTick = .error error lastTick) ∨
    ∃ n out' sections, encodeDeltaSnapshotForClientSession build schema tick baselineTick baseline
        current limits out lastTick = .ok (n, out') tick
      ∧ n = (out'.take n).length
      ∧ SnapshotSections build schema limits baselineTick baseline current .sparse sections
      ∧ EncodesCompact build schema limits tick baselineTick baseline current lastTick sections
        (out'.take n) := by
  rcases @encode_session_checked build schema limits tick baselineTick lastTick baseline current
    .default out with hfails | ⟨hfits, hafter, hbaseline, result, hpayload⟩
  · obtain ⟨error, herror⟩ := hfails
    exact .inl ⟨error, by rw [encodeDeltaSnapshotForClientSession, bind_apply, herror]⟩
  · obtain ⟨⟨scratch, m⟩, tail⟩ := result
    have hdrop : (out.drop SESSION_MAX_HEADER_SIZE).length
        = out.length - SESSION_MAX_HEADER_SIZE := List.length_drop
    obtain ⟨need, sections, hneed, hputs⟩ := @puts_delta_payload build schema limits
      baseline current hschema baselineTick .sparse .default
    obtain ⟨hfacts, rfl, hroom, rest, rfl, hrest⟩ := hputs.of_ok (by omega) hpayload
    obtain ⟨rest', hrun⟩ := encode_session_eq_ok hlen hfits hafter hbaseline hpayload (by omega)
    have hdone : encodeDeltaSnapshotForClientSession build schema tick baselineTick baseline
        current limits out lastTick
          = .ok ((compactPacket lastTick tick baselineTick
            (sections.flatMap WireSection.bytes)).length,
            compactPacket lastTick tick baselineTick
              (sections.flatMap WireSection.bytes) ++ rest')
            tick := by
      rw [encodeDeltaSnapshotForClientSession, bind_apply, hrun]
      rfl
    have hpacket := @length_compact_packet_le tick baselineTick lastTick
      (sections.flatMap WireSection.bytes)
    refine .inr ⟨_, _, sections, hdone, by rw [List.take_left], hfacts, ?_⟩
    rw [List.take_left]
    exact {
      after := hafter
      baseline_le := hbaseline
      delta := ⟨_, hfacts⟩
      bytes_eq := rfl
      length_le := by omega
      -- the same sections fit into a larger buffer
      standard := fun big hlong hbig => by
        rw [compactPacket, List.length_append] at hlong
        have hsize : HEADER_SIZE = 28 := rfl
        exact encode_for_client_of_puts hputs (by omega) hpayload hbig (by omega) }

/-- What the session encoder has written. -/
theorem encode_session_ok (hschema : schema.Valid) {out out' : List UInt8} {n : Nat}
    {last : SnapshotTick} (hlen : out.length ≤ isizeMax)
    (hencode : encodeDeltaSnapshotForClientSession build schema tick baselineTick baseline current
      limits out lastTick = .ok (n, out') last) :
    ∃ sections, SnapshotSections build schema limits baselineTick baseline current .sparse sections
      ∧ EncodesCompact build schema limits tick baselineTick baseline current lastTick sections
        (out'.take n) := by
  rcases @encode_session_sparse_cases build schema limits tick baselineTick lastTick baseline
    current hschema out hlen with ⟨e, herror⟩ | ⟨_, _, sections, hdone, -, hfacts, hcompact⟩
  · rw [herror] at hencode
    cases hencode
  · rw [hdone] at hencode
    cases hencode
    exact ⟨sections, hfacts, hcompact⟩

/-- What the session encoder makes of its last tick, and of the packet. -/
theorem encode_session_cases (hschema : schema.Valid) {out : List UInt8}
    (hlen : out.length ≤ isizeMax) :
    (∃ error, encodeDeltaSnapshotForClientSession build schema tick baselineTick baseline current
      limits out lastTick = .error error lastTick) ∨
    ∃ n out' sections, encodeDeltaSnapshotForClientSession build schema tick baselineTick baseline
        current limits out lastTick = .ok (n, out') tick
      ∧ n = (out'.take n).length
      ∧ EncodesCompact build schema limits tick baselineTick baseline current lastTick sections
        (out'.take n) := by
  refine (encode_session_sparse_cases hschema hlen).imp id fun h => ?_
  obtain ⟨n, out', sections, hdone, hn, -, hcompact⟩ := h
  exact ⟨n, out', sections, hdone, hn, hcompact⟩

/-! ## Decoding -/

variable {bytes : List UInt8} {wireLimits : Wire.Limits} {session session' : SessionState}
  {packet : WirePacket}

/-- A receiver accepts the bytes of a compact packet: its header, and the sections of its
payload. -/
structure Receives (build : Build) (schema : Schema) (wireLimits : Wire.Limits)
    (session : SessionState) (bytes : List UInt8) (header : SessionHeader)
    (sections : List WireSection) : Prop where
  hash : session.schemaHash = schemaHash build schema
  header_eq : decodeSessionHeader bytes session.lastTick.raw = .ok header
  length : header.headerLen + header.payloadLen.toNat ≤ bytes.length
  sections_eq : decodeSections ((bytes.take (header.headerLen + header.payloadLen.toNat)).drop
    header.headerLen) wireLimits = .ok sections

/-- The packet that a receiver makes of a compact header and the sections behind it. -/
def receivedPacket (session : SessionState) (header : SessionHeader) (sections : List WireSection) :
    WirePacket :=
  ⟨⟨VERSION, if header.flags.isFullSnapshot then .fullSnapshot else .deltaSnapshot,
    session.schemaHash, header.tick, header.baselineTick, header.payloadLen⟩, sections⟩

/-- A receiver either accepts a packet and advances its last tick, or it refuses it and stays as it
was. It never refuses a packet for its order: a tick that is decoded comes after the last tick. -/
theorem decode_session_packet_cases (hlen : bytes.length ≤ isizeMax) :
    (∃ e, decodeSessionPacket build schema bytes wireLimits session = .error e session
      ∧ (∀ previous current, e ≠ .err (.sessionOutOfOrder previous current))
      ∧ ¬ ∃ header sections, Receives build schema wireLimits session bytes header sections) ∨
    ∃ header sections, Receives build schema wireLimits session bytes header sections
      ∧ decodeSessionPacket build schema bytes wireLimits session
        = .ok (receivedPacket session header sections)
          { session with lastTick := ⟨header.tick⟩ } := by
  have hget (f : SessionState → Call CodecError SessionState WirePacket) :
      (get >>= f) session = f session session := bind_apply _ _ _
  have hwire {e : Fault DecodeError} {previous current : UInt32} :
      e.map CodecError.wire ≠ .err (.sessionOutOfOrder previous current) := by
    cases e <;> exact fun h => by cases h
  rw [decodeSessionPacket, hget]
  by_cases hhash : session.schemaHash ≠ schemaHash build schema
  · rw [if_pos hhash]
    exact .inl ⟨_, rfl, fun _ _ h => (by cases h), fun hreceived => by
      obtain ⟨_, _, h⟩ := hreceived
      exact hhash h.hash⟩
  rw [if_neg hhash]
  cases hheader : decodeSessionHeader bytes session.lastTick.raw with
  | error e =>
      refine .inl ⟨e.map .wire, rfl, fun _ _ => hwire, fun hreceived => ?_⟩
      obtain ⟨_, _, h⟩ := hreceived
      rw [h.header_eq] at hheader
      cases hheader
  | ok header =>
      have hafter : ¬ header.tick ≤ session.lastTick.raw :=
        UInt32.not_le.mpr (decode_session_header_after hheader).1
      have hunique {header' : SessionHeader} {sections : List WireSection}
          (h : Receives build schema wireLimits session bytes header' sections) :
            header' = header := by
        have := h.header_eq.symm.trans hheader
        cases this
        rfl
      simp only [Outcome.mapErr, liftM, monadLift, MonadLift.monadLift, bind_apply, lift_outcome_ok,
        if_neg hafter]
      by_cases hsize : header.headerLen + header.payloadLen.toNat ≤ bytes.length
      · have hslice : slice (m := Call CodecError SessionState) bytes header.headerLen
            (header.headerLen + header.payloadLen.toNat)
            = pure ((bytes.take (header.headerLen + header.payloadLen.toNat)).drop
              header.headerLen) := slice_of_le (Nat.le_add_right _ _) hsize
        have hadd : header.headerLen + header.payloadLen.toNat ≤ usizeMax := by
          simp only [isizeMax, usizeMax] at *
          omega
        simp only [usize_add_of_le hadd, pure_apply, if_neg (Nat.not_lt.mpr hsize), hslice]
        cases hsections : decodeSections ((bytes.take (header.headerLen
            + header.payloadLen.toNat)).drop header.headerLen) wireLimits with
        | error e =>
            rw [pure_bind, bind_apply, hsections]
            refine .inl ⟨e.map .wire, rfl, fun _ _ => hwire, fun hreceived => ?_⟩
            obtain ⟨_, _, h⟩ := hreceived
            have hsome := h.sections_eq
            rw [hunique h, hsections] at hsome
            cases hsome
        | ok sections =>
            rw [pure_bind, bind_apply, hsections]
            exact .inr ⟨header, sections,
              ⟨Decidable.not_not.mp hhash, hheader, hsize, hsections⟩, rfl⟩
      · by_cases hadd : header.headerLen + header.payloadLen.toNat ≤ usizeMax
        · simp only [usize_add_of_le hadd, pure_apply, if_pos (Nat.lt_of_not_le hsize)]
          refine .inl ⟨_, rfl, fun _ _ h => (by cases h), fun hreceived => ?_⟩
          obtain ⟨_, _, h⟩ := hreceived
          exact hsize (hunique h ▸ h.length)
        · rw [usizeAdd, if_neg hadd]
          refine .inl ⟨_, rfl, fun _ _ h => (by cases h), fun hreceived => ?_⟩
          obtain ⟨_, _, h⟩ := hreceived
          exact hsize (hunique h ▸ h.length)

theorem decode_session_packet_eq_ok (hlen : bytes.length ≤ isizeMax) :
    decodeSessionPacket build schema bytes wireLimits session = .ok packet session' ↔
      ∃ header sections, Receives build schema wireLimits session bytes header sections
        ∧ packet = receivedPacket session header sections
        ∧ session' = { session with lastTick := ⟨header.tick⟩ } := by
  constructor
  · intro h
    rcases @decode_session_packet_cases build schema bytes wireLimits session hlen with
      ⟨e, herror, -⟩ | ⟨header, sections, hreceives, hok⟩
    · rw [herror] at h
      cases h
    · rw [hok] at h
      cases h
      exact ⟨header, sections, hreceives, rfl, rfl⟩
  · rintro ⟨header, sections, hreceives, rfl, rfl⟩
    rcases @decode_session_packet_cases build schema bytes wireLimits session hlen with
      ⟨e, -, -, hno⟩ | ⟨header', sections', hreceives', hok⟩
    · exact absurd ⟨header, sections, hreceives⟩ hno
    · have hheader := hreceives.header_eq.symm.trans hreceives'.header_eq
      cases hheader
      have hsections := hreceives.sections_eq.symm.trans hreceives'.sections_eq
      cases hsections
      exact hok

theorem decode_session_packet_error (hlen : bytes.length ≤ isizeMax) {e : Fault CodecError}
    (h : decodeSessionPacket build schema bytes wireLimits session = .error e session') :
    session' = session ∧ ∀ previous current, e ≠ .err (.sessionOutOfOrder previous current) := by
  rcases @decode_session_packet_cases build schema bytes wireLimits session hlen with
    ⟨e', herror, horder, -⟩ | ⟨header, sections, -, hok⟩
  · rw [herror] at h
    cases h
    exact ⟨rfl, horder⟩
  · rw [hok] at h
    cases h

/-! ## Delivery -/

/-- The payload that a compact packet carries, behind the flags and the three varints of its
header. -/
def compactPayload (bytes : List UInt8) : Outcome DecodeError (List UInt8) := do
  let (_, offset) ← Session.readVaru32 bytes 1
  let (_, offset) ← Session.readVaru32 bytes offset
  let (payloadLen, offset) ← Session.readVaru32 bytes offset
  return (bytes.take (offset + payloadLen.toNat)).drop offset

/-- The payload of a compact packet is cut into sections under the limits. -/
def Wire.Limits.AcceptCompact (wireLimits : Wire.Limits) (bytes : List UInt8) : Prop :=
  ∃ payload sections, compactPayload bytes = .ok payload
    ∧ decodeSections payload wireLimits = .ok sections

/-- The limits admit the payload of a compact packet: cut without limits, it has not too many
sections and none too long. -/
def Wire.Limits.AdmitCompact (wireLimits : Wire.Limits) (bytes : List UInt8) : Prop :=
  ∀ payload sections, compactPayload bytes = .ok payload →
    decodeSections payload .unlimited = .ok sections → wireLimits.AdmitSections sections

section Delivery

variable {tick baselineTick lastTick : SnapshotTick} {payload : List UInt8}

/-- The length field of a payload counts up to `2 ^ 32`, and a receiver takes what it counts. -/
theorem compact_payload_eq
    (hlen : (compactPacket lastTick tick baselineTick payload).length ≤ isizeMax) :
    compactPayload (compactPacket lastTick tick baselineTick payload)
      = .ok (payload.take (UInt32.ofNat payload.length).toNat) := by
  obtain ⟨htick, hbaseline, hpayload⟩ := read_session_varints hlen rfl
  simp only [compactPayload, htick, hbaseline, hpayload, ok_bind]
  rw [compactPacket, List.take_length_add_append, List.drop_left]
  rfl

/-- The distances in the header lead a receiver to a tick and to a baseline tick. -/
def HeaderFits (receiver lastTick tick baselineTick : SnapshotTick) : Prop :=
  tick.raw.toNat - baselineTick.raw.toNat
    < receiver.raw.toNat + (tick.raw.toNat - lastTick.raw.toNat)
    ∧ receiver.raw.toNat + (tick.raw.toNat - lastTick.raw.toNat) < 2 ^ 32

/-- The header that a receiver makes of a compact packet. -/
def compactHeader (receiver lastTick tick baselineTick : SnapshotTick) (payload : List UInt8) :
    SessionHeader where
  flags := .deltaSnapshot
  tick := receiver.raw + (tick.raw - lastTick.raw)
  baselineTick := receiver.raw + (tick.raw - lastTick.raw) - (tick.raw - baselineTick.raw)
  payloadLen := UInt32.ofNat payload.length
  headerLen := (sessionHeaderBytes .deltaSnapshot (tick.raw - lastTick.raw)
    (tick.raw - baselineTick.raw) (UInt32.ofNat payload.length)).length

/-- Adding a distance to where it was measured from. -/
theorem add_distance (lastTick tick : UInt32) : lastTick + (tick - lastTick) = tick := by
  rw [UInt32.add_comm, UInt32.sub_add_cancel]

/-- A receiver whose last tick is that of the sender reads both ticks back. -/
theorem compact_header_in_sync (lastTick tick baselineTick : SnapshotTick) (payload : List UInt8) :
    (compactHeader lastTick lastTick tick baselineTick payload).tick = tick.raw
      ∧ (compactHeader lastTick lastTick tick baselineTick payload).baselineTick
        = baselineTick.raw := by
  have htick := add_distance lastTick.raw tick.raw
  refine ⟨htick, ?_⟩
  show lastTick.raw + (tick.raw - lastTick.raw) - (tick.raw - baselineTick.raw) = baselineTick.raw
  rw [htick]
  grind

/-- A receiver in sync makes the packet of the standard path. -/
theorem received_in_sync (session : SessionState) (lastTick tick baselineTick : SnapshotTick)
    (payload : List UInt8) (sections : List WireSection) :
    receivedPacket session (compactHeader lastTick lastTick tick baselineTick payload) sections
      = ⟨PacketHeader.deltaSnapshot session.schemaHash tick.raw baselineTick.raw
        (UInt32.ofNat payload.length), sections⟩ := by
  obtain ⟨htick, hbaseline⟩ := compact_header_in_sync lastTick tick baselineTick payload
  have hdelta : ¬ SessionFlags.deltaSnapshot.isFullSnapshot := by decide
  have hflags : (compactHeader lastTick lastTick tick baselineTick payload).flags
      = .deltaSnapshot := rfl
  rw [receivedPacket, htick, hbaseline, hflags, if_neg hdelta]
  rfl

/-- The length field counts a payload that is short enough for it. -/
theorem take_counted (h : payload.length < 2 ^ 32) :
    payload.take (UInt32.ofNat payload.length).toNat = payload := by
  rw [UInt32.toNat_ofNat', Nat.mod_eq_of_lt h, List.take_length]

/-- What a receiver makes of a compact packet. -/
theorem receives_compact_iff (hafter : lastTick.raw < tick.raw)
    (hbaseline : baselineTick.raw ≤ tick.raw)
    (hlen : (compactPacket lastTick tick baselineTick payload).length ≤ isizeMax)
    {header : SessionHeader} {sections : List WireSection} :
    Receives build schema wireLimits session
      (compactPacket lastTick tick baselineTick payload) header sections
      ↔ session.schemaHash = schemaHash build schema
        ∧ HeaderFits session.lastTick lastTick tick baselineTick
        ∧ header = compactHeader session.lastTick lastTick tick baselineTick payload
        ∧ decodeSections (payload.take (UInt32.ofNat payload.length).toNat) wireLimits
          = .ok sections := by
  have hdelta : (tick.raw - lastTick.raw).toNat = tick.raw.toNat - lastTick.raw.toNat :=
    UInt32.toNat_sub_of_le _ _ (UInt32.le_of_lt hafter)
  have hbase : (tick.raw - baselineTick.raw).toNat = tick.raw.toNat - baselineTick.raw.toNat :=
    UInt32.toNat_sub_of_le _ _ hbaseline
  have hpositive : lastTick.raw.toNat < tick.raw.toNat := UInt32.lt_iff_toNat_lt.mp hafter
  have hcut (len : Nat) : ((compactPacket lastTick tick baselineTick payload).take
      ((sessionHeaderBytes .deltaSnapshot (tick.raw - lastTick.raw) (tick.raw - baselineTick.raw)
        (UInt32.ofNat payload.length)).length + len)).drop
      (sessionHeaderBytes .deltaSnapshot (tick.raw - lastTick.raw) (tick.raw - baselineTick.raw)
        (UInt32.ofNat payload.length)).length = payload.take len := by
    rw [compactPacket, List.take_length_add_append, List.drop_left]
  -- The sum must not overflow, and the baseline tick must come out between zero and the tick.
  have hfits (hsum : session.lastTick.raw.toNat + (tick.raw - lastTick.raw).toNat < 2 ^ 32) :
      (tick.raw - baselineTick.raw ≤ session.lastTick.raw + (tick.raw - lastTick.raw)
        ∧ session.lastTick.raw + (tick.raw - lastTick.raw) - (tick.raw - baselineTick.raw) ≠ 0)
      ↔ tick.raw.toNat - baselineTick.raw.toNat
        < session.lastTick.raw.toNat + (tick.raw.toNat - lastTick.raw.toNat) := by
    have hadd : (session.lastTick.raw + (tick.raw - lastTick.raw)).toNat
        = session.lastTick.raw.toNat + (tick.raw.toNat - lastTick.raw.toNat) := by
      rw [UInt32.toNat_add, Nat.mod_eq_of_lt hsum, hdelta]
    constructor
    · intro ⟨hle, hne⟩
      have hle' := UInt32.le_iff_toNat_le.mp hle
      have hne' := mt UInt32.toNat_inj.mp hne
      rw [UInt32.toNat_sub_of_le _ _ hle, hadd, hbase, UInt32.toNat_zero] at hne'
      rw [hadd, hbase] at hle'
      omega
    · intro hlt
      have hle :
          tick.raw - baselineTick.raw ≤ session.lastTick.raw + (tick.raw - lastTick.raw) := by
        rw [UInt32.le_iff_toNat_le, hadd, hbase]
        omega
      refine ⟨hle, fun hzero => ?_⟩
      have hzero' := congrArg UInt32.toNat hzero
      rw [UInt32.toNat_sub_of_le _ _ hle, hadd, hbase, UInt32.toNat_zero] at hzero'
      omega
  constructor
  · intro h
    obtain ⟨-, -, hsum, hsub, -, hnonzero, rfl⟩ :=
      (decode_session_header_eq_ok hlen).mp h.header_eq
    have hsections := h.sections_eq
    rw [hcut] at hsections
    exact ⟨h.hash, ⟨(hfits hsum).mp ⟨hsub, hnonzero (by decide)⟩, hdelta ▸ hsum⟩, rfl, hsections⟩
  · rintro ⟨hhash, ⟨hlt, hsum⟩, rfl, hsections⟩
    rw [← hdelta] at hsum
    obtain ⟨hsub, hnonzero⟩ := (hfits hsum).mpr hlt
    have hsome : tick.raw - lastTick.raw ≠ 0 := by
      intro hzero
      rw [hzero, UInt32.toNat_zero] at hdelta
      omega
    refine ⟨hhash, (decode_session_header_eq_ok hlen).mpr ⟨by decide, hsome, hsum, hsub,
      fun hfull => absurd hfull (by decide), fun _ => hnonzero, rfl⟩, ?_, ?_⟩
    · have hcount : (UInt32.ofNat payload.length).toNat ≤ payload.length := by
        rw [UInt32.toNat_ofNat']
        exact Nat.mod_le _ _
      rw [compactPacket, List.length_append]
      exact Nat.add_le_add_left hcount _
    · exact (congrArg (decodeSections · wireLimits) (hcut _)).trans hsections

/-- Behind the sender, by less than the baseline tick: then the receiver takes the packet for one of
an earlier tick. Further behind it refuses it. -/
theorem header_fits_iff {receiver : SnapshotTick} (hafter : lastTick.raw < tick.raw)
    (hbaseline : baselineTick.raw ≤ tick.raw) (hbehind : receiver.raw ≤ lastTick.raw) :
    HeaderFits receiver lastTick tick baselineTick
      ↔ lastTick.raw.toNat - receiver.raw.toNat < baselineTick.raw.toNat := by
  rw [UInt32.le_iff_toNat_le] at hbehind hbaseline
  rw [UInt32.lt_iff_toNat_lt] at hafter
  have htick := tick.raw.toNat_lt
  unfold HeaderFits
  omega

end Delivery

end Sdec
