import Sdec.RoundTrip.Delta
import Sdec.Session.Compact

/-!
# Which encoded deltas are accepted

The encoders of deltas leave some checks to the receiver. Read `encoded_delta_accepted_iff` first:
it says which of the packets that they report as written can be decoded and applied to the baseline.
-/

namespace Sdec

open Rust Bits Bitstream Codec Wire Sorted

variable {build : Build} {schema : Schema} {limits : CodecLimits}

/-! ## Sizes -/

/-- The number of bytes of a section body. -/
def bodySize (items : Layout) : Nat := (render 0 items).length / 8

/-- The number of bytes of a section that is there if `c` holds: the tag, the length and the
body. -/
def sectionSize (c : Bool) (items : Layout) : Nat :=
  if c then 1 + (varu32 (UInt32.ofNat (bodySize items))).length + bodySize items else 0

/-- The number of bytes of the payload of a delta. -/
def deltaSize (build : Build) (schema : Schema) (encoding : UpdateEncoding)
    (baseline current : Snapshot) : Nat :=
  let d := diff build schema baseline current
  sectionSize (!d.destroys.isEmpty) (countedLayout d.destroys.length (destroyLayout d.destroys))
    + (sectionSize (!d.creates.isEmpty)
      (countedLayout d.creates.length (createLayout schema d.creates))
      + sectionSize (!d.updates.isEmpty) (encoding.layout build schema baseline current))

theorem length_section_bytes {c : Bool} {tag : SectionTag} {body : List UInt8} {items : Layout}
    (hbody : ofBytes body = render 0 items) :
    ((sectionIf c ⟨tag, body⟩).flatMap WireSection.bytes).length = sectionSize c items := by
  have hsize : bodySize items = body.length := by
    rw [bodySize, ← hbody, length_ofBytes, Nat.mul_div_cancel_left _ (by omega)]
  cases c with
  | false => rfl
  | true =>
      simp only [sectionIf, sectionSize, if_true, hsize, List.flatMap_cons, List.flatMap_nil,
        List.append_nil, WireSection.bytes, List.length_cons, List.length_append]
      omega

variable {tick baselineTick : SnapshotTick} {baseline current : Snapshot} {out out' : List UInt8}
  {n : Nat} {encoding : UpdateEncoding} {sections : List WireSection}

/-- The size of the payload that an encoder has written. -/
theorem SnapshotSections.length_bytes
    (h : SnapshotSections build schema limits baselineTick baseline current encoding sections) :
    (sections.flatMap WireSection.bytes).length
      = deltaSize build schema encoding baseline current := by
  obtain ⟨destroyBody, createBody, updateBody, hbodies, rfl⟩ := h.bodies
  rw [deltaSections, List.flatMap_append, List.flatMap_append, List.length_append,
    List.length_append, length_section_bytes hbodies.destroys, length_section_bytes hbodies.creates,
    length_section_bytes hbodies.updates]
  rfl

/-! ## Acceptance -/

/-- What a receiver needs of the snapshots beyond what the encoders check: a baseline tick that is
not zero, room for the entities of the current snapshot, and values that its build can read. -/
def Applies (build : Build) (schema : Schema) (limits : CodecLimits) (encoding : UpdateEncoding)
    (baseline current : Snapshot) : Prop :=
  baseline.tick.raw ≠ 0 ∧ current.entities.length ≤ limits.maxTotalEntitiesAfterApply
    ∧ DeltaReadable build schema encoding baseline current

section Packets

variable (hschema : schema.Valid) (hids : schema.components.Pairwise fun a b => a.id.get < b.id.get)
  (hbaseline : Snapshot.WellFormed schema baseline.entities)
  (hcurrent : Snapshot.WellFormed schema current.entities)

include hschema hids hbaseline hcurrent

/-- The sections of a delta behind a header that fits them. -/
theorem encoded_sections_applied_iff
    (hfacts : SnapshotSections build schema limits baselineTick baseline current encoding sections)
    {header : PacketHeader} (hflags : header.flags.isDeltaSnapshot)
    (hhash : header.schemaHash = schemaHash build schema)
    (hbase : header.baselineTick = baseline.tick.raw) :
    (∃ s, applyDeltaSnapshotFromPacket build schema baseline ⟨header, sections⟩ limits = .ok s)
      ↔ Applies build schema limits encoding baseline current := by
  have happly {s : Snapshot} :=
    @apply_encoded_sections_eq_ok build schema limits baselineTick baseline
      current encoding sections hschema hcurrent hfacts hbaseline header hflags hhash hbase
      (fun _ _ => components_ascend_of_sorted hids _ _) s
  constructor
  · intro h
    obtain ⟨s, hs⟩ := h
    exact (happly.mp hs).1
  · intro h
    exact ⟨_, happly.mpr ⟨h, rfl⟩⟩

omit hschema hids hbaseline hcurrent in
/-- A packet that is applied names a baseline tick, that of the baseline. -/
theorem applied_baseline_tick {packet : WirePacket} {s : Snapshot}
    (h : applyDeltaSnapshotFromPacket build schema baseline packet limits = .ok s) :
    baseline.tick.raw ≠ 0 := by
  obtain ⟨⟨-, hnonzero, hbase, -⟩, -⟩ := apply_delta_packet_eq_ok.mp h
  rwa [hbase] at hnonzero

/-- A packet of `encode_delta_snapshot_with_scratch_mode`. -/
theorem encoded_packet_accepted_iff (hlen : out.length ≤ isizeMax) {mode : EncodeUpdateMode}
    {scratch scratch' : CodecScratch}
    (hencode : encodeDeltaSnapshotWithScratchMode build schema tick baselineTick baseline
      current limits mode scratch out = .ok ((scratch', n), out')) :
    (∃ s, applyDeltaSnapshot build schema baseline (out'.take n) .unlimited limits = .ok s)
      ↔ Applies build schema limits
        (chosenEncoding build schema limits baseline current mode scratch) baseline current
        ∧ deltaSize build schema (chosenEncoding build schema limits baseline current mode scratch)
          baseline current < 2 ^ 32 := by
  obtain ⟨sections, hfacts, hbytes, hsize, hmax⟩ := encode_delta_mode_ok hschema hlen hencode
  obtain rfl := hfacts.tick
  rw [hbytes, List.length_append] at hsize
  have hbodies : ∀ s ∈ sections, s.body.length < 2 ^ 32 := fun s hs => (hfacts.admits s hs).2
  have hlength : (sections.flatMap WireSection.bytes).length ≤ isizeMax := by omega
  have hcut := decode_sections_unlimited hlength hbodies
  obtain ⟨header, hheader⟩ : ∃ header, header = PacketHeader.deltaSnapshot (schemaHash build schema)
    tick.raw baseline.tick.raw (UInt32.ofNat (sections.flatMap WireSection.bytes).length) :=
      ⟨_, rfl⟩
  have hflags : header.flags.isDeltaSnapshot := by
    rw [hheader]
    exact (by decide : PacketFlags.deltaSnapshot.isDeltaSnapshot)
  have happlied := encoded_sections_applied_iff hschema hids hbaseline hcurrent hfacts hflags
    (by rw [hheader]; rfl) (by rw [hheader]; rfl)
  have hvalid (hnonzero : baseline.tick.raw ≠ 0) : header.Valid := by
    rw [hheader]
    exact PacketHeader.delta_snapshot_valid _ _ _ hnonzero
  have hpayload : header.payloadLen.toNat
      = (sections.flatMap WireSection.bytes).length % 2 ^ 32 := by
    rw [hheader]
    exact UInt32.toNat_ofNat'
  rw [← hfacts.length_bytes, hbytes, ← hheader, ← happlied]
  unfold applyDeltaSnapshot
  constructor
  · intro h
    obtain ⟨s, h⟩ := h
    obtain ⟨packet, hpacket, hs⟩ := bind_eq_ok.mp h
    -- The baseline tick of the packet is checked, so the header is one that a decoder can return.
    obtain ⟨-, hmatch, hdecoded, hname⟩ :=
      (decode_packet_eq_ok (hvalid (applied_baseline_tick hs))).mp (map_err_eq_ok.mp hpacket)
    rw [hcut] at hdecoded
    obtain ⟨header', sections'⟩ := packet
    obtain rfl : header' = header := hname
    cases hdecoded
    exact ⟨⟨s, hs⟩, by omega⟩
  · intro h
    obtain ⟨⟨s, hs⟩, hshort⟩ := h
    have hpacket : decodePacket (header.bytes ++ sections.flatMap WireSection.bytes) .unlimited
        = .ok ⟨header, sections⟩ := by
      refine (decode_packet_eq_ok (hvalid (happlied.mp ⟨s, hs⟩).1)).mpr ⟨?_, by omega, hcut, rfl⟩
      have hroom : HEADER_SIZE = 28 := rfl
      simp only [Wire.Limits.unlimited, usizeMax, isizeMax] at *
      omega
    exact ⟨s, bind_eq_ok.mpr ⟨_, map_err_eq_ok.mpr hpacket, hs⟩⟩

/-- A packet of `encode_delta_snapshot_for_client_session`, at a receiver whose last tick is the one
that the sender had. -/
theorem encoded_session_accepted_iff (hlen : out.length ≤ isizeMax) {session : SessionState}
    (hhash : session.schemaHash = schemaHash build schema) {last : SnapshotTick}
    (hencode : encodeDeltaSnapshotForClientSession build schema tick baselineTick baseline
      current limits out session.lastTick = .ok (n, out') last)
    (hsmall : deltaSize build schema .sparse baseline current < 2 ^ 32) :
    (∃ packet session' s, decodeSessionPacket build schema (out'.take n) .unlimited session
          = .ok packet session'
        ∧ applyDeltaSnapshotFromPacket build schema baseline packet limits = .ok s)
      ↔ Applies build schema limits .sparse baseline current := by
  obtain ⟨sections, hfacts, hcompact⟩ := encode_session_ok hschema hlen hencode
  obtain rfl := hfacts.tick
  obtain ⟨payload, hpayload⟩ : ∃ payload, payload = sections.flatMap WireSection.bytes := ⟨_, rfl⟩
  have hsize : payload.length < 2 ^ 32 := by
    rw [hpayload, hfacts.length_bytes]
    exact hsmall
  have hbodies : ∀ s ∈ sections, s.body.length < 2 ^ 32 := fun s hs => (hfacts.admits s hs).2
  have hlength : payload.length ≤ isizeMax := by
    simp only [isizeMax]
    omega
  have hcut : decodeSections payload .unlimited = .ok sections := by
    rw [hpayload] at hlength ⊢
    exact decode_sections_unlimited hlength hbodies
  have hbytes := hcompact.bytes_eq
  have hshort := hcompact.length_le
  rw [← hpayload] at hbytes
  rw [hbytes] at hshort ⊢
  have hreceives {header : SessionHeader} {found : List WireSection} :=
    @receives_compact_iff build schema .unlimited session tick baseline.tick
      session.lastTick payload hcompact.after hcompact.baseline_le hshort header found
  rw [take_counted hsize] at hreceives
  obtain ⟨header, hheader⟩ : ∃ header,
      header = compactHeader session.lastTick session.lastTick tick baseline.tick payload :=
        ⟨_, rfl⟩
  have hpacket : receivedPacket session header sections
      = ⟨PacketHeader.deltaSnapshot (schemaHash build schema) tick.raw baseline.tick.raw
        (UInt32.ofNat payload.length), sections⟩ := by
    rw [hheader, received_in_sync, hhash]
  have happlied := @encoded_sections_applied_iff build schema limits baseline.tick baseline current
    .sparse sections hschema hids hbaseline hcurrent hfacts
    (receivedPacket session header sections).header
    (by rw [hpacket]; exact (by decide : PacketFlags.deltaSnapshot.isDeltaSnapshot))
    (by rw [hpacket]; rfl) (by rw [hpacket]; rfl)
  rw [← happlied]
  constructor
  · intro h
    obtain ⟨packet, session', s, hpacket, hs⟩ := h
    obtain ⟨header', found, hreceived, rfl, -⟩ := (decode_session_packet_eq_ok hshort).mp hpacket
    obtain ⟨-, -, rfl, hfound⟩ := hreceives.mp hreceived
    rw [hcut] at hfound
    cases hfound
    rw [← hheader] at hs
    exact ⟨s, hs⟩
  · intro h
    obtain ⟨s, hs⟩ := h
    have hnonzero := applied_baseline_tick hs
    have hafter := UInt32.lt_iff_toNat_lt.mp hcompact.after
    have hle := UInt32.le_iff_toNat_le.mp hcompact.baseline_le
    have hpos : 0 < baseline.tick.raw.toNat := by
      refine Nat.pos_of_ne_zero fun hzero => hnonzero ?_
      exact UInt32.toNat_inj.mp hzero
    have hmax := tick.raw.toNat_lt
    -- The receiver is where the sender was, so the distances lead it to the ticks of the sender.
    have hfits : HeaderFits session.lastTick session.lastTick tick baseline.tick := by
      unfold HeaderFits
      omega
    exact ⟨_, _, s, (decode_session_packet_eq_ok hshort).mpr
      ⟨header, sections, hreceives.mpr ⟨hhash, hfits, hheader, hcut⟩, rfl, rfl⟩, hs⟩

end Packets

/-- Of the deltas that the three encoders report as written, exactly those are decoded and applied
to their baseline that name a baseline tick other than zero, leave room for the entities of the
current snapshot, have values that the build can read, and a payload whose length fits into its
field. The session encoder cuts the length of a longer payload to 32 bits, and the receiver takes a
part of it. -/
theorem encoded_delta_accepted_iff {components : List ComponentDef}
    (hschema : Schema.new components = .ok schema)
    (hids : components.Pairwise fun a b => a.id.get < b.id.get)
    (hbaseline : Snapshot.WellFormed schema baseline.entities)
    (hcurrent : Snapshot.WellFormed schema current.entities) (hlen : out.length ≤ isizeMax) :
    (∀ n out', encodeDeltaSnapshot build schema tick baselineTick baseline current limits out
        = .ok (n, out') →
      ((∃ s, applyDeltaSnapshot build schema baseline (out'.take n) .unlimited limits = .ok s)
        ↔ Applies build schema limits
            (chosenEncoding build schema limits baseline current .auto .default) baseline current
          ∧ deltaSize build schema
            (chosenEncoding build schema limits baseline current .auto .default)
            baseline current < 2 ^ 32))
    ∧ (∀ n out', encodeDeltaSnapshotForClient build schema tick baselineTick baseline
        current limits out = .ok (n, out') →
      ((∃ s, applyDeltaSnapshot build schema baseline (out'.take n) .unlimited limits = .ok s)
        ↔ Applies build schema limits .sparse baseline current
          ∧ deltaSize build schema .sparse baseline current < 2 ^ 32))
    ∧ ∀ session n out' last, session.schemaHash = schemaHash build schema →
      encodeDeltaSnapshotForClientSession build schema tick baselineTick baseline current limits out
        session.lastTick = .ok (n, out') last →
      deltaSize build schema .sparse baseline current < 2 ^ 32 →
      ((∃ packet session' s, decodeSessionPacket build schema (out'.take n) .unlimited session
            = .ok packet session'
          ∧ applyDeltaSnapshotFromPacket build schema baseline packet limits = .ok s)
        ↔ Applies build schema limits .sparse baseline current) := by
  obtain ⟨rfl, hvalid⟩ := schema_new_eq_ok.mp hschema
  refine ⟨fun n out' hencode => ?_, fun n out' hencode => ?_,
    fun session n out' last hhash hencode => ?_⟩
  · obtain ⟨scratch, hmode⟩ := encode_delta_auto hencode
    exact encoded_packet_accepted_iff hvalid hids hbaseline hcurrent hlen hmode
  · obtain ⟨scratch, hmode⟩ := encode_delta_sparse hencode
    have h := encoded_packet_accepted_iff hvalid hids hbaseline hcurrent hlen hmode
    rwa [chosen_encoding_sparse] at h
  · exact encoded_session_accepted_iff hvalid hids hbaseline hcurrent hlen hhash hencode

/-- One changed entity of `goldenSchema`. -/
theorem encoded_delta_accepted_iff_golden :
    (∃ s, applyDeltaSnapshot (goldenBuild false) goldenSchema ⟨⟨5⟩, goldenEntities⟩
      (goldenDelta.take 38) .unlimited goldenLimits = .ok s)
      ↔ Applies (goldenBuild false) goldenSchema goldenLimits .sparse ⟨⟨5⟩, goldenEntities⟩
        ⟨⟨7⟩, goldenChanged⟩
        ∧ deltaSize (goldenBuild false) goldenSchema .sparse ⟨⟨5⟩, goldenEntities⟩
          ⟨⟨7⟩, goldenChanged⟩
          < 2 ^ 32 := by
  have hencode : encodeDeltaSnapshotForClient (goldenBuild false) goldenSchema ⟨7⟩ ⟨5⟩
      ⟨⟨5⟩, goldenEntities⟩ ⟨⟨7⟩, goldenChanged⟩ goldenLimits (List.replicate 42 0)
      = .ok (38, goldenDelta) := by decide +kernel
  have hiff := @encoded_delta_accepted_iff (goldenBuild false) goldenSchema goldenLimits ⟨7⟩ ⟨5⟩
    ⟨⟨5⟩, goldenEntities⟩ ⟨⟨7⟩, goldenChanged⟩ (List.replicate 42 0) _ golden_schema_new (by decide)
    (by decide) (by decide) (by decide)
  exact hiff.2.1 _ _ hencode

/-- The delta from a baseline at tick 0 is written, and refused by the decoder of packets. -/
theorem delta_from_tick_zero_refused :
    Schema.new goldenSchema.components = .ok goldenSchema
      ∧ Snapshot.WellFormed goldenSchema goldenEntities
      ∧ Snapshot.WellFormed goldenSchema goldenChanged
      ∧ (encodeDeltaSnapshotForClient (goldenBuild false) goldenSchema ⟨7⟩ ⟨0⟩ ⟨⟨0⟩, goldenEntities⟩
        ⟨⟨7⟩, goldenChanged⟩ goldenLimits (List.replicate 42 0)).map
          (fun result => result.1) = .ok 38
      ∧ ((encodeDeltaSnapshotForClient (goldenBuild false) goldenSchema ⟨7⟩ ⟨0⟩
        ⟨⟨0⟩, goldenEntities⟩ ⟨⟨7⟩, goldenChanged⟩ goldenLimits
        (List.replicate 42 0)).bind fun result =>
        applyDeltaSnapshot (goldenBuild false) goldenSchema ⟨⟨0⟩, goldenEntities⟩
          (result.2.take result.1) .unlimited goldenLimits)
            = .error (.err (.wire (.invalidBaselineTick 0 2))) :=
  ⟨golden_schema_new, by decide, by decide, by decide +kernel, by decide +kernel⟩

end Sdec
