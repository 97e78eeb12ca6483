import Sdec.Format.AcceptedPacket
import Sdec.Format.Succeeds
import Sdec.RoundTrip.Full
import Sdec.Wire.Framing

/-!
# Encoding again what was decoded

What the decoder of full snapshots accepts, in whatever bytes, the encoder writes in no more of
them, and the decoder returns it again.
-/

namespace Sdec

open Rust Bits Bitstream Codec Wire Sorted

variable {build : Build} {schema : Schema} {limits : CodecLimits}
variable {entities : List EntitySnapshot}

/-- The body of a create section can be written: the encoder emits it, within the limits. -/
structure BodyFits (build : Build) (schema : Schema) (limits : CodecLimits)
    (entities : List EntitySnapshot) (body : List UInt8) : Prop where
  emits : Emits 0 (Full.encodeCreateBody build schema entities limits) True
    (countedLayout entities.length (createLayout schema entities)) ()
  layout : ofBytes body = render 0 (countedLayout entities.length (createLayout schema entities))
  size : body.length ≤ limits.maxSectionBytes
  small : body.length < 2 ^ 32

/-- The encoder of full snapshots succeeds where the body of its section fits. -/
theorem encode_full_snapshot_succeeds {tick : SnapshotTick} {out : List UInt8}
    (hlen : out.length ≤ isizeMax) (hheader : HEADER_SIZE ≤ out.length)
    (hcount : entities.length ≤ limits.maxEntitiesCreate)
    (h : entities ≠ [] → ∃ body, BodyFits build schema limits entities body
      ∧ HEADER_SIZE + (6 + body.length) ≤ out.length) :
    ∃ result, encodeFullSnapshot build schema tick entities limits out = .ok result := by
  have hsize : HEADER_SIZE = 28 := rfl
  have htakeLength : (out.take HEADER_SIZE).length = HEADER_SIZE := by
    rw [List.length_take, Nat.min_eq_left hheader]
  have hsection : ∃ payload tail, payload.length ≤ out.length - HEADER_SIZE ∧
      appendSection (!entities.isEmpty) .entityCreate limits
        (Full.encodeCreateBody build schema entities limits) () HEADER_SIZE out
        = .ok (((), HEADER_SIZE + payload.length), out.take HEADER_SIZE ++ (payload ++ tail)) := by
    cases hcases : entities with
    | nil =>
        refine ⟨[], out.drop HEADER_SIZE, Nat.zero_le _, ?_⟩
        rw [List.nil_append, List.take_append_drop]
        rfl
    | cons first rest =>
        rw [← hcases]
        have hne : entities ≠ [] := by
          rw [hcases]
          exact List.cons_ne_nil _ _
        obtain ⟨body, hbody, hroom⟩ := h hne
        have hfits : 6 + body.length ≤ (out.drop HEADER_SIZE).length := by
          rw [List.length_drop]
          omega
        obtain ⟨tail, hwrite, hlength⟩ := @write_section_ok limits _ _ .entityCreate _ _ body
          (out.drop HEADER_SIZE) hbody.emits hbody.layout hbody.size hbody.small hfits
        rw [List.length_drop] at hlength
        refine ⟨WireSection.bytes ⟨.entityCreate, body⟩, tail, by omega, ?_⟩
        have hsome : (!entities.isEmpty) = true := by
          rw [hcases]
          rfl
        have hadd : HEADER_SIZE + (WireSection.bytes ⟨.entityCreate, body⟩).length ≤ usizeMax := by
          simp only [isizeMax, usizeMax] at *
          omega
        rw [appendSection, if_pos hsome, withTail, if_pos hheader, hwrite]
        simp only [ok_bind, pure_bind, usize_add_of_le hadd]
        rfl
  obtain ⟨payload, tail, hpayload, hsection⟩ := hsection
  have hsub : usizeSub (m := Outcome CodecError) (HEADER_SIZE + payload.length) HEADER_SIZE
      = pure payload.length := by
    rw [usizeSub, if_pos (Nat.le_add_right _ _), Nat.add_sub_cancel_left]
  have hwrite := @write_header_eq (PacketHeader.fullSnapshot (schemaHash build schema) tick.raw
    (UInt32.ofNat payload.length)) (out.take HEADER_SIZE ++ (payload ++ tail)) (by
      rw [List.length_append, htakeLength]
      omega)
  rw [encodeFullSnapshot, if_neg (Nat.not_lt.mpr hheader), if_neg (Nat.not_lt.mpr hcount), hsection]
  simp only [ok_bind, pure_bind, hsub, hwrite]
  exact ⟨_, rfl⟩

/-- Entities that were decoded can be encoded, in a body no longer than the one they came from. -/
theorem AcceptedCreates.body_fits (hwrapping : build.overflowChecks = false)
    (hschema : schema.Valid) {old : List UInt8} (h : AcceptedCreates schema limits old entities)
    (hcomponents : schema.components.length ≤ limits.maxComponentsPerEntity)
    (hsmall : old.length < 2 ^ 32) :
    ∃ body, BodyFits build schema limits entities body ∧ body.length ≤ old.length := by
  obtain ⟨body, hbody⟩ := exists_body entities.length (createLayout schema entities)
  have hlength : body.length ≤ old.length := by
    have hstop : 8 * body.length = stop 0 (countedLayout entities.length
        (createLayout schema entities)) := by
      rw [stop, ← hbody, length_ofBytes, Nat.zero_add]
    have := h.layout
    omega
  refine ⟨body, ⟨?_, hbody, Nat.le_trans hlength h.size, by omega⟩, hlength⟩
  refine emits_encode_full_body hcomponents ?_ ?_ ?_ ?_
  · exact ascend_from_none.mpr (List.pairwise_map.mpr h.ascending)
  · exact fun entity hentity => (h.accepted entity hentity).wellFormed.shaped.known
  · exact fun entity hentity =>
      Nat.le_trans (length_le_of_sublistForall₂ (h.accepted entity hentity).wellFormed) hcomponents
  · intro entity hentity definition hdefinition component hcomponent
    have hwellFormed := ((EntitySnapshot.wellFormed_iff hschema).mp
      (h.accepted entity hentity).wellFormed).2 definition hdefinition component hcomponent
    have hmem := (find_component_eq_some hcomponent).1
    refine ⟨hwellFormed.fields.length_eq.symm, ?_, fun p hp => ⟨?_, ?_⟩⟩
    · rw [hwellFormed.fields.length_eq]
      exact (h.accepted entity hentity).fields component hmem
    · exact (List.forall₂_iff_zip.mp hwellFormed.fields).2 hp
    · exact FieldCodec.writable_of_wrapping hwrapping
        ((hschema.components definition hdefinition).codecs _ (List.of_mem_zip hp).1)

/-- Entities that were decoded are well formed, and no more than may be created. -/
theorem AcceptedFull.well_formed {sections : List WireSection}
    (h : AcceptedFull schema limits sections entities) :
    entities.length ≤ limits.maxEntitiesCreate ∧ Snapshot.WellFormed schema entities := by
  rcases h.entities with hnil | ⟨section_, _, hcreates, _⟩
  · rw [hnil]
    exact ⟨Nat.zero_le _, List.Pairwise.nil, List.forall_mem_nil _⟩
  · exact ⟨hcreates.count, hcreates.ascending,
      fun entity hentity => (hcreates.accepted entity hentity).wellFormed⟩

/-- The section that the entities came from leaves room for the new one. -/
theorem AcceptedFull.body_fits (hwrapping : build.overflowChecks = false)
    (hschema : schema.Valid) {packet : WirePacket} {wireLimits : Wire.Limits} {bytes : List UInt8}
    (hcut : packet.CutFrom wireLimits bytes)
    (h : AcceptedFull schema limits packet.sections entities) (hne : entities ≠ []) :
    ∃ body, BodyFits build schema limits entities body
      ∧ HEADER_SIZE + (WireSection.bytes ⟨.entityCreate, body⟩).length ≤ bytes.length
      ∧ wireLimits.AdmitSections [⟨.entityCreate, body⟩] := by
  have hheader := hcut.header
  rcases h.entities with hnil | ⟨section_, hsection, hcreates, hcomponents⟩
  · exact absurd hnil hne
  · obtain ⟨frame, hframe, hle⟩ := hcut.partition.exists_frame hsection
    obtain ⟨body, hfits, hshorter⟩ :=
      hcreates.body_fits hwrapping hschema hcomponents hframe.body_lt
    have hbound :=
      @WireSection.Framed.length_le section_ ⟨.entityCreate, body⟩ frame hframe hshorter
    rw [List.length_drop] at hle
    exact ⟨body, hfits, by omega, Nat.le_trans (List.length_pos_of_mem hsection) hcut.admits.1,
      List.forall_mem_singleton.mpr
        (Nat.le_trans hshorter (hcut.admits.2 section_ hsection))⟩

/-- A full snapshot that was decoded from any bytes is encoded in no more of them, into every buffer
with four bytes to spare, and decoded again. -/
theorem reencode_full_snapshot (hwrapping : build.overflowChecks = false)
    {components : List ComponentDef} (hnew : Schema.new components = .ok schema)
    (wireLimits : Wire.Limits) (limits : CodecLimits) (bytes : List UInt8)
    (hbytes : bytes.length ≤ isizeMax) {snapshot : Snapshot}
    (hdecode : decodeFullSnapshot build schema bytes wireLimits limits = .ok snapshot)
    (out : List UInt8) (hlen : out.length ≤ isizeMax) (hroom : bytes.length + 4 ≤ out.length) :
    ∃ m out', encodeFullSnapshot build schema snapshot.tick snapshot.entities limits out
      = .ok (m, out')
      ∧ m ≤ bytes.length
      ∧ decodeFullSnapshot build schema (out'.take m) wireLimits limits = .ok snapshot := by
  have hschema := (schema_new_eq_ok.mp hnew).2
  obtain ⟨packet, hpacket, hfull⟩ := bind_eq_ok.mp hdecode
  have hcut : packet.CutFrom wireLimits bytes :=
    (@decode_packet_ensures bytes False wireLimits hbytes).of_ok (map_err_eq_ok.mp hpacket)
  have haccepted := (@decode_full_packet_ensures build schema limits True hschema
    (fun _ _ => trivial) packet).of_ok hfull
  have hheader := hcut.header
  have hpayload :
      bytes.length - HEADER_SIZE < 2 ^ 32 := hcut.payload ▸ packet.header.payloadLen.toNat_lt
  obtain ⟨hcount, hentities⟩ := haccepted.well_formed
  have hbody (hne : snapshot.entities ≠ []) :=
    @AcceptedFull.body_fits build _ _ _ hwrapping hschema _ _ _ hcut haccepted hne
  obtain ⟨⟨m, out'⟩, hencode⟩ :=
    @encode_full_snapshot_succeeds build schema limits snapshot.entities
      snapshot.tick out hlen (by omega) hcount fun hne => by
        obtain ⟨body, hfits, hbound, _⟩ := hbody hne
        have := length_varu32_pos (UInt32.ofNat body.length)
        rw [WireSection.bytes, List.length_cons, List.length_append] at hbound
        dsimp only at hbound
        exact ⟨body, hfits, by omega⟩
  obtain ⟨body, hfacts, htake, hm, _⟩ := encode_full_snapshot_ok hlen hencode
  -- the body that was written is the one that fits
  have hnew : HEADER_SIZE + ((sectionIf (!snapshot.entities.isEmpty)
        ⟨.entityCreate, body⟩).flatMap WireSection.bytes).length ≤ bytes.length
      ∧ wireLimits.AdmitSections
        (sectionIf (!snapshot.entities.isEmpty) ⟨.entityCreate, body⟩) := by
    by_cases hnil : snapshot.entities = []
    · rw [hnil]
      exact ⟨hheader, Nat.zero_le _, List.forall_mem_nil _⟩
    · obtain ⟨body', hfits, hbound, hadmits⟩ := hbody hnil
      have hsame : body = body' := ofBytes_injective (hfacts.layout.trans hfits.layout.symm)
      rw [sectionIf, if_pos (by simpa using hnil), hsame, List.flatMap_singleton]
      exact ⟨hbound, hadmits⟩
  rw [htake, List.length_append, PacketHeader.length_bytes] at hm
  have hpacket := decode_packet_of_admitted
    (PacketHeader.full_snapshot_valid (schemaHash build schema) snapshot.tick.raw (UInt32.ofNat _))
    rfl (by omega) (fun s hs => (hfacts.admits s hs).2) (Nat.le_trans hnew.1 hcut.size) hnew.2
  refine ⟨m, out', hencode, hm ▸ hnew.1, ?_⟩
  rw [htake]
  exact decode_full_snapshot_of_packet hwrapping hschema hentities hfacts hpacket

/-- The golden entities with a count in two bytes, and with padding that is not zero. -/
theorem reencode_full_snapshot_padded :
    ∃ m out', encodeFullSnapshot (goldenBuild false) goldenSchema ⟨7⟩ goldenEntities goldenLimits
        (List.replicate 50 255) = .ok (m, out')
      ∧ m ≤ 46
      ∧ decodeFullSnapshot (goldenBuild false) goldenSchema (out'.take m) .unlimited goldenLimits
        = .ok ⟨⟨7⟩, goldenEntities⟩ := by
  have hdecode : decodeFullSnapshot (goldenBuild false) goldenSchema
      [67, 69, 68, 83, 2, 0, 1, 0, 203, 95, 129, 138, 69, 190, 32, 147, 7, 0, 0, 0, 0, 0, 0, 0, 18,
        0, 0, 0, 1, 16, 0x82, 0, 3, 0, 0, 0, 255, 254, 227, 119, 63, 9, 0, 0, 0, 127]
      .unlimited goldenLimits
      = .ok ⟨⟨7⟩, goldenEntities⟩ := by decide +kernel
  have hreencode :=
    reencode_full_snapshot rfl golden_schema_new .unlimited goldenLimits _ (by decide)
      hdecode (List.replicate 50 255) (by decide) (by decide)
  exact hreencode

end Sdec
