import Sdec.Format.Packet

/-!
# Full snapshots round trip

What the decoder of full snapshots makes of a packet that the encoder wrote. In a build whose `i64`
arithmetic wraps, it returns the snapshot, for every valid schema and all limits.
-/

namespace Sdec

open Rust Bits Bitstream Codec Wire Sorted

variable {build : Build} {schema : Schema} {limits : CodecLimits}
variable {entities : List EntitySnapshot} {body : List UInt8}

theorem FullSections.length_lt (h : FullSections build schema limits entities body)
    (hne : entities ≠ []) : body.length < 2 ^ 32 := by
  have hsome : (!entities.isEmpty) = true := by simpa using hne
  have hbody := h.admits ⟨.entityCreate, body⟩
  rw [hsome, sectionIf, if_pos rfl] at hbody
  exact (hbody (List.mem_singleton_self _)).2

/-- The sections that the encoder has written are decoded to the entities. -/
theorem decode_full_sections_eq (hschema : schema.Valid) (hascend : Ascending entities)
    (hshaped : ∀ entity ∈ entities, entity.Shaped schema)
    (hreadable : ∀ entity ∈ entities, entity.Readable build schema)
    (h : FullSections build schema limits entities body) :
    decodeFullSections build schema limits none
      (sectionIf (!entities.isEmpty) ⟨.entityCreate, body⟩) = .ok entities := by
  cases hcases : entities with
  | nil => rfl
  | cons first rest =>
      rw [← hcases]
      have hne : entities ≠ [] := by rw [hcases]; exact List.cons_ne_nil _ _
      have hlong := h.length_lt hne
      have hids : AscendFrom (· < ·) none (entities.map fun entity => entity.id.raw) := by
        rw [ascend_from_none]
        exact List.pairwise_map.mpr hascend
      have hmax : body.length ≤ limits.maxSectionBytes := by
        refine (h.admits ⟨.entityCreate, body⟩ ?_).1
        rw [hcases]
        exact List.mem_singleton_self _
      have hcreate := (decode_full_create_section_eq_ok hschema hshaped h.encodes hids
        h.layout hlong (Nat.lt_of_le_of_lt (length_keyed_le h.layout) hlong)).mpr
        ⟨⟨hmax, h.count, h.components hne, hreadable⟩, rfl⟩
      have hsome : (!entities.isEmpty) = true := by rw [hcases]; rfl
      rw [hsome, sectionIf, if_pos rfl]
      simp only [decodeFullSections, Option.isSome_none, Bool.false_eq_true, if_false, hcreate,
        ok_bind]
      rfl

/-- What the encoder of full snapshots has written. -/
theorem encode_full_snapshot_ok {tick : SnapshotTick} {out out' : List UInt8} {n : Nat}
    (hlen : out.length ≤ isizeMax)
    (hencode : encodeFullSnapshot build schema tick entities limits out = .ok (n, out')) :
    ∃ body, FullSections build schema limits entities body
      ∧ out'.take n = (PacketHeader.fullSnapshot (schemaHash build schema) tick.raw
        (UInt32.ofNat ((sectionIf (!entities.isEmpty) ⟨.entityCreate, body⟩).flatMap
          WireSection.bytes).length)).bytes
        ++ (sectionIf (!entities.isEmpty) ⟨.entityCreate, body⟩).flatMap WireSection.bytes
      ∧ n = (out'.take n).length ∧ n ≤ out.length := by
  obtain ⟨body, hputs⟩ := @puts_encode_full_snapshot build schema limits tick entities
  obtain ⟨hfacts, rfl, -, rest, rfl, hrest⟩ := hputs.of_ok hlen (sized_eq_ok.mpr hencode)
  exact ⟨body, hfacts, List.take_left, by rw [List.take_left], by omega⟩

/-- A packet with the sections that the encoder has written is decoded to the entities. -/
theorem decode_full_snapshot_of_packet (hwrapping : build.overflowChecks = false)
    (hschema : schema.Valid) (hentities : Snapshot.WellFormed schema entities)
    (h : FullSections build schema limits entities body) {bytes : List UInt8}
    {wireLimits : Wire.Limits} {tick : SnapshotTick} {payloadLen : UInt32}
    (hpacket : decodePacket bytes wireLimits
      = .ok ⟨PacketHeader.fullSnapshot (schemaHash build schema) tick.raw payloadLen,
        sectionIf (!entities.isEmpty) ⟨.entityCreate, body⟩⟩) :
    decodeFullSnapshot build schema bytes wireLimits limits = .ok ⟨tick, entities⟩ := by
  have hsections := decode_full_sections_eq hschema hentities.ascending
    (fun entity hentity => (hentities.entities entity hentity).shaped)
    (fun _ _ _ _ _ _ => ComponentDef.readable_of_wrapping hwrapping) h
  rw [decodeFullSnapshot, hpacket]
  exact decode_full_packet_eq_ok.mpr
    ⟨(by decide : PacketFlags.fullSnapshot.isFullSnapshot), rfl, rfl, hsections, rfl⟩

/-- A full snapshot that was encoded is decoded to the same tick and entities. -/
theorem decode_encode_full_snapshot (hwrapping : build.overflowChecks = false)
    {components : List ComponentDef} (hschema : Schema.new components = .ok schema)
    {tick : SnapshotTick} (hentities : Snapshot.WellFormed schema entities)
    {out out' : List UInt8} {n : Nat} (hlen : out.length ≤ isizeMax)
    (hencode : encodeFullSnapshot build schema tick entities limits out = .ok (n, out'))
    (hn : n < 2 ^ 32) {wireLimits : Wire.Limits} (haccept : wireLimits.Admit (out'.take n)) :
    decodeFullSnapshot build schema (out'.take n) wireLimits limits = .ok ⟨tick, entities⟩ := by
  obtain ⟨body, hfacts, hbytes, hsize, -⟩ := encode_full_snapshot_ok hlen hencode
  rw [hbytes, List.length_append] at hsize
  rw [hbytes] at haccept ⊢
  have hpacket := decode_packet_of_sections
    (PacketHeader.full_snapshot_valid (schemaHash build schema) tick.raw (UInt32.ofNat _)) rfl
    (by omega) (fun s hs => (hfacts.admits s hs).2) haccept
  exact decode_full_snapshot_of_packet hwrapping (schema_new_eq_ok.mp hschema).2 hentities hfacts
    hpacket

/-! ## Two entities -/

/-- The full snapshot of `goldenEntities` at tick 7, in a buffer of 49 bytes. -/
def goldenPacket : List UInt8 :=
  [67, 69, 68, 83, 2, 0, 1, 0, 203, 95, 129, 138, 69, 190, 32, 147, 7, 0, 0, 0, 0, 0, 0, 0, 17, 0,
    0, 0, 1, 15, 2, 3, 0, 0, 0, 255, 254, 227, 119, 0, 9, 0, 0, 0, 0, 0, 0, 0, 0]

theorem decode_encode_full_snapshot_golden :
    encodeFullSnapshot (goldenBuild false) goldenSchema ⟨7⟩ goldenEntities goldenLimits
        (List.replicate 49 0) = .ok (45, goldenPacket)
      ∧ decodeFullSnapshot (goldenBuild false) goldenSchema (goldenPacket.take 45) .unlimited
        goldenLimits = .ok ⟨⟨7⟩, goldenEntities⟩ := by
  have hencode : encodeFullSnapshot (goldenBuild false) goldenSchema ⟨7⟩ goldenEntities goldenLimits
      (List.replicate 49 0) = .ok (45, goldenPacket) := by decide +kernel
  exact ⟨hencode, decode_encode_full_snapshot rfl golden_schema_new (by decide) (by decide) hencode
    (by decide) (by decide +kernel)⟩

end Sdec
