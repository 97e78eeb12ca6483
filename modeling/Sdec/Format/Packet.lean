import Sdec.Format.Delta
import Sdec.Codec.Full

/-!
# The format of packets

A packet is a header and a payload of sections. `puts_encode_full_snapshot` and
`puts_encode_delta_packet` say what the encoders put into a buffer, and `decode_packet_of_sections`
that the wire decoder cuts it into the sections again.
-/

namespace Sdec

open Rust Bits Bitstream Codec Wire

variable {build : Build} {schema : Schema} {limits : CodecLimits}

/-! ## Headers -/

/-- `encode_header` on the front of a buffer overwrites the front with the header. -/
theorem write_header_eq (header : PacketHeader) {out : List UInt8} (h : HEADER_SIZE ≤ out.length) :
    writeHeader header out = .ok (header.bytes ++ out.drop HEADER_SIZE) := by
  have hfront : slice (m := Outcome CodecError) out 0 HEADER_SIZE = pure (out.take HEADER_SIZE) :=
    slice_of_le (Nat.zero_le _) h
  have hencode := @encode_header_eq header (out.take HEADER_SIZE)
    (by rw [List.length_take, Nat.min_eq_left h])
  rw [List.drop_take_self, List.append_nil] at hencode
  have hcopy : copyFromSlice (m := Outcome CodecError) ([] ++ out) 0 header.bytes
      = pure ([] ++ header.bytes ++ out.drop header.bytes.length) :=
    copy_from_slice_append rfl (by rwa [header.length_bytes])
  rw [header.length_bytes, List.nil_append, List.nil_append] at hcopy
  rw [writeHeader, hfront, pure_bind, hencode]
  exact hcopy

theorem PacketHeader.full_snapshot_valid (hash : UInt64) (tick payloadLen : UInt32) :
    (PacketHeader.fullSnapshot hash tick payloadLen).Valid where
  version := rfl
  flags := (by decide : PacketFlags.fullSnapshot.isValidV2)
  full := fun _ _ => rfl
  delta := fun _ h => absurd h (by decide : ¬ PacketFlags.fullSnapshot.isDeltaSnapshot)

theorem PacketHeader.delta_snapshot_valid (hash : UInt64) (tick payloadLen : UInt32)
    {baselineTick : UInt32} (h : baselineTick ≠ 0) :
    (PacketHeader.deltaSnapshot hash tick baselineTick payloadLen).Valid where
  version := rfl
  flags := (by decide : PacketFlags.deltaSnapshot.isValidV2)
  full := fun _ h => absurd h (by decide : ¬ PacketFlags.deltaSnapshot.isFullSnapshot)
  delta := fun _ _ => h

/-! ## Encoding -/

/-- What `encode_delta_snapshot_with_scratch_mode` and `encode_delta_snapshot_from_updates` put into
a buffer is the header and the payload. -/
theorem puts_encode_delta_packet {α : Type} {tick baselineTick : SnapshotTick}
    {encodePayload : List UInt8 → Outcome CodecError ((α × Nat) × List UInt8)} {facts : α → Prop}
    {need : Nat} {payload : List UInt8} (h : Puts encodePayload facts need payload) :
    Puts (encodeDeltaPacket build schema tick baselineTick encodePayload) facts
      (HEADER_SIZE + need)
      ((PacketHeader.deltaSnapshot (schemaHash build schema) tick.raw baselineTick.raw
        (UInt32.ofNat payload.length)).bytes ++ payload) := by
  have htail (out : List UInt8) (hlen : HEADER_SIZE ≤ out.length) :
      withTail out HEADER_SIZE encodePayload = (encodePayload (out.drop HEADER_SIZE)
        >>= fun (b, tail) => pure (b, out.take HEADER_SIZE ++ tail)) := if_pos hlen
  have hdrop (out : List UInt8) : (out.drop HEADER_SIZE).length = out.length - HEADER_SIZE :=
    List.length_drop
  rcases h with hfails | ⟨a, ha, hneed, hwrite⟩
  · refine .inl fun out hlen => ?_
    rw [encodeDeltaPacket]
    by_cases hshort : out.length < HEADER_SIZE
    · rw [if_pos hshort]
      exact ⟨_, rfl⟩
    · obtain ⟨error, herror⟩ := hfails (out.drop HEADER_SIZE) (by rw [hdrop]; omega)
      rw [if_neg hshort, htail out (Nat.le_of_not_lt hshort), herror]
      exact ⟨error, rfl⟩
  · refine .inr ⟨a, ha, by rw [List.length_append, PacketHeader.length_bytes]; omega,
      fun out hlen => ⟨fun hfits => ?_, fun hno => ?_⟩⟩
    · obtain ⟨rest, hrun, hrest⟩ := (hwrite (out.drop HEADER_SIZE) (by rw [hdrop]; omega)).1
        (by rw [hdrop]; omega)
      rw [hdrop] at hrest
      have hadd : HEADER_SIZE + payload.length ≤ usizeMax := by
        simp only [isizeMax, usizeMax] at *
        omega
      have hheader :=
        @write_header_eq (PacketHeader.deltaSnapshot (schemaHash build schema) tick.raw
          baselineTick.raw (UInt32.ofNat payload.length))
          (out.take HEADER_SIZE ++ (payload ++ rest))
          (by rw [List.length_append, List.length_take]; omega)
      rw [List.drop_left' (by rw [List.length_take]; omega)] at hheader
      refine ⟨rest, ?_, by rw [List.length_append, PacketHeader.length_bytes]; omega⟩
      rw [encodeDeltaPacket, if_neg (by omega), htail out (by omega), hrun]
      simp only [ok_bind, pure_bind, hheader, usize_add_of_le hadd, List.length_append,
        PacketHeader.length_bytes, List.append_assoc]
      rfl
    · rw [encodeDeltaPacket]
      by_cases hshort : out.length < HEADER_SIZE
      · rw [if_pos hshort]
        exact ⟨_, rfl⟩
      · obtain ⟨error, herror⟩ := (hwrite (out.drop HEADER_SIZE) (by rw [hdrop]; omega)).2
          (by rw [hdrop]; omega)
        rw [if_neg hshort, htail out (Nat.le_of_not_lt hshort), herror]
        exact ⟨error, rfl⟩

/-- A call that returns only the number of bytes it has put into a buffer. -/
def sized {ε : Type} (write : List UInt8 → Outcome ε (Nat × List UInt8)) (out : List UInt8) :
    Outcome ε ((Unit × Nat) × List UInt8) := do
  let (n, out) ← write out
  return (((), n), out)

theorem sized_eq_ok {ε : Type} {write : List UInt8 → Outcome ε (Nat × List UInt8)}
    {out out' : List UInt8} {n : Nat} :
    sized write out = .ok (((), n), out') ↔ write out = .ok (n, out') := by
  rw [sized, bind_eq_ok]
  constructor
  · rintro ⟨p, hp, h⟩
    cases h
    exact hp
  · exact fun h => ⟨_, h, rfl⟩

theorem Puts.sized_check {ε : Type} {c : Prop} [Decidable c] {error : ε}
    {next : Unit → List UInt8 → Outcome ε (Nat × List UInt8)} {facts : Unit → Prop} {need : Nat}
    {bytes : List UInt8} (h : ¬ c → Puts (sized (next ())) facts need bytes) :
    Puts (sized fun out => if c then fail error >>= fun u => next u out else next () out) facts need
      bytes := by
  by_cases hif : c
  · simp only [if_pos hif]
    exact .inl fun _ _ => ⟨_, rfl⟩
  · simp only [if_neg hif]
    exact h hif

theorem Puts.sized_lift {ε β : Type} {x : Outcome ε β}
    {next : β → List UInt8 → Outcome ε (Nat × List UInt8)} {facts : Unit → Prop} {need : Nat}
    {bytes : List UInt8} (h : ∀ b, x = .ok b → Puts (sized (next b)) facts need bytes) :
    Puts (sized fun out => x >>= fun b => next b out) facts need bytes := by
  cases hx : x with
  | ok b => exact h b hx
  | error e => exact .inl fun _ _ => ⟨e, rfl⟩

/-- A call whose value is dropped and that is given the value back. -/
theorem sized_eq {ε : Type} (write : List UInt8 → Outcome ε ((Unit × Nat) × List UInt8)) :
    sized (fun out => write out >>= fun p => pure (p.1.2, p.2)) = write := by
  funext out
  rw [sized, bind_assoc]
  exact bind_pure _

/-- What is known of the sections that the encoder of full snapshots has written. -/
structure FullSections (build : Build) (schema : Schema) (limits : CodecLimits)
    (entities : List EntitySnapshot) (body : List UInt8) : Prop where
  count : entities.length ≤ limits.maxEntitiesCreate
  components : entities ≠ [] → schema.components.length ≤ limits.maxComponentsPerEntity
  encodes : ∀ entity ∈ entities, entity.Encodes build schema limits
  layout : ofBytes body = render 0 (countedLayout entities.length (createLayout schema entities))
  admits : AdmitBodies limits (sectionIf (!entities.isEmpty) ⟨.entityCreate, body⟩)

/-- What `encode_full_snapshot` puts into a buffer is the header and the create section, if there
are entities. -/
theorem puts_encode_full_snapshot (tick : SnapshotTick) (entities : List EntitySnapshot) :
    ∃ body, Puts (sized (encodeFullSnapshot build schema tick entities limits))
      (fun _ => FullSections build schema limits entities body)
      (HEADER_SIZE + if !entities.isEmpty then 6 + body.length else 0)
      ((PacketHeader.fullSnapshot (schemaHash build schema) tick.raw
        (UInt32.ofNat ((sectionIf (!entities.isEmpty) ⟨.entityCreate, body⟩).flatMap
          WireSection.bytes).length)).bytes
        ++ (sectionIf (!entities.isEmpty) ⟨.entityCreate, body⟩).flatMap WireSection.bytes) := by
  obtain ⟨body, hbody⟩ := exists_body entities.length (createLayout schema entities)
  refine ⟨body, ?_⟩
  have hsection := @appends_section limits _ _ (!entities.isEmpty) .entityCreate
    (Full.encodeCreateBody build schema entities limits)
    (fun _ => entities ≠ [] → schema.components.length ≤ limits.maxComponentsPerEntity
      ∧ ∀ entity ∈ entities, entity.Encodes build schema limits) body
    (fun _ => (writes_encode_full_body entities).mono fun _ h _ => h) hbody ()
    fun hno hne => absurd (by simpa using hne) hno
  obtain ⟨payload, hpayload⟩ : ∃ payload, payload
      = (sectionIf (!entities.isEmpty) ⟨.entityCreate, body⟩).flatMap WireSection.bytes := ⟨_, rfl⟩
  rw [← hpayload] at hsection ⊢
  -- every failure is one of a check or of the section
  have hfails (out : List UInt8)
      (h : ¬ out.length < HEADER_SIZE → ¬ entities.length > limits.maxEntitiesCreate →
        ∃ error, appendSection (!entities.isEmpty) .entityCreate limits
          (Full.encodeCreateBody build schema entities limits) () HEADER_SIZE out = .error error) :
      ∃ error, sized (encodeFullSnapshot build schema tick entities limits) out = .error error := by
    rw [sized, encodeFullSnapshot]
    by_cases hshort : out.length < HEADER_SIZE
    · rw [if_pos hshort]
      exact ⟨_, rfl⟩
    by_cases hcount : entities.length > limits.maxEntitiesCreate
    · rw [if_neg hshort, if_pos hcount]
      exact ⟨_, rfl⟩
    obtain ⟨error, herror⟩ := h hshort hcount
    rw [if_neg hshort, if_neg hcount, herror]
    exact ⟨error, rfl⟩
  -- the header goes into the front of the buffer, the section behind it
  have hcut (out : List UInt8) (h : HEADER_SIZE ≤ out.length) :
      (out.take HEADER_SIZE).length = HEADER_SIZE ∧ (out.drop HEADER_SIZE).length
        = out.length - HEADER_SIZE ∧ out.take HEADER_SIZE ++ out.drop HEADER_SIZE = out :=
    ⟨by rw [List.length_take, Nat.min_eq_left h], List.length_drop, List.take_append_drop _ _⟩
  rcases hsection with hsection | ⟨_, ⟨hfacts, hadmits⟩, hneed, hsection⟩
  · refine .inl fun out hlen => hfails out fun hshort _ => ?_
    obtain ⟨htake, -, hout⟩ := hcut out (Nat.le_of_not_lt hshort)
    have := hsection (out.take HEADER_SIZE) (out.drop HEADER_SIZE) (by rwa [hout])
    rwa [hout, htake] at this
  -- the count of creates is checked for every buffer alike
  by_cases hcount : entities.length > limits.maxEntitiesCreate
  · exact .inl fun out _ => hfails out fun _ hno => absurd hcount hno
  refine .inr ⟨(), ⟨Nat.le_of_not_lt hcount, fun hne => (hfacts hne).1, fun entity hentity =>
    (hfacts (List.ne_nil_of_mem hentity)).2 entity hentity, hbody, hadmits⟩,
    by rw [List.length_append, PacketHeader.length_bytes]; omega, fun out hlen => ?_⟩
  by_cases hshort : out.length < HEADER_SIZE
  · exact ⟨fun h => absurd h (by omega), fun _ => hfails out fun hno => absurd hshort hno⟩
  obtain ⟨htake, hdrop, hout⟩ := hcut out (Nat.le_of_not_lt hshort)
  have hroom : HEADER_SIZE + (if !entities.isEmpty then 6 + body.length else 0) ≤ out.length
      ↔ (if !entities.isEmpty then 6 + body.length else 0) ≤ out.length - HEADER_SIZE := by omega
  obtain ⟨hok, herror⟩ := hsection (out.take HEADER_SIZE) (out.drop HEADER_SIZE) (by rwa [hout])
  rw [hout, htake, hdrop] at hok herror
  rw [hroom]
  refine ⟨fun hfits => ?_, fun hno => hfails out fun _ _ => herror hno⟩
  specialize hok hfits
  obtain ⟨rest, hrun, hrest⟩ := hok
  have hheader := @write_header_eq (PacketHeader.fullSnapshot (schemaHash build schema) tick.raw
    (UInt32.ofNat payload.length)) (out.take HEADER_SIZE ++ payload ++ rest)
    (by simp only [List.length_append]; omega)
  rw [List.append_assoc, List.drop_left' htake] at hheader
  have hsub : usizeSub (m := Outcome CodecError) (HEADER_SIZE + payload.length) HEADER_SIZE
      = pure payload.length := by
    rw [usizeSub, if_pos (Nat.le_add_right _ _), Nat.add_sub_cancel_left]
  refine ⟨rest, ?_, by rw [List.length_append, PacketHeader.length_bytes]; omega⟩
  rw [sized, encodeFullSnapshot, if_neg hshort, if_neg hcount, hrun]
  simp only [ok_bind, pure_bind, hsub, List.append_assoc, hheader, List.length_append,
    PacketHeader.length_bytes]
  rfl

/-! ## Decoding -/

/-- The limits admit a packet: it is not too long and, cut without limits, has not too many sections
and none too long. -/
structure Wire.Limits.Admit (wireLimits : Wire.Limits) (bytes : List UInt8) : Prop where
  length : bytes.length ≤ wireLimits.maxPacketBytes
  sections : ∀ packet, decodePacket bytes .unlimited = .ok packet →
    wireLimits.AdmitSections packet.sections

theorem Wire.Limits.admit_iff {wireLimits : Wire.Limits} {bytes : List UInt8} :
    wireLimits.Admit bytes ↔ bytes.length ≤ wireLimits.maxPacketBytes ∧
      match decodePacket bytes .unlimited with
      | .ok packet => wireLimits.AdmitSections packet.sections
      | .error _ => True := by
  cases hdecode : decodePacket bytes .unlimited with
  | ok packet =>
      exact ⟨fun h => ⟨h.length, h.sections packet hdecode⟩, fun h => ⟨h.1, fun packet' h' => by
        rw [hdecode] at h'
        cases h'
        exact h.2⟩⟩
  | error e =>
      exact ⟨fun h => ⟨h.length, trivial⟩, fun h => ⟨h.1, fun packet' h' => by
        rw [hdecode] at h'
        cases h'⟩⟩

instance (wireLimits : Wire.Limits) (sections : List WireSection) :
    Decidable (wireLimits.AdmitSections sections) :=
  inferInstanceAs (Decidable (_ ∧ _))

instance (wireLimits : Wire.Limits) (bytes : List UInt8) : Decidable (wireLimits.Admit bytes) :=
  match hdecode : decodePacket bytes .unlimited with
  | .ok packet => decidable_of_iff
      (bytes.length ≤ wireLimits.maxPacketBytes ∧ wireLimits.AdmitSections packet.sections) (by
        rw [Wire.Limits.admit_iff, hdecode])
  | .error _ => decidable_of_iff (bytes.length ≤ wireLimits.maxPacketBytes) (by
        rw [Wire.Limits.admit_iff, hdecode, and_iff_left trivial])

/-- Limits that are no limits admit everything that fits into memory. -/
theorem Wire.Limits.unlimited_admits {sections : List WireSection}
    (hlen : (sections.flatMap WireSection.bytes).length ≤ isizeMax)
    (hbodies : ∀ s ∈ sections, s.body.length < 2 ^ 32) :
    Wire.Limits.unlimited.AdmitSections sections := by
  have hcount := length_sections_le sections
  refine ⟨?_, fun s hs => ?_⟩
  · simp only [Wire.Limits.unlimited, usizeMax, isizeMax] at *
    omega
  · have := hbodies s hs
    simp only [Wire.Limits.unlimited, usizeMax]
    omega

/-- Without limits, sections are cut into what they were made of. -/
theorem decode_sections_unlimited {sections : List WireSection}
    (hlen : (sections.flatMap WireSection.bytes).length ≤ isizeMax)
    (hbodies : ∀ s ∈ sections, s.body.length < 2 ^ 32) :
    decodeSections (sections.flatMap WireSection.bytes) .unlimited = .ok sections :=
  decode_sections_eq hlen hbodies (Wire.Limits.unlimited_admits hlen hbodies)

section Sections

variable {header : PacketHeader} {sections : List WireSection} {wireLimits : Wire.Limits}
  (hheader : header.Valid)
  (hpayload : header.payloadLen = UInt32.ofNat (sections.flatMap WireSection.bytes).length)
  (hshort : (sections.flatMap WireSection.bytes).length < 2 ^ 32)
  (hbodies : ∀ s ∈ sections, s.body.length < 2 ^ 32)

include hheader hpayload hshort hbodies

/-- A packet is cut into the sections it was made of, within the limits on them. -/
theorem decode_packet_of_admitted
    (hlen : HEADER_SIZE + (sections.flatMap WireSection.bytes).length ≤ wireLimits.maxPacketBytes)
    (hadmits : wireLimits.AdmitSections sections) :
    decodePacket (header.bytes ++ sections.flatMap WireSection.bytes) wireLimits
      = .ok ⟨header, sections⟩ := by
  have hmax : (sections.flatMap WireSection.bytes).length ≤ isizeMax := by
    simp only [isizeMax]
    omega
  have hlength : header.payloadLen.toNat = (sections.flatMap WireSection.bytes).length := by
    rw [hpayload, UInt32.toNat_ofNat', Nat.mod_eq_of_lt hshort]
  rw [decode_packet_eq hheader hlength hlen, decode_sections_eq hmax hbodies hadmits]
  rfl

/-- A packet is cut into the sections it was made of, within limits that admit its bytes. -/
theorem decode_packet_of_sections
    (haccept : wireLimits.Admit (header.bytes ++ sections.flatMap WireSection.bytes)) :
    decodePacket (header.bytes ++ sections.flatMap WireSection.bytes) wireLimits
      = .ok ⟨header, sections⟩ := by
  have hmax : (sections.flatMap WireSection.bytes).length ≤ isizeMax := by
    simp only [isizeMax]
    omega
  have hsize : HEADER_SIZE = 28 := rfl
  refine decode_packet_of_admitted hheader hpayload hshort hbodies ?_ (haccept.sections _
    (decode_packet_of_admitted hheader hpayload hshort hbodies ?_
      (Wire.Limits.unlimited_admits hmax hbodies)))
  · have := haccept.length
    rwa [List.length_append, PacketHeader.length_bytes] at this
  · simp only [Wire.Limits.unlimited, usizeMax]
    omega

end Sections

end Sdec
