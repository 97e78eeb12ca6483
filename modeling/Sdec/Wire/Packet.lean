import Sdec.Wire.Varint

/-!
# Packets

Packet framing, after `wire/src/packet.rs`. `decodePacket` checks the fixed header and cuts the
payload into sections; a section is a tag, the length of its body as a varint, and the body.
-/

namespace Sdec.Wire

open Rust Bits

/-- `SectionTag`. -/
inductive SectionTag where
  | entityCreate
  | entityDestroy
  | entityUpdate
  | entityUpdateSparse
  | entityUpdateSparsePacked
  | sessionInit
  deriving DecidableEq, Repr

/-- The discriminant of a section tag, `tag as u8`. -/
def SectionTag.toU8 : SectionTag → UInt8
  | .entityCreate => 1
  | .entityDestroy => 2
  | .entityUpdate => 3
  | .entityUpdateSparse => 4
  | .entityUpdateSparsePacked => 5
  | .sessionInit => 6

/-- `SectionTag::parse`. -/
def SectionTag.parse (tag : UInt8) : Outcome DecodeError SectionTag :=
  match tag.toNat with
  | 1 => return .entityCreate
  | 2 => return .entityDestroy
  | 3 => return .entityUpdate
  | 4 => return .entityUpdateSparse
  | 5 => return .entityUpdateSparsePacked
  | 6 => return .sessionInit
  | _ => fail (.unknownSectionTag tag)

/-- `WireSection`. -/
structure WireSection where
  tag : SectionTag
  body : List UInt8
  deriving DecidableEq, Repr

/-- `WirePacket`. -/
structure WirePacket where
  header : PacketHeader
  sections : List WireSection
  deriving DecidableEq, Repr

/-- The loop of `decode_sections`. Its first argument bounds the iterations; each one moves the
offset, so as many iterations as there are bytes, and one to see the end, are enough. -/
def decodeSectionsLoop (payload : List UInt8) (limits : Limits) :
    Nat → Nat → List WireSection → Outcome DecodeError (List WireSection)
  | 0, _, _ => fault .panic
  | fuel + 1, offset, sections => do
      if offset ≥ payload.length then
        return sections
      if sections.length ≥ limits.maxSections then
        fail (.limitsExceeded .sectionCount limits.maxSections (sections.length + 1))
      let tag ← index payload offset
      let offset ← usizeAdd offset 1
      let (len, offset) ← Packet.readVaru32 payload offset
      if len.toNat > limits.maxSectionLen then
        fail (.limitsExceeded .sectionLength limits.maxSectionLen len.toNat)
      let stop ← usizeAdd offset len.toNat
      if stop > payload.length then
        fail (.sectionFraming (.truncated stop payload.length))
      let tag ← SectionTag.parse tag
      let body ← slice payload offset stop
      decodeSectionsLoop payload limits fuel stop (sections ++ [⟨tag, body⟩])

/-- `decode_sections`. -/
def decodeSections (payload : List UInt8) (limits : Limits) :
    Outcome DecodeError (List WireSection) :=
  decodeSectionsLoop payload limits (payload.length + 1) 0 []

/-- `decode_packet`. -/
def decodePacket (buf : List UInt8) (limits : Limits) : Outcome DecodeError WirePacket := do
  if buf.length < HEADER_SIZE then
    fail (.packetTooSmall buf.length HEADER_SIZE)
  if buf.length > limits.maxPacketBytes then
    fail (.limitsExceeded .packetBytes limits.maxPacketBytes buf.length)
  let magic := UInt32.ofNat (leNat (← slice buf 0 4))
  if magic ≠ MAGIC then
    fail (.invalidMagic magic)
  let version := UInt16.ofNat (leNat (← slice buf 4 6))
  if version ≠ VERSION then
    fail (.unsupportedVersion version)
  let flagsRaw := UInt16.ofNat (leNat (← slice buf 6 8))
  let flags : PacketFlags := ⟨flagsRaw⟩
  if !flags.isValidV2 then
    fail (.invalidFlags flagsRaw)
  let schemaHash := UInt64.ofNat (leNat (← slice buf 8 16))
  let tick := UInt32.ofNat (leNat (← slice buf 16 20))
  let baselineTick := UInt32.ofNat (leNat (← slice buf 20 24))
  let payloadLen := UInt32.ofNat (leNat (← slice buf 24 28))
  if !flags.isSessionInit && flags.isFullSnapshot && baselineTick ≠ 0 then
    fail (.invalidBaselineTick baselineTick flagsRaw)
  if !flags.isSessionInit && flags.isDeltaSnapshot && baselineTick = 0 then
    fail (.invalidBaselineTick baselineTick flagsRaw)
  let actualPayloadLen ← usizeSub buf.length HEADER_SIZE
  if payloadLen.toNat ≠ actualPayloadLen then
    fail (.payloadLengthMismatch payloadLen actualPayloadLen)
  let payload ← slice buf HEADER_SIZE buf.length
  let sections ← decodeSections payload limits
  return ⟨⟨version, flags, schemaHash, tick, baselineTick, payloadLen⟩, sections⟩

/-- `encode_header`. -/
def encodeHeader (header : PacketHeader) (out : List UInt8) :
    Outcome EncodeError (Nat × List UInt8) := do
  if out.length < HEADER_SIZE then
    fail (.bufferTooSmall HEADER_SIZE out.length)
  let out ← copyFromSlice out 0 (leBytes 4 MAGIC.toNat)
  let out ← copyFromSlice out 4 (leBytes 2 header.version.toNat)
  let out ← copyFromSlice out 6 (leBytes 2 header.flags.raw.toNat)
  let out ← copyFromSlice out 8 (leBytes 8 header.schemaHash.toNat)
  let out ← copyFromSlice out 16 (leBytes 4 header.tick.toNat)
  let out ← copyFromSlice out 20 (leBytes 4 header.baselineTick.toNat)
  let out ← copyFromSlice out 24 (leBytes 4 header.payloadLen.toNat)
  return (HEADER_SIZE, out)

/-- The bytes of a section. -/
def WireSection.bytes (section_ : WireSection) : List UInt8 :=
  section_.tag.toU8 :: (varu32 (UInt32.ofNat section_.body.length) ++ section_.body)

/-- The limits admit the sections of a payload. -/
def Limits.AdmitSections (limits : Limits) (sections : List WireSection) : Prop :=
  sections.length ≤ limits.maxSections ∧ ∀ s ∈ sections, s.body.length ≤ limits.maxSectionLen

theorem SectionTag.parse_toU8 (tag : SectionTag) : SectionTag.parse tag.toU8 = .ok tag := by
  cases tag <;> rfl

theorem length_sections_le (sections : List WireSection) :
    sections.length ≤ (sections.flatMap WireSection.bytes).length := by
  induction sections with
  | nil => simp
  | cons first rest ih =>
      rw [List.flatMap_cons, List.length_append, WireSection.bytes, List.length_cons,
        List.length_cons]
      omega

/-- The loop of `decode_sections` on the rest of a payload. -/
theorem decode_sections_loop_eq {payload : List UInt8} {limits : Limits}
    (hlen : payload.length ≤ isizeMax) (fuel offset : Nat) (done : List WireSection)
    {rest : List WireSection}
    (hfuel : rest.length < fuel) (hoffset : offset ≤ payload.length)
    (hrest : payload.drop offset = rest.flatMap WireSection.bytes)
    (hcount : done.length + rest.length ≤ limits.maxSections)
    (hbodies : ∀ s ∈ rest, s.body.length < 2 ^ 32 ∧ s.body.length ≤ limits.maxSectionLen) :
    decodeSectionsLoop payload limits fuel offset done = .ok (done ++ rest) := by
  induction rest generalizing fuel offset done with
  | nil =>
      obtain ⟨fuel, rfl⟩ := Nat.exists_eq_add_of_lt hfuel
      have hend : offset ≥ payload.length := by simpa using hrest
      rw [decodeSectionsLoop, if_pos hend, List.append_nil]
      rfl
  | cons first rest ih =>
      obtain ⟨fuel, rfl⟩ := Nat.exists_eq_add_of_lt hfuel
      obtain ⟨hlong, hmax⟩ := hbodies first List.mem_cons_self
      have hlength : (UInt32.ofNat first.body.length).toNat = first.body.length := by
        rw [UInt32.toNat_ofNat', Nat.mod_eq_of_lt hlong]
      rw [List.flatMap_cons, WireSection.bytes, List.cons_append, List.append_assoc] at hrest
      obtain ⟨hlt, htag, hvarint⟩ := drop_eq_cons hrest
      have hread := Packet.read_varu32_varu32 hlen hvarint
      have hbody : payload.drop (offset + 1 + (varu32 (UInt32.ofNat first.body.length)).length)
          = first.body ++ rest.flatMap WireSection.bytes := by
        rw [← List.drop_drop, hvarint, List.drop_left]
      have hvlen := congrArg List.length hvarint
      rw [List.length_drop, List.length_append, List.length_append] at hvlen
      obtain ⟨start, hstart⟩ : ∃ start,
          start = offset + 1 + (varu32 (UInt32.ofNat first.body.length)).length := ⟨_, rfl⟩
      rw [← hstart] at hread hbody
      have hstop : start + first.body.length ≤ payload.length := by omega
      have hadd : offset + 1 ≤ usizeMax ∧ start + first.body.length ≤ usizeMax := by
        simp only [isizeMax, usizeMax] at *
        omega
      have hslice := slice_of_drop_eq_append (m := Outcome DecodeError) hbody (by omega)
      have hnext := ih ((first :: rest).length + fuel) (start + first.body.length)
        (done ++ [first]) (by rw [List.length_cons]; omega) hstop
        (by rw [← List.drop_drop, hbody, List.drop_left]) (by simp at hcount ⊢; omega) fun s hs =>
          hbodies s (List.mem_cons_of_mem _ hs)
      rw [List.append_assoc, List.singleton_append] at hnext
      rw [List.length_cons] at hcount
      have hparse := SectionTag.parse_toU8 first.tag
      rw [decodeSectionsLoop, if_neg (Nat.not_le.mpr hlt)]
      simp only [if_neg (by omega : ¬ done.length ≥ limits.maxSections), index_of_some htag,
        usize_add_of_le hadd.1, usize_add_of_le hadd.2, hread, hlength, pure_bind, hparse, hslice,
        if_neg (Nat.not_lt.mpr hmax), if_neg (Nat.not_lt.mpr hstop), ok_bind]
      exact hnext

/-- A payload made of sections that the limits admit is cut into these sections. -/
theorem decode_sections_eq {limits : Limits} {sections : List WireSection}
    (hlen : (sections.flatMap WireSection.bytes).length ≤ isizeMax)
    (hbodies : ∀ s ∈ sections, s.body.length < 2 ^ 32) (hadmits : limits.AdmitSections sections) :
    decodeSections (sections.flatMap WireSection.bytes) limits = .ok sections := by
  have hcount := length_sections_le sections
  exact decode_sections_loop_eq hlen _ 0 [] (by omega) (Nat.zero_le _) rfl
    (by simpa using hadmits.1) fun s hs => ⟨hbodies s hs, hadmits.2 s hs⟩

/-! ## Packets -/

/-- The bytes of a packet header. -/
def PacketHeader.bytes (header : PacketHeader) : List UInt8 :=
  leBytes 4 MAGIC.toNat ++ leBytes 2 header.version.toNat ++ leBytes 2 header.flags.raw.toNat
    ++ leBytes 8 header.schemaHash.toNat ++ leBytes 4 header.tick.toNat
    ++ leBytes 4 header.baselineTick.toNat ++ leBytes 4 header.payloadLen.toNat

@[simp] theorem PacketHeader.length_bytes (header : PacketHeader) :
    header.bytes.length = HEADER_SIZE := by
  simp only [bytes, List.length_append, length_leBytes]
  rfl

theorem encode_header_eq (header : PacketHeader) {out : List UInt8}
    (h : HEADER_SIZE ≤ out.length) :
    encodeHeader header out = .ok (HEADER_SIZE, header.bytes ++ out.drop HEADER_SIZE) := by
  have hnil : out = [] ++ out := rfl
  rw [encodeHeader, if_neg (Nat.not_lt.mpr h), hnil]
  have hsize : HEADER_SIZE = 28 := rfl
  rw [hsize] at h
  -- Each field goes to where the previous one ends.
  beta_reduce
  rw [copy_from_slice_append (by simp) (by simp; omega), pure_bind,
    copy_from_slice_append (by simp) (by simp; omega), pure_bind,
    copy_from_slice_append (by simp) (by simp; omega), pure_bind,
    copy_from_slice_append (by simp) (by simp; omega), pure_bind,
    copy_from_slice_append (by simp) (by simp; omega), pure_bind,
    copy_from_slice_append (by simp) (by simp; omega), pure_bind,
    copy_from_slice_append (by simp) (by simp; omega), pure_bind]
  simp only [List.drop_drop, length_leBytes, List.nil_append]
  rfl

/-- The checks of `decode_packet` on the fields of a header. -/
structure PacketHeader.Valid (header : PacketHeader) : Prop where
  version : header.version = VERSION
  flags : header.flags.isValidV2
  full : ¬ header.flags.isSessionInit → header.flags.isFullSnapshot → header.baselineTick = 0
  delta : ¬ header.flags.isSessionInit → header.flags.isDeltaSnapshot → header.baselineTick ≠ 0

/-- What the decoder makes of a valid header in front of a payload. -/
theorem decode_packet_header_eq {header : PacketHeader} {payload : List UInt8} {limits : Limits}
    (hheader : header.Valid) :
    decodePacket (header.bytes ++ payload) limits = do
      if HEADER_SIZE + payload.length > limits.maxPacketBytes then
        fail (.limitsExceeded .packetBytes limits.maxPacketBytes (HEADER_SIZE + payload.length))
      if header.payloadLen.toNat ≠ payload.length then
        fail (.payloadLengthMismatch header.payloadLen payload.length)
      let sections ← decodeSections payload limits
      return ⟨header, sections⟩ := by
  have hlength : (header.bytes ++ payload).length = HEADER_SIZE + payload.length := by simp
  have hfield (start stop : Nat) (hle : start ≤ stop) (hstop : stop ≤ HEADER_SIZE) :
      slice (m := Outcome DecodeError) (header.bytes ++ payload) start stop
        = pure (((header.bytes ++ payload).take stop).drop start) :=
    slice_of_le hle (by omega)
  have hmagic : ((header.bytes ++ payload).take 4).drop 0 = leBytes 4 MAGIC.toNat := rfl
  have hversion : ((header.bytes ++ payload).take 6).drop 4 = leBytes 2 header.version.toNat := rfl
  have hflags : ((header.bytes ++ payload).take 8).drop 6 = leBytes 2 header.flags.raw.toNat := rfl
  have hhash : ((header.bytes ++ payload).take 16).drop 8 = leBytes 8 header.schemaHash.toNat := rfl
  have htick : ((header.bytes ++ payload).take 20).drop 16 = leBytes 4 header.tick.toNat := rfl
  have hbaseline : ((header.bytes ++ payload).take 24).drop 20
      = leBytes 4 header.baselineTick.toNat := rfl
  have hplen : ((header.bytes ++ payload).take 28).drop 24
      = leBytes 4 header.payloadLen.toNat := rfl
  have hrest : slice (m := Outcome DecodeError) (header.bytes ++ payload) HEADER_SIZE
      (header.bytes ++ payload).length = pure payload := by
    rw [slice_of_le (by omega) (Nat.le_refl _), List.take_length, ← header.length_bytes,
      List.drop_left]
  have hfull : (!header.flags.isSessionInit && header.flags.isFullSnapshot
      && decide (header.baselineTick ≠ 0)) = false := by
    have := hheader.full
    cases h : header.flags.isSessionInit <;> cases h' : header.flags.isFullSnapshot <;> simp_all
  have hdelta : (!header.flags.isSessionInit && header.flags.isDeltaSnapshot
      && decide (header.baselineTick = 0)) = false := by
    have := hheader.delta
    cases h : header.flags.isSessionInit <;> cases h' : header.flags.isDeltaSnapshot <;> simp_all
  have hsub : usizeSub (m := Outcome DecodeError) (HEADER_SIZE + payload.length) HEADER_SIZE
      = pure payload.length := by
    rw [usizeSub, if_pos (Nat.le_add_right _ _), Nat.add_sub_cancel_left]
  rw [hlength] at hrest
  rw [decodePacket]
  simp only [hfield 0 4 (by decide) (by decide), hfield 4 6 (by decide) (by decide),
    hfield 6 8 (by decide) (by decide), hfield 8 16 (by decide) (by decide),
    hfield 16 20 (by decide) (by decide), hfield 20 24 (by decide) (by decide),
    hfield 24 28 (by decide) (by decide), hmagic, hversion, hflags, hhash, htick, hbaseline, hplen,
    pure_bind, ofNat_leNat_leBytes_two, ofNat_leNat_leBytes_four, ofNat_leNat_leBytes_eight,
    hlength, if_neg (Nat.not_lt.mpr (Nat.le_add_right HEADER_SIZE payload.length)), ne_eq, not_true,
    if_false, hheader.version, hheader.flags, Bool.not_true, Bool.false_eq_true,
    hfull, hdelta, hsub, hrest]
  rw [← hheader.version]

/-- A valid header in front of a payload of the length it says is decoded, and the payload is cut
into sections. -/
theorem decode_packet_eq {header : PacketHeader} {payload : List UInt8} {limits : Limits}
    (hheader : header.Valid) (hpayload : header.payloadLen.toNat = payload.length)
    (hlen : HEADER_SIZE + payload.length ≤ limits.maxPacketBytes) :
    decodePacket (header.bytes ++ payload) limits
      = (decodeSections payload limits).map fun sections => ⟨header, sections⟩ := by
  rw [decode_packet_header_eq hheader]
  simp only [if_neg (Nat.not_lt.mpr hlen), hpayload, ne_eq, not_true, if_false]
  cases decodeSections payload limits <;> rfl

/-- A packet with a valid header is accepted when it is not too long, its payload has the length
that the header says, and the payload is cut into sections. -/
theorem decode_packet_eq_ok {header : PacketHeader} {payload : List UInt8} {limits : Limits}
    {packet : WirePacket} (hheader : header.Valid) :
    decodePacket (header.bytes ++ payload) limits = .ok packet ↔
      HEADER_SIZE + payload.length ≤ limits.maxPacketBytes
        ∧ header.payloadLen.toNat = payload.length
        ∧ decodeSections payload limits = .ok packet.sections ∧ packet.header = header := by
  rw [decode_packet_header_eq hheader]
  simp only [check_fail_eq_ok, bind_eq_ok, pure_eq_ok, ne_eq, not_not, Nat.not_lt]
  refine and_congr_right fun _ => and_congr_right fun _ => ?_
  constructor
  · intro h
    obtain ⟨sections, hsections, hpacket⟩ := h
    rw [← hpacket]
    exact ⟨hsections, rfl⟩
  · intro h
    obtain ⟨hsections, hpacket⟩ := h
    refine ⟨packet.sections, hsections, ?_⟩
    rw [← hpacket]

end Sdec.Wire
