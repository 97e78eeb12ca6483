import Sdec.Wire.Framing

/-!
# The packets that are accepted

Which bytes `decode_packet` accepts, and what it makes of them. Read `decode_packet_eq_ok_iff`
first. A payload is accepted exactly when it is a concatenation of frames, whose lengths may be
varints of any number of bytes, and within the limits.
-/

namespace Sdec.Wire

open Rust Bits

variable {payload buf : List UInt8} {limits : Limits}

/-! ## Payloads -/

/-- The bytes of a frame at an offset of a payload are read as a section. -/
theorem read_framed {section_ : WireSection} {frame rest : List UInt8} {offset : Nat}
    (hlen : payload.length ≤ isizeMax) (hframed : section_.Framed frame)
    (hat : payload.drop offset = frame ++ rest) :
    payload[offset]? = some section_.tag.toU8 ∧ ∃ start,
      Packet.readVaru32 payload (offset + 1) = .ok (UInt32.ofNat section_.body.length, start)
        ∧ start + section_.body.length = offset + frame.length
        ∧ payload.drop start = section_.body ++ rest := by
  obtain ⟨varint, number, rfl, hscan, hnumber⟩ := hframed
  rw [List.cons_append, List.append_assoc] at hat
  obtain ⟨hlt, htag, hvarint⟩ := drop_eq_cons hat
  have hcount : UInt32.ofNat number = UInt32.ofNat section_.body.length := by
    rw [← UInt32.toNat_inj, UInt32.toNat_ofNat', UInt32.toNat_ofNat', hnumber, ← hnumber,
      Nat.mod_mod]
  have hread := Packet.read_varu32_eq hlen (by omega : offset + 1 ≤ payload.length)
  rw [hvarint, scan_append hscan] at hread
  refine ⟨htag, offset + 1 + varint.length, ?_, ?_, ?_⟩
  · rw [hread, hcount]
  · rw [List.length_cons, List.length_append]
    omega
  · rw [← List.drop_drop, hvarint, List.drop_left]

/-- The loop of `decode_sections` reads every partition of the rest of a payload that the limits
admit. -/
theorem decode_sections_loop_of_partition (hlen : payload.length ≤ isizeMax) (fuel offset : Nat)
    (done : List WireSection) {rest : List WireSection} (hfuel : rest.length < fuel)
    (hoffset : offset ≤ payload.length) (hrest : Partitioned (payload.drop offset) rest)
    (hcount : done.length + rest.length ≤ limits.maxSections)
    (hbodies : ∀ s ∈ rest, s.body.length ≤ limits.maxSectionLen) :
    decodeSectionsLoop payload limits fuel offset done = .ok (done ++ rest) := by
  induction rest generalizing fuel offset done with
  | nil =>
      obtain ⟨fuel, rfl⟩ := Nat.exists_eq_add_of_lt hfuel
      obtain ⟨frames, hframes, hall⟩ := hrest
      cases hall
      have hend : offset ≥ payload.length := by simpa using hframes
      rw [decodeSectionsLoop, if_pos hend, List.append_nil]
      rfl
  | cons first rest ih =>
      obtain ⟨fuel, rfl⟩ := Nat.exists_eq_add_of_lt hfuel
      obtain ⟨frames, hframes, hall⟩ := hrest
      cases hall with
      | @cons _ frame _ others hframed hothers =>
          rw [List.flatten_cons] at hframes
          obtain ⟨htag, start, hread, hstop, hbody⟩ := read_framed hlen hframed hframes
          have hlt := (List.getElem?_eq_some_iff.mp htag).1
          have hlength : (UInt32.ofNat first.body.length).toNat = first.body.length := by
            rw [UInt32.toNat_ofNat', Nat.mod_eq_of_lt hframed.body_lt]
          have hall := congrArg List.length hframes
          rw [List.length_drop, List.length_append] at hall
          have hmax := hbodies first List.mem_cons_self
          have hadd : offset + 1 ≤ usizeMax ∧ start + first.body.length ≤ usizeMax := by
            simp only [isizeMax, usizeMax] at *
            omega
          have hslice := slice_of_drop_eq_append (m := Outcome DecodeError) hbody (by omega)
          have hnext := ih ((first :: rest).length + fuel) (start + first.body.length)
            (done ++ [first]) (by rw [List.length_cons]; omega) (by omega)
            ⟨others, by rw [← List.drop_drop, hbody, List.drop_left], hothers⟩
            (by simp at hcount ⊢; omega) fun s hs => hbodies s (List.mem_cons_of_mem _ hs)
          rw [List.append_assoc, List.singleton_append] at hnext
          rw [List.length_cons] at hcount
          have hparse := SectionTag.parse_toU8 first.tag
          rw [decodeSectionsLoop, if_neg (Nat.not_le.mpr hlt)]
          simp only [if_neg (by omega : ¬ done.length ≥ limits.maxSections), index_of_some htag,
            usize_add_of_le hadd.1, usize_add_of_le hadd.2, hread, hlength, pure_bind, hparse,
            hslice, if_neg (Nat.not_lt.mpr hmax),
            if_neg (by omega : ¬ start + first.body.length > payload.length), ok_bind]
          exact hnext

theorem WireSection.Framed.length_pos {section_ : WireSection} {frame : List UInt8}
    (h : section_.Framed frame) : 0 < frame.length := by
  obtain ⟨varint, number, rfl, -⟩ := h
  exact Nat.succ_pos _

/-- A frame takes at most six bytes more than its body. -/
theorem WireSection.Framed.length_le_body {section_ : WireSection} {frame : List UInt8}
    (h : section_.Framed frame) : frame.length ≤ 6 + section_.body.length := by
  obtain ⟨varint, number, rfl, hscan, -⟩ := h
  have hvarint := scan_length_le hscan
  rw [List.length_cons, List.length_append]
  omega

theorem partitioned_singleton {section_ : WireSection} :
    Partitioned payload [section_] ↔ section_.Framed payload := by
  constructor
  · rintro ⟨frames, rfl, hall⟩
    cases hall with
    | cons hframed hnil =>
        cases hnil
        simpa using hframed
  · exact fun h => ⟨[payload], by simp, .cons h .nil⟩

theorem Partitioned.length_le {sections : List WireSection} (h : Partitioned payload sections) :
    sections.length ≤ payload.length := by
  obtain ⟨frames, rfl, hall⟩ := h
  induction hall with
  | nil => exact Nat.le_refl _
  | cons hframed _ ih =>
      have := hframed.length_pos
      rw [List.length_cons, List.flatten_cons, List.length_append]
      omega

/-- The payloads that are cut into some sections are the concatenations of frames of these sections,
within the limits. -/
theorem decode_sections_eq_ok (hlen : payload.length ≤ isizeMax) {sections : List WireSection} :
    decodeSections payload limits = .ok sections ↔
      Partitioned payload sections ∧ limits.AdmitSections sections := by
  constructor
  · intro h
    obtain ⟨hadmits, hpartition⟩ := (@decode_sections_ensures payload False limits hlen).of_ok h
    exact ⟨hpartition, hadmits⟩
  · rintro ⟨hpartition, hcount, hbodies⟩
    have hle := hpartition.length_le
    exact decode_sections_loop_of_partition hlen _ 0 [] (by omega) (Nat.zero_le _) hpartition
      (by simpa using hcount) hbodies

/-! ## Packets -/

/-- The flags of a packet say that it is a full snapshot, a delta, or the start of a session. -/
theorem PacketFlags.is_valid_v2_iff (flags : PacketFlags) :
    flags.isValidV2 ↔ flags = .fullSnapshot ∨ flags = .deltaSnapshot ∨ flags = .sessionInit := by
  constructor
  · intro h
    have hreserved : flags.raw &&& RESERVED_MASK = 0 := by
      by_contra hne
      simp [isValidV2, hne] at h
    -- a flag from bit 3 on is reserved
    have hsmall : flags.raw.toNat < 8 := by
      by_contra hge
      obtain ⟨i, hi, hbit⟩ := Nat.exists_ge_and_testBit_of_ge_two_pow (n := 3)
        (Nat.le_of_not_lt hge)
      have hlt : i < 16 := by
        by_contra hlarge
        have hpow := Nat.pow_le_pow_right (by decide : 0 < 2) (Nat.le_of_not_lt hlarge)
        rw [Nat.testBit_lt_two_pow (Nat.lt_of_lt_of_le flags.raw.toNat_lt hpow)] at hbit
        cases hbit
      have hzero := congrArg (fun raw => raw.toNat.testBit i) hreserved
      have hmask : ∀ i < 16, 3 ≤ i → RESERVED_MASK.toNat.testBit i = true := by decide
      rw [UInt16.toNat_and, Nat.testBit_and, hbit, hmask i hlt hi, UInt16.toNat_zero,
        Nat.zero_testBit] at hzero
      cases hzero
    obtain ⟨raw⟩ := flags
    obtain ⟨n, rfl⟩ : ∃ n : Fin 8, raw = UInt16.ofNat n.val := ⟨⟨raw.toNat, hsmall⟩, by simp⟩
    revert n
    decide
  · intro h
    rcases h with rfl | rfl | rfl <;> decide

/-- The header that stands in the first bytes of a packet. -/
def PacketHeader.read (buf : List UInt8) : PacketHeader where
  version := UInt16.ofNat (leNat ((buf.take 6).drop 4))
  flags := ⟨UInt16.ofNat (leNat ((buf.take 8).drop 6))⟩
  schemaHash := UInt64.ofNat (leNat ((buf.take 16).drop 8))
  tick := UInt32.ofNat (leNat ((buf.take 20).drop 16))
  baselineTick := UInt32.ofNat (leNat ((buf.take 24).drop 20))
  payloadLen := UInt32.ofNat (leNat ((buf.take 28).drop 24))

/-- Little-endian bytes are those of the number that they denote. -/
theorem le_bytes_field {bytes : List UInt8} {width : Nat} (h : bytes.length = width) {n : Nat}
    (hn : n = leNat bytes % 256 ^ width) : leBytes width n = bytes := by
  subst h
  rw [hn, Nat.mod_eq_of_lt (leNat_lt bytes), leBytes_leNat]

/-- The bytes of the header that stands in front of a packet with the magic number. -/
theorem bytes_read_header (hlen : HEADER_SIZE ≤ buf.length)
    (hmagic : UInt32.ofNat (leNat (buf.take 4)) = MAGIC) :
    (PacketHeader.read buf).bytes = buf.take HEADER_SIZE := by
  have hsize : HEADER_SIZE = 28 := rfl
  rw [hsize] at hlen
  have hfield (start stop : Nat) (hle : start ≤ stop) (hstop : stop ≤ 28) :
      ((buf.take stop).drop start).length = stop - start := by
    rw [List.length_drop, List.length_take]
    omega
  have hjoin (start stop : Nat) (hle : start ≤ stop) :
      buf.take start ++ (buf.take stop).drop start = buf.take stop := by
    have := List.take_append_drop start (buf.take stop)
    rwa [List.take_take, Nat.min_eq_left hle] at this
  have hfirst : leBytes 4 MAGIC.toNat = buf.take 4 := by
    refine le_bytes_field (by rw [List.length_take]; omega) ?_
    rw [← hmagic, UInt32.toNat_ofNat']
    rfl
  have hversion := le_bytes_field (hfield 4 6 (by decide) (by decide))
    (UInt16.toNat_ofNat' (n := leNat ((buf.take 6).drop 4)))
  have hflags := le_bytes_field (hfield 6 8 (by decide) (by decide))
    (UInt16.toNat_ofNat' (n := leNat ((buf.take 8).drop 6)))
  have hhash := le_bytes_field (hfield 8 16 (by decide) (by decide))
    (UInt64.toNat_ofNat' (n := leNat ((buf.take 16).drop 8)))
  have htick := le_bytes_field (hfield 16 20 (by decide) (by decide))
    (UInt32.toNat_ofNat' (n := leNat ((buf.take 20).drop 16)))
  have hbaseline := le_bytes_field (hfield 20 24 (by decide) (by decide))
    (UInt32.toNat_ofNat' (n := leNat ((buf.take 24).drop 20)))
  have hpayload := le_bytes_field (hfield 24 28 (by decide) (by decide))
    (UInt32.toNat_ofNat' (n := leNat ((buf.take 28).drop 24)))
  rw [PacketHeader.bytes, PacketHeader.read, hfirst, hversion, hflags, hhash, htick, hbaseline,
    hpayload, hjoin 4 6 (by decide), hjoin 6 8 (by decide), hjoin 8 16 (by decide),
    hjoin 16 20 (by decide), hjoin 20 24 (by decide), hjoin 24 28 (by decide), hsize]

/-- The header of a packet that is accepted. -/
theorem decode_packet_header {packet : WirePacket} (h : decodePacket buf limits = .ok packet) :
    HEADER_SIZE ≤ buf.length ∧ UInt32.ofNat (leNat (buf.take 4)) = MAGIC
      ∧ packet.header = PacketHeader.read buf ∧ packet.header.Valid := by
  have hsize : HEADER_SIZE = 28 := rfl
  rw [decodePacket, check_fail_eq_ok, check_fail_eq_ok] at h
  obtain ⟨hshort, -, h⟩ := h
  have hfield (start stop : Nat) (hle : start ≤ stop) (hstop : stop ≤ 28) :
      slice (m := Outcome DecodeError) buf start stop = pure ((buf.take stop).drop start) :=
    slice_of_le hle (by omega)
  rw [hfield 0 4 (by decide) (by decide), pure_bind, check_fail_eq_ok,
    hfield 4 6 (by decide) (by decide), pure_bind, check_fail_eq_ok,
    hfield 6 8 (by decide) (by decide), pure_bind, check_fail_eq_ok,
    hfield 8 16 (by decide) (by decide), pure_bind, hfield 16 20 (by decide) (by decide), pure_bind,
    hfield 20 24 (by decide) (by decide), pure_bind, hfield 24 28 (by decide) (by decide),
    pure_bind, check_fail_eq_ok, check_fail_eq_ok, bind_eq_ok] at h
  obtain ⟨hmagic, hversion, hflags, hfull, hdelta, _, -, h⟩ := h
  rw [check_fail_eq_ok, bind_eq_ok] at h
  obtain ⟨-, _, -, h⟩ := h
  obtain ⟨_, -, h⟩ := bind_eq_ok.mp h
  rw [pure_eq_ok] at h
  subst h
  refine ⟨by omega, not_not.mp hmagic, rfl, not_not.mp hversion, by simpa using hflags, ?_, ?_⟩
  · intro hinit hsnapshot
    simp_all
  · intro hinit hsnapshot
    simp_all

/-- The bytes of a packet with a valid header, whose payload has the length that the header says and
is the concatenation of frames of the sections, within the limits. -/
structure WirePacket.WrittenAs (packet : WirePacket) (limits : Limits) (buf : List UInt8) :
    Prop where
  header : packet.header.Valid
  size : buf.length ≤ limits.maxPacketBytes
  admits : limits.AdmitSections packet.sections
  bytes_eq : ∃ payload, buf = packet.header.bytes ++ payload
    ∧ packet.header.payloadLen.toNat = payload.length ∧ Partitioned payload packet.sections

/-- What the decoder of packets accepts is written as the format says. -/
theorem decode_packet_written (hlen : buf.length ≤ isizeMax) {packet : WirePacket}
    (h : decodePacket buf limits = .ok packet) : packet.WrittenAs limits buf := by
  obtain ⟨hshort, hmagic, hheader, hvalid⟩ := decode_packet_header h
  have hcut := (@decode_packet_ensures buf False limits hlen).of_ok h
  refine ⟨hvalid, hcut.size, hcut.admits, buf.drop HEADER_SIZE, ?_, ?_, hcut.partition⟩
  · rw [hheader, bytes_read_header hshort hmagic, List.take_append_drop]
  · rw [hcut.payload, List.length_drop]

/-- The decoder of packets accepts what is written as the format says. -/
theorem decode_packet_of_written (hlen : buf.length ≤ isizeMax) {packet : WirePacket}
    (h : packet.WrittenAs limits buf) : decodePacket buf limits = .ok packet := by
  obtain ⟨payload, rfl, hpayload, hpartition⟩ := h.bytes_eq
  have hsize := h.size
  rw [List.length_append, PacketHeader.length_bytes] at hsize hlen
  exact (decode_packet_eq_ok h.header).mpr ⟨hsize, hpayload,
    (decode_sections_eq_ok (by omega)).mpr ⟨hpartition, h.admits⟩, rfl⟩

/-- The decoder of packets accepts exactly the bytes that the format describes: the bytes of a valid
header, then a payload of the length that it says, which is a concatenation of frames, no longer and
with no more and no longer sections than the limits allow. What it returns is that header with these
sections. -/
theorem decode_packet_eq_ok_iff (hlen : buf.length ≤ isizeMax) {packet : WirePacket} :
    decodePacket buf limits = .ok packet ↔ packet.WrittenAs limits buf :=
  ⟨decode_packet_written hlen, decode_packet_of_written hlen⟩

/-- A packet of one section whose length takes two bytes where one would do. -/
theorem decode_packet_eq_ok_iff_overlong :
    decodePacket [67, 69, 68, 83, 2, 0, 2, 0, 9, 0, 0, 0, 0, 0, 0, 0, 7, 0, 0, 0, 6, 0, 0, 0, 4, 0,
        0, 0, 2, 0x81, 0x00, 0] ⟨32, 1, 1⟩
      = .ok ⟨⟨VERSION, .deltaSnapshot, 9, 7, 6, 4⟩, [⟨.entityDestroy, [0]⟩]⟩ := by
  refine (decode_packet_eq_ok_iff (by decide)).mpr
    ⟨⟨rfl, by decide, by decide, by decide⟩, by decide, ⟨by decide, by decide⟩, [2, 0x81, 0x00, 0],
      by decide, rfl, [[2, 0x81, 0x00, 0]], rfl, .cons ⟨[0x81, 0x00], 1, rfl, by decide, rfl⟩ .nil⟩

/-! ## Packets that are written -/

theorem le_bytes_inj {width a b : Nat} (ha : a < 256 ^ width) (hb : b < 256 ^ width)
    (h : leBytes width a = leBytes width b) : a = b := by
  rw [← leNat_leBytes ha, h, leNat_leBytes hb]

/-- The bytes of a header determine it. -/
theorem packet_header_bytes_inj {a b : PacketHeader} (h : a.bytes = b.bytes) : a = b := by
  unfold PacketHeader.bytes at h
  obtain ⟨h, hpayload⟩ := List.append_inj' h (by simp)
  obtain ⟨h, hbaseline⟩ := List.append_inj' h (by simp)
  obtain ⟨h, htick⟩ := List.append_inj' h (by simp)
  obtain ⟨h, hhash⟩ := List.append_inj' h (by simp)
  obtain ⟨h, hflags⟩ := List.append_inj' h (by simp)
  obtain ⟨-, hversion⟩ := List.append_inj' h (by simp)
  obtain ⟨version, flags, schemaHash, tick, baselineTick, payloadLen⟩ := a
  obtain ⟨version', flags', schemaHash', tick', baselineTick', payloadLen'⟩ := b
  obtain ⟨raw⟩ := flags
  obtain ⟨raw'⟩ := flags'
  cases UInt16.toNat_inj.mp (le_bytes_inj version.toNat_lt version'.toNat_lt hversion)
  cases UInt16.toNat_inj.mp (le_bytes_inj raw.toNat_lt raw'.toNat_lt hflags)
  cases UInt64.toNat_inj.mp (le_bytes_inj schemaHash.toNat_lt schemaHash'.toNat_lt hhash)
  cases UInt32.toNat_inj.mp (le_bytes_inj tick.toNat_lt tick'.toNat_lt htick)
  cases UInt32.toNat_inj.mp (le_bytes_inj baselineTick.toNat_lt baselineTick'.toNat_lt hbaseline)
  cases UInt32.toNat_inj.mp (le_bytes_inj payloadLen.toNat_lt payloadLen'.toNat_lt hpayload)
  rfl

/-- A packet that is decoded from the bytes of a header and of sections has that header, which is
then valid, and these sections. -/
theorem decode_packet_unique {header : PacketHeader} {sections : List WireSection}
    (hlen : (header.bytes ++ sections.flatMap WireSection.bytes).length ≤ isizeMax)
    (hbodies : ∀ s ∈ sections, s.body.length < 2 ^ 32) {packet : WirePacket}
    (h : decodePacket (header.bytes ++ sections.flatMap WireSection.bytes) limits
      = .ok packet) : packet = ⟨header, sections⟩ ∧ header.Valid := by
  have hwritten := decode_packet_written hlen h
  obtain ⟨payload, hbytes, -, -⟩ := hwritten.bytes_eq
  obtain ⟨hheader, -⟩ := List.append_inj hbytes (by simp)
  have hvalid := hwritten.header
  rw [← packet_header_bytes_inj hheader] at hvalid
  obtain ⟨-, -, hsections, hsame⟩ := (decode_packet_eq_ok hvalid).mp h
  rw [List.length_append] at hlen
  have hunique := decode_sections_unique (by omega) hbodies hsections
  obtain ⟨header', sections'⟩ := packet
  cases hsame
  cases hunique
  exact ⟨rfl, hvalid⟩

end Sdec.Wire
