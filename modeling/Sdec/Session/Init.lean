import Sdec.Bitstream.Yields
import Sdec.Codec.Session
import Sdec.Format.Packet
import Sdec.Format.WellFormed
import Sdec.Wire.Accepted

/-!
# Packets that start a session

Which packets start a session, and which session they start. Read `session_init_accepted_iff` first.
The encoder writes such a packet, and a receiver with the same schema starts the session that the
sender has announced, where an id of zero stands for none.
-/

namespace Sdec

open Rust Bits Bitstream Codec Wire

variable {build : Build} {schema : Schema} {limits : CodecLimits}

/-! ## The section -/

/-- The body of the section that starts a session. -/
def sessionInitBody (sessionId : UInt64) (mode : CompactHeaderMode) : List UInt8 :=
  leBytes 8 sessionId.toNat ++ [mode.toU8]

theorem length_session_init_body (sessionId : UInt64) (mode : CompactHeaderMode) :
    (sessionInitBody sessionId mode).length = 9 := by
  rw [sessionInitBody, List.length_append, length_leBytes]
  rfl

theorem session_init_body_inj {sessionId other : UInt64} {mode mode' : CompactHeaderMode}
    (h : sessionInitBody sessionId mode = sessionInitBody other mode') :
    sessionId = other ∧ mode = mode' := by
  have hid := (List.append_inj h (by simp)).1
  rw [← ofNat_leNat_leBytes_eight sessionId, hid, ofNat_leNat_leBytes_eight]
  cases mode
  cases mode'
  exact ⟨rfl, rfl⟩

/-- The session id that a receiver reads. -/
def receivedId (sessionId : UInt64) : Option UInt64 :=
  if sessionId = 0 then none else some sessionId

theorem from_raw_eq_some {raw : UInt8} {mode : CompactHeaderMode} :
    CompactHeaderMode.fromRaw raw = some mode ↔ raw = mode.toU8 := by
  cases mode
  rw [CompactHeaderMode.fromRaw]
  split
  · next hone => exact iff_of_true rfl (UInt8.toNat_inj.mp hone)
  · next hne => exact iff_of_false (fun h => nomatch h) fun h => hne (by rw [h]; rfl)

/-- Reading the session id at the start of a body. -/
theorem read_session_id_eq (sessionId : UInt64) {rest : List UInt8}
    (hlen : 8 * (leBytes 8 sessionId.toNat ++ rest).length ≤ usizeMax) :
    BitReader.readU64Aligned ⟨leBytes 8 sessionId.toNat ++ rest, 0⟩
      = .ok sessionId ⟨leBytes 8 sessionId.toNat ++ rest, 64⟩ := by
  have hparse := parses_read_u64_aligned rfl sessionId (leBytes 8 sessionId.toNat ++ rest)
    (ofBytes rest) hlen (by rw [List.drop_zero, ofBytes_append, render_bytes])
  rwa [stop_bytes, length_leBytes] at hparse

/-- The bodies that are read are those of a session id and a mode, and nothing else. -/
theorem decode_session_init_body_eq_ok {body : List UInt8} (hlen : 8 * body.length ≤ usizeMax)
    {result : Option UInt64 × CompactHeaderMode} :
    decodeSessionInitBody body limits = .ok result ↔
      body.length ≤ limits.maxSectionBytes ∧ ∃ sessionId,
        body = sessionInitBody sessionId result.2 ∧ receivedId sessionId = result.1 := by
  have halign (body : List UInt8) (n : Nat) :
      BitReader.alignToByte ⟨body, 8 * n⟩ = .ok () ⟨body, 8 * n⟩ := by
    simp [BitReader.alignToByte]
  rw [decodeSessionInitBody, check_fail_eq_ok, Nat.not_lt]
  refine and_congr_right fun _ => ?_
  by_cases hshort : body.length < 8
  · -- a body without a whole session id
    have hread : ∃ e reader, BitReader.readU64Aligned ⟨body, 0⟩ = .error e reader := by
      have hbits : 64 > (BitReader.mk body 0).bitsRemaining := by
        rw [bits_remaining_eq 0 hlen]
        omega
      simp [BitReader.readU64Aligned, BitReader.readAlignedBytes, BitReader.ensureAligned,
        BitReader.ensureBits, hbits]
    obtain ⟨e, reader, hread⟩ := hread
    refine iff_of_false ?_ ?_
    · simp [readSessionInitBody, stream, Call.mapErr, Call.evalOn, BitReader.new, halign body 0,
        hread]
    · rintro ⟨sessionId, rfl, -⟩
      rw [length_session_init_body] at hshort
      omega
  · obtain ⟨sessionId, rest, rfl⟩ : ∃ sessionId : UInt64, ∃ rest,
        body = leBytes 8 sessionId.toNat ++ rest := by
      refine ⟨UInt64.ofNat (leNat (body.take 8)), body.drop 8, ?_⟩
      have hlength : (body.take 8).length = 8 := by
        rw [List.length_take]
        omega
      have hfield := le_bytes_field hlength (UInt64.toNat_ofNat' (n := leNat (body.take 8)))
      rw [hfield, List.take_append_drop]
    have hid := read_session_id_eq sessionId hlen
    have hmode := @read_u8_aligned_eq 64 _ hlen rfl
    have hbits := bits_remaining_eq 72 hlen
    rw [List.getElem?_append_right (by simp), length_leBytes] at hmode
    rw [List.length_append, length_leBytes] at hbits
    simp only [readSessionInitBody, stream, Call.mapErr, Call.evalOn, BitReader.new, bind_apply,
      halign _ 0, hid, hmode]
    cases rest with
    | nil =>
        refine iff_of_false (fun h => by cases h) ?_
        rintro ⟨other, hbody, -⟩
        have hlength := congrArg List.length hbody
        rw [length_session_init_body, List.append_nil, length_leBytes] at hlength
        omega
    | cons mode rest =>
        rw [List.length_cons] at hbits
        have hremaining :
            (BitReader.mk (leBytes 8 sessionId.toNat ++ mode :: rest) 72).bitsRemaining
              = 8 * rest.length := by
          rw [hbits]
          omega
        simp only [Nat.reduceDiv, Nat.sub_self, List.getElem?_cons_zero, Nat.reduceAdd,
          halign _ 9, get_apply, hremaining]
        cases rest with
        | cons byte rest =>
            rw [if_pos (by rw [List.length_cons]; omega), bind_apply, fail_apply]
            refine iff_of_false (fun h => by cases h) ?_
            rintro ⟨other, hbody, -⟩
            have hlength := congrArg List.length hbody
            rw [length_session_init_body, List.length_append, length_leBytes] at hlength
            simp only [List.length_cons] at hlength
            omega
        | nil =>
            rw [if_neg (by simp)]
            -- what is left is whether the mode is known
            have hbody (other : UInt64) (known : CompactHeaderMode) :
                leBytes 8 sessionId.toNat ++ [mode] = sessionInitBody other known
                  ↔ sessionId = other ∧ mode = known.toU8 := by
              refine ⟨fun h => ?_, fun h => by rw [h.1, h.2]; rfl⟩
              obtain ⟨hid, hmode⟩ := List.append_inj h (by simp)
              rw [← ofNat_leNat_leBytes_eight sessionId, hid, ofNat_leNat_leBytes_eight]
              exact ⟨rfl, List.singleton_injective hmode⟩
            simp only [hbody]
            cases hraw : CompactHeaderMode.fromRaw mode with
            | none =>
                refine iff_of_false (fun h => by cases h) ?_
                rintro ⟨other, ⟨-, hknown⟩, -⟩
                rw [from_raw_eq_some.mpr hknown] at hraw
                cases hraw
            | some known =>
                have hknown := from_raw_eq_some.mp hraw
                simp only [pure_apply, Except.ok.injEq]
                constructor
                · rintro rfl
                  exact ⟨sessionId, ⟨rfl, hknown⟩, rfl⟩
                · rintro ⟨other, ⟨rfl, hmode⟩, hid⟩
                  rw [from_raw_eq_some.mpr hmode] at hraw
                  cases hraw
                  exact Prod.ext hid rfl

/-- No body makes the decoder panic. -/
theorem decode_session_init_body_ensures {risk : Prop} (body : List UInt8) :
    Ensures (decodeSessionInitBody body limits) (fun _ => True) (PanicsOnlyIf risk) := by
  unfold decodeSessionInitBody readSessionInitBody
  refine Ensures.check (fun _ => panics_only_if_err _) fun _ => ?_
  refine (Yields.eval_on (fun _ _ => True) ?_).imp fun _ _ => trivial
  refine yields_align_to_byte.safe.map_err.bind fun _ _ _ => ?_
  have hid {c : Nat} : Yields c BitReader.readU64Aligned (fun _ _ => True) risk :=
    (yields_read_aligned_bytes 8).safe.bind fun _ _ _ => Yields.pure trivial
  refine hid.map_err.bind fun _ _ _ => ?_
  refine yields_read_u8_aligned.safe.map_err.bind fun mode _ _ => ?_
  refine yields_align_to_byte.safe.map_err.bind fun _ _ _ => Yields.get fun _ => ?_
  refine Yields.check fun _ => ?_
  cases CompactHeaderMode.fromRaw mode with
  | none => exact Yields.fail _
  | some mode => exact Yields.pure trivial

/-! ## The packet -/

/-- Behind the section that starts a session, no other section is accepted. -/
theorem find_second_section_eq_ok {sections : List WireSection} {first : WireSection}
    {found : Option WireSection} :
    findInitSection (some first) sections = .ok found ↔ sections = [] ∧ some first = found := by
  cases sections with
  | nil =>
      rw [findInitSection, pure_eq_ok]
      exact (and_iff_right rfl).symm
  | cons section_ rest =>
      refine iff_of_false ?_ fun h => nomatch h.1
      rw [findInitSection]
      cases section_.tag <;> exact fun h => nomatch h

theorem find_init_section_eq_ok {sections : List WireSection} {section_ : WireSection} :
    findInitSection none sections = .ok (some section_)
      ↔ sections = [section_] ∧ section_.tag = .sessionInit := by
  cases sections with
  | nil => exact iff_of_false (fun h => nomatch h) fun h => nomatch h.1
  | cons first rest =>
      rw [findInitSection]
      cases htag : first.tag with
      | sessionInit =>
          simp only [Option.isSome_none, Bool.false_eq_true, if_false]
          rw [find_second_section_eq_ok]
          constructor
          · rintro ⟨rfl, h⟩
            cases h
            exact ⟨rfl, htag⟩
          · rintro ⟨h, -⟩
            cases h
            exact ⟨rfl, rfl⟩
      | entityCreate | entityDestroy | entityUpdate | entityUpdateSparse
      | entityUpdateSparsePacked =>
          refine iff_of_false (fun h => nomatch h) ?_
          rintro ⟨h, hinit⟩
          cases h
          rw [htag] at hinit
          cases hinit

/-- A packet starts a session when its header says that it does, it is for the schema, and it has
one section, with the body of a session id and a mode. -/
theorem decode_session_init_packet_eq_ok {packet : WirePacket} {session : SessionState}
    (hbodies : ∀ s ∈ packet.sections, s.body.length < 2 ^ 32) :
    decodeSessionInitPacket build schema packet limits = .ok session ↔
      packet.header.flags.isSessionInit
        ∧ (¬ packet.header.flags.isFullSnapshot ∧ ¬ packet.header.flags.isDeltaSnapshot)
        ∧ packet.header.baselineTick = 0
        ∧ packet.header.schemaHash = schemaHash build schema
        ∧ ∃ sessionId, packet.sections
            = [⟨.sessionInit, sessionInitBody sessionId session.compactMode⟩]
          ∧ 9 ≤ limits.maxSectionBytes
          ∧ session = ⟨schemaHash build schema, receivedId sessionId, ⟨packet.header.tick⟩,
            session.compactMode⟩ := by
  simp only [decodeSessionInitPacket, check_fail_eq_ok, Bool.not_eq_true', Bool.not_eq_false,
    Bool.or_eq_true, not_or, ne_eq, not_not]
  refine and_congr_right fun _ => and_congr_right fun _ => and_congr_right fun _ =>
    and_congr_right fun hhash => ?_
  rw [bind_eq_ok, hhash]
  constructor
  · rintro ⟨found, hfind, h⟩
    cases found with
    | none => cases h
    | some section_ =>
        obtain ⟨hsections, htag⟩ := find_init_section_eq_ok.mp hfind
        obtain ⟨⟨id, mode⟩, hbody, h⟩ := bind_eq_ok.mp h
        obtain rfl := pure_eq_ok.mp h
        have hlen := bits_le_usize_max (hbodies section_ (by rw [hsections]; exact .head _))
        obtain ⟨hmax, sessionId, heq, rfl⟩ := (decode_session_init_body_eq_ok hlen).mp hbody
        rw [heq, length_session_init_body] at hmax
        refine ⟨sessionId, ?_, hmax, rfl⟩
        rw [hsections, ← htag, ← heq]
  · rintro ⟨sessionId, hsections, hmax, hsession⟩
    refine ⟨some ⟨.sessionInit, sessionInitBody sessionId session.compactMode⟩,
      find_init_section_eq_ok.mpr ⟨hsections, rfl⟩, ?_⟩
    have hlength := length_session_init_body sessionId session.compactMode
    have hbody : decodeSessionInitBody (sessionInitBody sessionId session.compactMode) limits
        = .ok (receivedId sessionId, session.compactMode) :=
      (decode_session_init_body_eq_ok (by rw [hlength]; decide)).mpr
        ⟨by rw [hlength]; exact hmax, sessionId, rfl, rfl⟩
    dsimp only
    rw [hbody, ok_bind, pure_eq_ok]
    exact hsession.symm

theorem find_init_section_ensures {risk : Prop} (seen : Option WireSection)
    (sections : List WireSection) :
    Ensures (findInitSection seen sections) (fun _ => True) (PanicsOnlyIf risk) := by
  induction sections generalizing seen with
  | nil => exact Ensures.pure trivial
  | cons section_ rest ih =>
      rw [findInitSection]
      cases section_.tag with
      | sessionInit => exact Ensures.check (fun _ => panics_only_if_err _) fun _ => ih _
      | entityCreate | entityDestroy | entityUpdate | entityUpdateSparse
      | entityUpdateSparsePacked => exact panics_only_if_err _

theorem decode_session_init_packet_ensures {risk : Prop} (packet : WirePacket) :
    Ensures (decodeSessionInitPacket build schema packet limits) (fun _ => True)
      (PanicsOnlyIf risk) := by
  unfold decodeSessionInitPacket
  refine Ensures.check (fun _ => panics_only_if_err _) fun _ => ?_
  refine Ensures.check (fun _ => panics_only_if_err _) fun _ => ?_
  refine Ensures.check (fun _ => panics_only_if_err _) fun _ => ?_
  refine Ensures.check (fun _ => panics_only_if_err _) fun _ => ?_
  refine (find_init_section_ensures none packet.sections).bind fun found _ => ?_
  cases found with
  | none => exact panics_only_if_err _
  | some section_ =>
      exact (decode_session_init_body_ensures section_.body).bind fun _ _ => Ensures.pure trivial

/-- The header of a packet that starts a session. -/
def sessionInitHeader (build : Build) (schema : Schema) (tick : SnapshotTick)
    (payloadLen : UInt32) : PacketHeader where
  version := VERSION
  flags := .sessionInit
  schemaHash := schemaHash build schema
  tick := tick.raw
  baselineTick := 0
  payloadLen := payloadLen

theorem session_init_header_valid (tick : SnapshotTick) (payloadLen : UInt32) :
    (sessionInitHeader build schema tick payloadLen).Valid where
  version := rfl
  flags := (by decide : PacketFlags.sessionInit.isValidV2)
  full := fun h => absurd (by decide : PacketFlags.sessionInit.isSessionInit) h
  delta := fun h => absurd (by decide : PacketFlags.sessionInit.isSessionInit) h

theorem session_init_header_of_valid {header : PacketHeader} (hvalid : header.Valid)
    (hinit : header.flags.isSessionInit) (hbaseline : header.baselineTick = 0)
    (hhash : header.schemaHash = schemaHash build schema) :
    header = sessionInitHeader build schema ⟨header.tick⟩ header.payloadLen := by
  have hflags : header.flags = .sessionInit := by
    rcases (PacketFlags.is_valid_v2_iff header.flags).mp hvalid.flags with hfull | hdelta | hinit'
    · rw [hfull] at hinit
      cases hinit
    · rw [hdelta] at hinit
      cases hinit
    · exact hinit'
  have hversion := hvalid.version
  cases header
  simp only at hflags hversion hbaseline hhash
  subst hflags hversion hbaseline hhash
  rfl

/-- The bytes that start a session: the header, then a frame around a session id and a mode, within
the limits of both decoders. -/
structure StartsSession (build : Build) (schema : Schema) (wireLimits : Wire.Limits)
    (limits : CodecLimits) (sessionId : UInt64) (tick : SnapshotTick) (mode : CompactHeaderMode)
    (bytes : List UInt8) : Prop where
  size : bytes.length ≤ wireLimits.maxPacketBytes
  sections : 1 ≤ wireLimits.maxSections
  sectionLen : 9 ≤ wireLimits.maxSectionLen
  sectionBytes : 9 ≤ limits.maxSectionBytes
  bytes_eq : ∃ frame, WireSection.Framed ⟨.sessionInit, sessionInitBody sessionId mode⟩ frame
    ∧ bytes = (sessionInitHeader build schema tick (UInt32.ofNat frame.length)).bytes ++ frame

/-- What starts a session has the bytes that the format describes. -/
theorem starts_session_of_init {bytes : List UInt8} (hlen : bytes.length ≤ isizeMax)
    {wireLimits : Wire.Limits} {session : SessionState} {packet : WirePacket}
    (hpacket : decodePacket bytes wireLimits = .ok packet)
    (hinit : decodeSessionInitPacket build schema packet limits = .ok session) :
    ∃ sessionId tick mode, StartsSession build schema wireLimits limits sessionId tick mode bytes
      ∧ session = ⟨schemaHash build schema, receivedId sessionId, tick, mode⟩ := by
  have hwritten := decode_packet_written hlen hpacket
  obtain ⟨payload, rfl, hpayload, hpartition⟩ := hwritten.bytes_eq
  have hbodies : ∀ s ∈ packet.sections, s.body.length < 2 ^ 32 := fun s hs =>
    (hpartition.exists_frame hs).choose_spec.1.body_lt
  obtain ⟨hflags, -, hbaseline, hhash, sessionId, hsections, hmax, hsession⟩ :=
    (decode_session_init_packet_eq_ok hbodies).mp hinit
  have hheader := session_init_header_of_valid hwritten.header hflags hbaseline hhash
  obtain ⟨hcount, hlong⟩ := hwritten.admits
  rw [hsections] at hpartition hcount hlong
  have hlong := hlong _ List.mem_cons_self
  rw [length_session_init_body] at hlong
  refine ⟨sessionId, ⟨packet.header.tick⟩, session.compactMode,
    ⟨hwritten.size, hcount, hlong, hmax, payload, partitioned_singleton.mp hpartition, ?_⟩,
    hsession⟩
  rw [← hpayload, UInt32.ofNat_toNat, ← hheader]

/-- What has the bytes that the format describes starts a session. -/
theorem init_of_starts_session {bytes : List UInt8} (hlen : bytes.length ≤ isizeMax)
    {wireLimits : Wire.Limits} {sessionId : UInt64} {tick : SnapshotTick}
    {mode : CompactHeaderMode}
    (hstarts : StartsSession build schema wireLimits limits sessionId tick mode bytes) :
    ∃ packet, decodePacket bytes wireLimits = .ok packet
      ∧ decodeSessionInitPacket build schema packet limits
        = .ok ⟨schemaHash build schema, receivedId sessionId, tick, mode⟩ := by
  obtain ⟨frame, hframed, hbytes⟩ := hstarts.bytes_eq
  have hsmall := hframed.length_le_body
  rw [length_session_init_body] at hsmall
  refine ⟨⟨sessionInitHeader build schema tick (UInt32.ofNat frame.length),
    [⟨.sessionInit, sessionInitBody sessionId mode⟩]⟩, decode_packet_of_written hlen
      ⟨session_init_header_valid tick _, hstarts.size, ⟨hstarts.sections, ?_⟩, frame, hbytes,
        ?_, partitioned_singleton.mpr hframed⟩,
    (decode_session_init_packet_eq_ok ?_).mpr
      ⟨(by decide : PacketFlags.sessionInit.isSessionInit),
        (by decide : ¬ PacketFlags.sessionInit.isFullSnapshot
          ∧ ¬ PacketFlags.sessionInit.isDeltaSnapshot),
        rfl, rfl, sessionId, rfl, hstarts.sectionBytes, rfl⟩⟩
  · intro s hs
    rw [List.mem_singleton.mp hs, length_session_init_body]
    exact hstarts.sectionLen
  · show (UInt32.ofNat frame.length).toNat = _
    rw [UInt32.toNat_ofNat', Nat.mod_eq_of_lt (by omega)]
  · intro s hs
    rw [List.mem_singleton.mp hs, length_session_init_body]
    decide

/-- A receiver starts a session exactly on the bytes that the format describes, and the session is
the one that they announce: no id for an id of zero, and the tick of the header as the last tick. -/
theorem session_init_accepted_iff {bytes : List UInt8} (hlen : bytes.length ≤ isizeMax)
    {wireLimits : Wire.Limits} {session : SessionState} :
    (∃ packet, decodePacket bytes wireLimits = .ok packet
        ∧ decodeSessionInitPacket build schema packet limits = .ok session) ↔
      ∃ sessionId tick mode, StartsSession build schema wireLimits limits sessionId tick mode bytes
        ∧ session = ⟨schemaHash build schema, receivedId sessionId, tick, mode⟩ := by
  constructor
  · rintro ⟨packet, hpacket, hinit⟩
    exact starts_session_of_init hlen hpacket hinit
  · rintro ⟨sessionId, tick, mode, hstarts, rfl⟩
    exact init_of_starts_session hlen hstarts

/-- The packet that starts session 42 for `goldenSchema` at tick 5. -/
def goldenInit : List UInt8 :=
  [67, 69, 68, 83, 2, 0, 4, 0, 203, 95, 129, 138, 69, 190, 32, 147, 5, 0, 0, 0, 0, 0, 0, 0, 11, 0,
    0, 0, 6, 9, 42, 0, 0, 0, 0, 0, 0, 0, 1]

/-- The session that it starts. -/
def goldenStart : SessionState :=
  ⟨schemaHash (goldenBuild false) goldenSchema, some 42, ⟨5⟩, .sessionV1⟩

theorem session_init_accepted_iff_golden :
    ∃ packet, decodePacket goldenInit ⟨39, 1, 9⟩ = .ok packet
      ∧ decodeSessionInitPacket (goldenBuild false) goldenSchema packet goldenLimits
        = .ok goldenStart :=
  (session_init_accepted_iff (by decide)).mpr
    ⟨42, ⟨5⟩, .sessionV1, ⟨by decide, by decide, by decide, by decide, goldenInit.drop 28,
      ⟨[9], 9, rfl, by decide, rfl⟩, by decide +kernel⟩, rfl⟩

/-! ## The encoder -/

/-- The layout of the section that starts a session. -/
def sessionInitLayout (sessionId : UInt64) (mode : CompactHeaderMode) : Layout :=
  [.align] ++ (bytes (leBytes 8 sessionId.toNat) ++ ([.byte mode.toU8] ++ [.align]))

theorem emits_session_init_body (sessionId : Option UInt64) (mode : CompactHeaderMode) :
    Emits 0 (encodeSessionInitBody sessionId mode) True
      (sessionInitLayout (sessionId.getD 0) mode) () := by
  unfold encodeSessionInitBody
  refine Emits.seq emits_align_to_byte.map_err ?_
  refine Emits.seq (emits_write_u64_aligned rfl _).map_err ?_
  refine Emits.seq (emits_write_u8_aligned ?_ _).map_err emits_align_to_byte.map_err
  rw [stop_bytes, length_leBytes]
  rfl

theorem render_session_init_layout (sessionId : UInt64) (mode : CompactHeaderMode) :
    ofBytes (sessionInitBody sessionId mode) = render 0 (sessionInitLayout sessionId mode) := by
  have hmod : stop 0 (bytes (leBytes 8 sessionId.toNat) ++ [.byte mode.toU8]) % 8 = 0 := by
    rw [stop_append, stop_bytes, stop_byte, length_leBytes]
  rw [sessionInitLayout, List.singleton_append, render_align_of_aligned rfl, ← List.append_assoc,
    render_append, render_align_of_aligned hmod, sessionInitBody]
  have hbyte : [Item.byte mode.toU8] = bytes [mode.toU8] := rfl
  rw [hbyte, ← bytes_append, render_bytes]
  exact (List.append_nil _).symm

/-- The section that starts a session. -/
def sessionInitSection (sessionId : UInt64) (mode : CompactHeaderMode) : WireSection :=
  ⟨.sessionInit, sessionInitBody sessionId mode⟩

theorem length_session_init_section (sessionId : UInt64) (mode : CompactHeaderMode) :
    (sessionInitSection sessionId mode).bytes.length = 11 := by
  rw [WireSection.bytes, sessionInitSection, List.length_cons, List.length_append,
    length_session_init_body]
  rfl

variable {tick : SnapshotTick} {sessionId : Option UInt64} {mode : CompactHeaderMode}
variable {out out' : List UInt8} {n : Nat}

theorem puts_session_init_section :
    Puts (writeSection .sessionInit limits (encodeSessionInitBody sessionId mode))
      (fun _ => True ∧ 9 ≤ limits.maxSectionBytes ∧ 9 < 2 ^ 32) 15
      (sessionInitSection (sessionId.getD 0) mode).bytes := by
  rw [← length_session_init_body (sessionId.getD 0) mode]
  exact puts_write_section (emits_session_init_body sessionId mode).writes_true
    (render_session_init_layout _ _)

/-- The encoder writes the header and the section, if the limits allow the section and there is
room. -/
theorem encode_session_init_eq (hmax : 9 ≤ limits.maxSectionBytes)
    (hroom : 43 ≤ out.length) :
    ∃ rest, encodeSessionInitPacket build schema tick sessionId mode limits out
      = .ok (39, (sessionInitHeader build schema tick 11).bytes
        ++ (sessionInitSection (sessionId.getD 0) mode).bytes ++ rest) := by
  have hsize : HEADER_SIZE = 28 := rfl
  have hbody := length_session_init_body (sessionId.getD 0) mode
  have hdrop : (out.drop HEADER_SIZE).length = out.length - 28 := List.length_drop
  obtain ⟨rest, hsection, hrest⟩ : ∃ rest, writeSection .sessionInit limits
        (encodeSessionInitBody sessionId mode) (out.drop HEADER_SIZE)
        = .ok (((), (sessionInitSection (sessionId.getD 0) mode).bytes.length),
          (sessionInitSection (sessionId.getD 0) mode).bytes ++ rest)
      ∧ (sessionInitSection (sessionId.getD 0) mode).bytes.length + rest.length
        = (out.drop HEADER_SIZE).length :=
    write_section_ok (emits_session_init_body sessionId mode)
      (render_session_init_layout _ _) (by rw [hbody]; exact hmax) (by rw [hbody]; decide)
      (by rw [hbody]; omega)
  have hheader := @write_header_eq (sessionInitHeader build schema tick 11)
    (out.take HEADER_SIZE ++ ((sessionInitSection (sessionId.getD 0) mode).bytes ++ rest))
    (by rw [List.length_append, List.length_take]; omega)
  rw [List.drop_left' (by rw [List.length_take]; omega)] at hheader
  have hlength := length_session_init_section (sessionId.getD 0) mode
  have hsub : usizeSub (m := Outcome CodecError) (28 + 11) 28 = pure 11 := rfl
  rw [hlength] at hsection
  rw [hsize] at hheader
  refine ⟨rest, ?_⟩
  rw [encodeSessionInitPacket, withTail, if_pos (by omega), hsection]
  simp only [ok_bind, pure_bind, hsize, usize_add_of_le (by decide : 28 + 11 ≤ usizeMax), hsub]
  show (do
    let out ← writeHeader (sessionInitHeader build schema tick 11) _
    pure (28 + 11, out)) = _
  rw [hheader, List.append_assoc]
  rfl

/-- What the encoder has written. The length of the section is first given five bytes, so that it
asks for 43 bytes of room. -/
theorem encode_session_init_ok (hlen : out.length ≤ isizeMax)
    (hencode : encodeSessionInitPacket build schema tick sessionId mode limits out
      = .ok (n, out')) :
    9 ≤ limits.maxSectionBytes ∧ 43 ≤ out.length ∧ n = 39
      ∧ out'.take n = (sessionInitHeader build schema tick 11).bytes
        ++ (sessionInitSection (sessionId.getD 0) mode).bytes := by
  have hsize : HEADER_SIZE = 28 := rfl
  have h := hencode
  rw [encodeSessionInitPacket, withTail] at h
  by_cases hshort : HEADER_SIZE ≤ out.length
  · rw [if_pos hshort] at h
    obtain ⟨_, htail, -⟩ := bind_eq_ok.mp h
    obtain ⟨_, hsection, -⟩ := bind_eq_ok.mp htail
    obtain ⟨⟨-, hmax, -⟩, -, hroom, -⟩ := puts_session_init_section.of_ok
      (by rw [List.length_drop]; omega) hsection
    rw [List.length_drop] at hroom
    obtain ⟨rest, hok⟩ := @encode_session_init_eq build schema limits tick sessionId mode out hmax
      (by omega)
    rw [hencode] at hok
    cases hok
    refine ⟨hmax, by omega, rfl, List.take_left' ?_⟩
    rw [List.length_append, PacketHeader.length_bytes, length_session_init_section, hsize]
  · rw [if_neg hshort] at h
    cases h

/-! ## The handshake -/

theorem received_id_getD (sessionId : Option UInt64) :
    receivedId (sessionId.getD 0) = sessionId.filter (· ≠ 0) := by
  cases sessionId with
  | none => rfl
  | some sessionId =>
      by_cases hzero : sessionId = 0 <;> simp [receivedId, Option.filter, hzero]

/-- A receiver starts a session on the packet that a sender has encoded exactly if its schema has
the same hash and its limits admit the packet. The session is then the one that the sender meant,
except that an id of zero is taken for none. -/
theorem session_handshake_iff {receiverSchema : Schema} {receiverLimits : CodecLimits}
    {wireLimits : Wire.Limits} {session : SessionState} (hlen : out.length ≤ isizeMax)
    (hencode : encodeSessionInitPacket build schema tick sessionId mode limits out
      = .ok (n, out')) :
    (∃ packet, decodePacket (out'.take n) wireLimits = .ok packet
        ∧ decodeSessionInitPacket build receiverSchema packet receiverLimits = .ok session) ↔
      (schemaHash build receiverSchema = schemaHash build schema
        ∧ 39 ≤ wireLimits.maxPacketBytes ∧ 1 ≤ wireLimits.maxSections
        ∧ 9 ≤ wireLimits.maxSectionLen ∧ 9 ≤ receiverLimits.maxSectionBytes)
      ∧ session = ⟨schemaHash build schema, sessionId.filter (· ≠ 0), tick, mode⟩ := by
  obtain ⟨-, -, -, hbytes⟩ := encode_session_init_ok hlen hencode
  have hvalid := @session_init_header_valid build schema tick 11
  obtain ⟨section_, hsection⟩ : ∃ section_, section_ = sessionInitSection (sessionId.getD 0) mode :=
    ⟨_, rfl⟩
  have hlength : section_.bytes.length = 11 := by
    rw [hsection, length_session_init_section]
  have hsmall : (List.flatMap WireSection.bytes [section_]).length ≤ isizeMax := by
    rw [List.flatMap_singleton, hlength]
    decide
  have hbody : section_.body.length = 9 := by
    rw [hsection]
    exact length_session_init_body _ _
  have hframed : ∀ s ∈ [section_], s.body.length < 2 ^ 32 := by
    intro s hs
    rw [List.mem_singleton.mp hs, hbody]
    decide
  rw [hbytes, ← hsection]
  constructor
  · rintro ⟨packet, hpacket, hinit⟩
    obtain ⟨hsize, -, hsections, hheader⟩ := (decode_packet_eq_ok hvalid).mp hpacket
    rw [← List.flatMap_singleton (f := WireSection.bytes)] at hsections
    have hfound := decode_sections_unique hsmall hframed hsections
    obtain ⟨hcount, hlong⟩ := ((decode_sections_eq_ok hsmall).mp hsections).2
    rw [hfound] at hcount hlong
    have hlong := hlong _ List.mem_cons_self
    rw [hbody] at hlong
    rw [hlength] at hsize
    obtain ⟨-, -, -, hhash, id, hsame, hmax, hsession⟩ :=
      (decode_session_init_packet_eq_ok (by rw [hfound]; exact hframed)).mp hinit
    rw [hheader] at hhash hsession
    rw [hfound, hsection] at hsame
    obtain ⟨hid, hmode⟩ := session_init_body_inj
      (congrArg WireSection.body (List.singleton_injective hsame))
    refine ⟨⟨hhash.symm, hsize, hcount, hlong, hmax⟩, ?_⟩
    rw [hsession, ← hid, ← hmode, received_id_getD, ← hhash]
    rfl
  · rintro ⟨⟨hhash, hsize, hcount, hlong, hmax⟩, rfl⟩
    have hsections : decodeSections section_.bytes wireLimits = .ok [section_] := by
      have heq := decode_sections_eq hsmall hframed
        ⟨hcount, fun s hs => by rw [List.mem_singleton.mp hs, hbody]; exact hlong⟩
      rwa [List.flatMap_singleton] at heq
    refine ⟨⟨sessionInitHeader build schema tick 11, [section_]⟩, (decode_packet_eq_ok hvalid).mpr
      ⟨by rw [hlength]; exact hsize, by rw [hlength]; rfl, hsections, rfl⟩,
      (decode_session_init_packet_eq_ok hframed).mpr
        ⟨(by decide : PacketFlags.sessionInit.isSessionInit),
          (by decide : ¬ PacketFlags.sessionInit.isFullSnapshot
            ∧ ¬ PacketFlags.sessionInit.isDeltaSnapshot),
          rfl, hhash.symm, sessionId.getD 0, ?_, hmax, ?_⟩⟩
    · rw [hsection]
      rfl
    · rw [received_id_getD, hhash]
      rfl

theorem session_handshake_iff_golden :
    ∃ packet, decodePacket ((goldenInit ++ [0, 0, 0, 1]).take 39) ⟨39, 1, 9⟩ = .ok packet
      ∧ decodeSessionInitPacket (goldenBuild false) goldenSchema packet goldenLimits
        = .ok goldenStart := by
  have hencode : encodeSessionInitPacket (goldenBuild false) goldenSchema ⟨5⟩ (some 42) .sessionV1
      goldenLimits (List.replicate 43 0) = .ok (39, goldenInit ++ [0, 0, 0, 1]) := by
    decide +kernel
  exact (session_handshake_iff (by decide) hencode).mpr
    ⟨⟨rfl, by decide, by decide, by decide, by decide⟩, rfl⟩

end Sdec
