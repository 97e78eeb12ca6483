import Sdec.Session.Channel

/-!
# Runs of the compact channel

What a receiver makes of the packets in a run. If every packet arrives once and in order, it cuts
each into the packet that the standard path would have carried. If packets are lost, or arrive again
or too late, its last tick is not that of the sender any more, and it takes a packet for one of
another tick.
-/

namespace Sdec

open Rust Bits Codec Wire Runs

variable {build : Build} {schema : Schema} {wireLimits : Wire.Limits}

/-! ## One packet -/

namespace SentPacket.Encoded

variable {packet : SentPacket} {sections : List WireSection} {session session' : SessionState}
  {decoded : WirePacket}

/-- The payload that a packet carries. -/
theorem compact_payload_eq (h : packet.Encoded build schema sections) :
    compactPayload packet.bytes = .ok ((sections.flatMap WireSection.bytes).take
      (UInt32.ofNat (sections.flatMap WireSection.bytes).length).toNat) := by
  have hlen := h.length_le
  rw [h.bytes_eq] at hlen ⊢
  exact Sdec.compact_payload_eq hlen

/-- What a receiver makes of a packet of a sender. -/
theorem decode_eq_ok (h : packet.Encoded build schema sections) :
    decodeSessionPacket build schema packet.bytes wireLimits session = .ok decoded session' ↔
      session.schemaHash = schemaHash build schema
        ∧ HeaderFits session.lastTick packet.lastTick packet.call.tick packet.call.baselineTick
        ∧ ∃ received, decodeSections ((sections.flatMap WireSection.bytes).take
            (UInt32.ofNat (sections.flatMap WireSection.bytes).length).toNat) wireLimits
              = .ok received
          ∧ decoded = receivedPacket session (compactHeader session.lastTick packet.lastTick
            packet.call.tick packet.call.baselineTick (sections.flatMap WireSection.bytes)) received
          ∧ session' = { session with lastTick := ⟨session.lastTick.raw
            + (packet.call.tick.raw - packet.lastTick.raw)⟩ } := by
  have hlen := h.length_le
  rw [decode_session_packet_eq_ok hlen]
  rw [h.bytes_eq] at hlen ⊢
  simp only [receives_compact_iff h.after h.baseline_le hlen]
  constructor
  · rintro ⟨_, received, ⟨hhash, hfits, rfl, hreceived⟩, rfl, rfl⟩
    exact ⟨hhash, hfits, received, hreceived, rfl, rfl⟩
  · rintro ⟨hhash, hfits, received, hreceived, rfl, rfl⟩
    exact ⟨_, received, ⟨hhash, hfits, rfl, hreceived⟩, rfl, rfl⟩

/-- A receiver for the schema accepts a packet if the header fits its last tick, and its wire limits
accept the payload. -/
theorem accepted_iff (h : packet.Encoded build schema sections)
    (hhash : session.schemaHash = schemaHash build schema) :
    (∃ decoded session',
        decodeSessionPacket build schema packet.bytes wireLimits session = .ok decoded session')
      ↔ HeaderFits session.lastTick packet.lastTick packet.call.tick packet.call.baselineTick
        ∧ wireLimits.AcceptCompact packet.bytes := by
  simp only [h.decode_eq_ok]
  rw [Wire.Limits.AcceptCompact, h.compact_payload_eq]
  constructor
  · rintro ⟨_, _, -, hfits, received, hreceived, -, -⟩
    exact ⟨hfits, _, received, rfl, hreceived⟩
  · rintro ⟨hfits, _, received, hpayload, hreceived⟩
    cases hpayload
    exact ⟨_, _, hhash, hfits, received, hreceived, rfl, rfl⟩

end SentPacket.Encoded

/-! ## Every packet once, and in order -/

/-- A call of the encoder with a baseline, on a buffer. -/
structure SessionCall.WithBaseline (call : SessionCall) : Prop where
  nonzero : call.baselineTick.raw ≠ 0
  length : call.out.length ≤ isizeMax

namespace Channel

variable {P : SessionCall → Prop} {first : SnapshotTick} {channel : Channel}

/-- The last tick of the receiver is the one that the sender had before the next packet. -/
structure InSync (build : Build) (schema : Schema) (first : SnapshotTick) (channel : Channel) :
    Prop where
  hash : channel.receiver.schemaHash = schemaHash build schema
  lastTick : (channel.ticks first)[channel.next]? = some channel.receiver.lastTick

/-- A packet that a receiver in sync gets is cut into its sections, behind a standard header. -/
theorem deliver_in_sync (hsound : Sound build schema P first channel)
    (hsync : InSync build schema first channel) {packet : SentPacket}
    (hpacket : channel.sent[channel.next]? = some packet)
    (hnonzero : packet.call.baselineTick.raw ≠ 0) (hshort : packet.bytes.length < 2 ^ 32)
    (haccept : wireLimits.AdmitCompact packet.bytes) :
    ∃ sections, packet.Encoded build schema sections
      ∧ decodeSessionPacket build schema packet.bytes wireLimits channel.receiver
        = .ok ⟨PacketHeader.deltaSnapshot (schemaHash build schema) packet.call.tick.raw
            packet.call.baselineTick.raw (UInt32.ofNat (sections.flatMap WireSection.bytes).length),
            sections⟩
          { channel.receiver with lastTick := packet.call.tick } := by
  obtain ⟨sections, hencoded⟩ := hsound.encoded packet (List.mem_of_getElem? hpacket)
  have hlast := hsound.lastTick _ packet hpacket
  rw [hsync.lastTick, Option.some.injEq] at hlast
  obtain ⟨encoding, hfacts⟩ := hencoded.delta
  have hbodies : ∀ s ∈ sections, s.body.length < 2 ^ 32 := fun s hs => (hfacts.admits s hs).2
  have hbytes := congrArg List.length hencoded.bytes_eq
  rw [compactPacket, List.length_append] at hbytes
  have hmax : (sections.flatMap WireSection.bytes).length ≤ isizeMax := by
    simp only [isizeMax]
    omega
  have htake := take_counted (by omega : (sections.flatMap WireSection.bytes).length < 2 ^ 32)
  have hpayload := hencoded.compact_payload_eq
  rw [htake] at hpayload
  have hadmits := haccept _ sections hpayload
    (decode_sections_unlimited hmax hbodies)
  have hafter := hencoded.after
  have hfits : HeaderFits channel.receiver.lastTick packet.lastTick packet.call.tick
      packet.call.baselineTick := by
    rw [hlast, header_fits_iff hafter hencoded.baseline_le (UInt32.le_refl _), Nat.sub_self]
    exact Nat.pos_of_ne_zero fun h => hnonzero (UInt32.toNat_inj.mp h)
  refine ⟨sections, hencoded, hencoded.decode_eq_ok.mpr ⟨hsync.hash, hfits, sections, ?_, ?_, ?_⟩⟩
  · rw [htake, decode_sections_eq hmax hbodies hadmits]
  · rw [hlast, received_in_sync, hsync.hash]
  · rw [hlast, add_distance]

/-- Only the next packet arrives, short enough for its length field and admitted by the wire
limits. -/
def LosslessStep (channel : Channel) : ChannelEvent → Prop
  | .encode _ => True
  | .deliver i wireLimits => i = channel.next ∧ ∀ packet, channel.sent[i]? = some packet →
      packet.bytes.length < 2 ^ 32 ∧ wireLimits.AdmitCompact packet.bytes

/-- A receiver in sync stays in sync. -/
theorem in_sync_step (hschema : schema.Valid) {event : ChannelEvent}
    (hevent : event.Calls SessionCall.WithBaseline) (hlossless : LosslessStep channel event)
    (hsound : Sound build schema SessionCall.WithBaseline first channel)
    (hsync : InSync build schema first channel) :
    InSync build schema first (step build schema channel event) := by
  cases event with
  | encode call =>
      obtain ⟨hreceiver, hnext, -⟩ := @step_encode_receiver build schema channel call
      have hticks :=
        @ticks_step build _ _ _ _ _ hschema (fun _ h => h.length) hevent _ _ hsync.lastTick
      exact ⟨by rw [hreceiver]; exact hsync.hash, by rw [hreceiver, hnext]; exact hticks⟩
  | deliver i wireLimits =>
      obtain ⟨rfl, hpackets⟩ := hlossless
      cases hpacket : channel.sent[channel.next]? with
      | none =>
          rw [step_deliver_none hpacket]
          exact hsync
      | some packet =>
          obtain ⟨hshort, haccept⟩ := hpackets packet hpacket
          obtain ⟨sections, -, hdecode⟩ := deliver_in_sync hsound hsync hpacket
            (hsound.calls packet (List.mem_of_getElem? hpacket)).nonzero hshort haccept
          rw [step_deliver_ok hpacket hdecode]
          exact ⟨hsync.hash, ticks_of_sent hpacket⟩

/-- The compact path does what the standard path does. A failing call of the encoder leaves the last
tick as it was. A packet that arrives is accepted, cut into the packet that the standard path
carries, and leaves the receiver with the last tick that the sender had behind the packet. -/
def RefinesStandard (build : Build) (schema : Schema) (channel : Channel) : ChannelEvent → Prop
  | .encode call => ∀ e sender, call.encode build schema channel.sender = .error e sender →
      sender = channel.sender
  | .deliver i wireLimits => ∀ packet, channel.sent[i]? = some packet → ∃ decoded receiver,
      decodeSessionPacket build schema packet.bytes wireLimits channel.receiver
          = .ok decoded receiver
        ∧ receiver.lastTick = packet.call.tick
        ∧ (i + 1 = channel.sent.length → receiver.lastTick = channel.sender)
        ∧ ∀ out, packet.bytes.length + 32 ≤ out.length → out.length ≤ isizeMax → ∃ m out',
          packet.call.encodeStandard build schema out = .ok (m, out')
            ∧ ∀ standardLimits : Wire.Limits, standardLimits.Admit (out'.take m) →
              decodePacket (out'.take m) standardLimits = .ok decoded

theorem refines_standard_step (hschema : schema.Valid) {event : ChannelEvent}
    (hevent : event.Calls SessionCall.WithBaseline) (hlossless : LosslessStep channel event)
    (hsound : Sound build schema SessionCall.WithBaseline first channel)
    (hsync : InSync build schema first channel) : RefinesStandard build schema channel event := by
  cases event with
  | encode call =>
      intro e sender herror
      rcases @encode_session_cases build schema call.limits call.tick call.baselineTick
        channel.sender call.baseline call.current hschema call.out hevent.length with
        ⟨error, hfails⟩ | ⟨n, out, sections, hok, -⟩
      · rw [SessionCall.encode, hfails] at herror
        cases herror
        rfl
      · rw [SessionCall.encode, hok] at herror
        cases herror
  | deliver i wireLimits =>
      obtain ⟨rfl, hpackets⟩ := hlossless
      intro packet hpacket
      obtain ⟨hshort, haccept⟩ := hpackets packet hpacket
      have hnonzero := (hsound.calls packet (List.mem_of_getElem? hpacket)).nonzero
      obtain ⟨sections, hencoded, hdecode⟩ := deliver_in_sync hsound hsync hpacket hnonzero hshort
        haccept
      refine ⟨_, _, hdecode, rfl, fun hlast => ?_, fun out hlong hlen => ?_⟩
      · have hticks := @ticks_of_sent first channel _ _ hpacket
        rw [hlast, hsound.sender, Option.some.injEq] at hticks
        exact hticks.symm
      · obtain ⟨m, out', hencode, hbytes⟩ := hencoded.standard out hlong hlen
        refine ⟨m, out', hencode, fun standardLimits hadmits => ?_⟩
        obtain ⟨encoding, hfacts⟩ := hencoded.delta
        have hlong := congrArg List.length hencoded.bytes_eq
        rw [compactPacket, List.length_append] at hlong
        rw [hbytes] at hadmits ⊢
        exact decode_packet_of_sections (PacketHeader.delta_snapshot_valid _ _ _ hnonzero) rfl
          (by omega) (fun s hs => (hfacts.admits s hs).2) hadmits

end Channel

/-- On a channel on which every packet arrives once and in order, the compact path refines the
standard path in every run, however calls of the encoder and deliveries interleave. -/
theorem compact_path_refines_standard {components : List ComponentDef}
    (hschema : Schema.new components = .ok schema) {receiver : SessionState}
    (hhash : receiver.schemaHash = schemaHash build schema) {events : List ChannelEvent}
    (hcalls : ∀ event ∈ events, event.Calls SessionCall.WithBaseline)
    (hlossless : Throughout (Channel.step build schema) Channel.LosslessStep
      (Channel.start receiver.lastTick receiver) events) :
    Throughout (Channel.step build schema) (Channel.RefinesStandard build schema)
      (Channel.start receiver.lastTick receiver) events := by
  have hvalid := (schema_new_eq_ok.mp hschema).2
  refine @Throughout.imp _ _ _ _ _ _ _ (fun channel =>
    Channel.Sound build schema SessionCall.WithBaseline receiver.lastTick channel
      ∧ Channel.InSync build schema receiver.lastTick channel)
    ((throughout_of_forall hcalls).and hlossless) ⟨Channel.sound_start receiver, hhash, rfl⟩ ?_ ?_
  · intro channel event ⟨hevent, hstep⟩ ⟨hsound, hsync⟩
    exact ⟨Channel.sound_step hvalid (fun _ h => h.length) hevent hsound,
      Channel.in_sync_step hvalid hevent hstep hsound hsync⟩
  · intro channel event ⟨hevent, hstep⟩ ⟨hsound, hsync⟩
    exact Channel.refines_standard_step hvalid hevent hstep hsound hsync

/-- Two packets that arrive. The second call fails, since it asks for the tick of the first packet
again. -/
def goldenTraffic : List ChannelEvent :=
  [.encode (goldenCall 6 5 goldenEntities goldenChanged),
    .encode (goldenCall 6 5 goldenEntities goldenChanged), .deliver 0 .unlimited,
    .encode (goldenCall 7 6 goldenChanged goldenEntities), .deliver 1 .unlimited]

/-- The channel before each event. -/
theorem throughout_golden_traffic {P : Channel → ChannelEvent → Prop} :
    Throughout (Channel.step (goldenBuild false) goldenSchema) P
        (Channel.start ⟨5⟩ (goldenReceiver 5)) goldenTraffic
      ↔ P ⟨⟨5⟩, [], goldenReceiver 5, 0, []⟩
          (.encode (goldenCall 6 5 goldenEntities goldenChanged))
        ∧ P ⟨⟨6⟩, goldenSent.take 1, goldenReceiver 5, 0, []⟩
          (.encode (goldenCall 6 5 goldenEntities goldenChanged))
        ∧ P ⟨⟨6⟩, goldenSent.take 1, goldenReceiver 5, 0, []⟩ (.deliver 0 .unlimited)
        ∧ P ⟨⟨6⟩, goldenSent.take 1, goldenReceiver 6, 1, goldenSent.take 1⟩
          (.encode (goldenCall 7 6 goldenChanged goldenEntities))
        ∧ P ⟨⟨7⟩, goldenSent, goldenReceiver 6, 1, goldenSent.take 1⟩ (.deliver 1 .unlimited) := by
  have hfirst : Channel.step (goldenBuild false) goldenSchema
      (Channel.start ⟨5⟩ (goldenReceiver 5))
      (.encode (goldenCall 6 5 goldenEntities goldenChanged))
      = ⟨⟨6⟩, goldenSent.take 1, goldenReceiver 5, 0, []⟩ := by decide +kernel
  have hfails : Channel.step (goldenBuild false) goldenSchema
      ⟨⟨6⟩, goldenSent.take 1, goldenReceiver 5, 0, []⟩
      (.encode (goldenCall 6 5 goldenEntities goldenChanged))
      = ⟨⟨6⟩, goldenSent.take 1, goldenReceiver 5, 0, []⟩ := by decide +kernel
  have harrives : Channel.step (goldenBuild false) goldenSchema
      ⟨⟨6⟩, goldenSent.take 1, goldenReceiver 5, 0, []⟩ (.deliver 0 .unlimited)
      = ⟨⟨6⟩, goldenSent.take 1, goldenReceiver 6, 1, goldenSent.take 1⟩ := by decide +kernel
  have hsecond : Channel.step (goldenBuild false) goldenSchema
      ⟨⟨6⟩, goldenSent.take 1, goldenReceiver 6, 1, goldenSent.take 1⟩
      (.encode (goldenCall 7 6 goldenChanged goldenEntities))
      = ⟨⟨7⟩, goldenSent, goldenReceiver 6, 1, goldenSent.take 1⟩ := by decide +kernel
  simp only [goldenTraffic, throughout_cons, throughout_nil, hfirst, hfails, harrives, hsecond,
    and_true]
  exact Iff.rfl

theorem golden_traffic_calls : ∀ event ∈ goldenTraffic, event.Calls SessionCall.WithBaseline := by
  intro event hevent
  simp only [goldenTraffic, List.mem_cons, List.not_mem_nil, or_false] at hevent
  rcases hevent with rfl | rfl | rfl | rfl | rfl
  · exact ⟨by decide, by decide⟩
  · exact ⟨by decide, by decide⟩
  · trivial
  · exact ⟨by decide, by decide⟩
  · trivial

theorem admit_compact_of_eq {bytes payload : List UInt8} {sections : List WireSection}
    (hpayload : compactPayload bytes = .ok payload)
    (hsections : decodeSections payload .unlimited = .ok sections)
    (h : wireLimits.AdmitSections sections) : wireLimits.AdmitCompact bytes := by
  intro payload' sections' hp hs
  cases hpayload.symm.trans hp
  cases hsections.symm.trans hs
  exact h

theorem golden_sent_admitted {packet : SentPacket} (h : packet ∈ goldenSent) :
    packet.bytes.length < 2 ^ 32 ∧ Wire.Limits.unlimited.AdmitCompact packet.bytes := by
  rcases List.mem_pair.mp h with rfl | rfl
  · have hpayload : compactPayload [2, 1, 1, 10, 5, 8, 1, 3, 10, 3, 8, 3, 236, 128]
        = .ok [5, 8, 1, 3, 10, 3, 8, 3, 236, 128] := by decide +kernel
    have hsections : decodeSections [5, 8, 1, 3, 10, 3, 8, 3, 236, 128] .unlimited
        = .ok [⟨.entityUpdateSparsePacked, [1, 3, 10, 3, 8, 3, 236, 128]⟩] := by decide +kernel
    exact ⟨by decide, admit_compact_of_eq hpayload hsections (by decide)⟩
  · have hpayload : compactPayload [2, 1, 1, 10, 5, 8, 1, 3, 10, 3, 47, 253, 247, 112]
        = .ok [5, 8, 1, 3, 10, 3, 47, 253, 247, 112] := by decide +kernel
    have hsections : decodeSections [5, 8, 1, 3, 10, 3, 47, 253, 247, 112] .unlimited
        = .ok [⟨.entityUpdateSparsePacked, [1, 3, 10, 3, 47, 253, 247, 112]⟩] := by decide +kernel
    exact ⟨by decide, admit_compact_of_eq hpayload hsections (by decide)⟩

/-- The two packets and the call that fails. -/
theorem compact_path_refines_standard_golden :
    Throughout (Channel.step (goldenBuild false) goldenSchema)
      (Channel.RefinesStandard (goldenBuild false) goldenSchema)
      (Channel.start ⟨5⟩ (goldenReceiver 5)) goldenTraffic := by
  have hlossless : Throughout (Channel.step (goldenBuild false) goldenSchema) Channel.LosslessStep
      (Channel.start ⟨5⟩ (goldenReceiver 5)) goldenTraffic := by
    refine throughout_golden_traffic.mpr ⟨trivial, trivial, ⟨rfl, fun packet hpacket => ?_⟩,
      trivial, rfl, fun packet hpacket => ?_⟩
    · exact golden_sent_admitted (List.mem_of_mem_take (List.mem_of_getElem? hpacket))
    · exact golden_sent_admitted (List.mem_of_getElem? hpacket)
  exact @compact_path_refines_standard (goldenBuild false) goldenSchema _ golden_schema_new
    (goldenReceiver 5) rfl _ golden_traffic_calls hlossless

/-! ## Lost packets -/

namespace Channel

variable {P : SessionCall → Prop} {first : SnapshotTick} {channel : Channel}

/-- Packets arrive in the order they were sent in, but not all of them. -/
def InOrderStep (channel : Channel) : ChannelEvent → Prop
  | .encode _ => True
  | .deliver i _ => channel.next ≤ i

/-- The last tick of the receiver is at most the one that the sender had before the next packet. -/
structure Behind (build : Build) (schema : Schema) (first : SnapshotTick) (channel : Channel) :
    Prop where
  hash : channel.receiver.schemaHash = schemaHash build schema
  lastTick : ∃ tick, (channel.ticks first)[channel.next]? = some tick
    ∧ channel.receiver.lastTick.raw ≤ tick.raw

/-- The receiver is behind the sender of any packet that can still arrive. -/
theorem Behind.le (hbehind : Behind build schema first channel)
    (hsound : Sound build schema P first channel) {i : Nat} {packet : SentPacket}
    (hpacket : channel.sent[i]? = some packet) (hi : channel.next ≤ i) :
    channel.receiver.lastTick.raw ≤ packet.lastTick.raw := by
  obtain ⟨tick, htick, hle⟩ := hbehind.lastTick
  exact UInt32.le_trans hle (hsound.ticks_le hi htick (hsound.lastTick i packet hpacket))

/-- A receiver that is behind stays behind. -/
theorem behind_step (hschema : schema.Valid) (hP : ∀ call, P call → call.out.length ≤ isizeMax)
    {event : ChannelEvent} (hevent : event.Calls P) (horder : InOrderStep channel event)
    (hsound : Sound build schema P first channel) (hbehind : Behind build schema first channel) :
    Behind build schema first (step build schema channel event) := by
  cases event with
  | encode call =>
      obtain ⟨hreceiver, hnext, -⟩ := @step_encode_receiver build schema channel call
      obtain ⟨tick, htick, hle⟩ := hbehind.lastTick
      have hticks := @ticks_step build _ _ _ _ _ hschema hP hevent _ _ htick
      exact ⟨by rw [hreceiver]; exact hbehind.hash, tick, by rw [hnext]; exact hticks,
        by rw [hreceiver]; exact hle⟩
  | deliver i wireLimits =>
      cases hpacket : channel.sent[i]? with
      | none =>
          rw [step_deliver_none hpacket]
          exact hbehind
      | some packet =>
          have hle := hbehind.le hsound hpacket horder
          obtain ⟨sections, hencoded⟩ := hsound.encoded packet (List.mem_of_getElem? hpacket)
          have hticks := @ticks_of_sent first channel _ _ hpacket
          cases hdecode : decodeSessionPacket build schema packet.bytes wireLimits
              channel.receiver with
          | error e receiver =>
              obtain ⟨rfl, -⟩ := decode_session_packet_error hencoded.length_le hdecode
              rw [step_deliver_error hpacket hdecode]
              exact ⟨hbehind.hash, _, hticks,
                UInt32.le_trans hle (UInt32.le_of_lt hencoded.after)⟩
          | ok decoded receiver =>
              obtain ⟨-, -, _, -, -, rfl⟩ := hencoded.decode_eq_ok.mp hdecode
              rw [step_deliver_ok hpacket hdecode]
              refine ⟨hbehind.hash, _, hticks, ?_⟩
              have hafter := UInt32.lt_iff_toNat_lt.mp hencoded.after
              have hle' := UInt32.le_iff_toNat_le.mp hle
              have htick := packet.call.tick.raw.toNat_lt
              show channel.receiver.lastTick.raw + (packet.call.tick.raw - packet.lastTick.raw)
                ≤ packet.call.tick.raw
              rw [UInt32.le_iff_toNat_le, UInt32.toNat_add,
                UInt32.toNat_sub_of_le _ _ (UInt32.le_of_lt hencoded.after),
                Nat.mod_eq_of_lt (by omega)]
              omega

/-- The ticks of a packet that is accepted are those that the sender encoded it for. -/
def Faithful (build : Build) (schema : Schema) (channel : Channel) : ChannelEvent → Prop
  | .encode _ => True
  | .deliver i wireLimits => ∀ packet, channel.sent[i]? = some packet → ∀ decoded receiver,
      decodeSessionPacket build schema packet.bytes wireLimits channel.receiver
          = .ok decoded receiver →
        decoded.header.tick = packet.call.tick.raw
          ∧ decoded.header.baselineTick = packet.call.baselineTick.raw

/-- A packet whose payload the receiver accepts finds the receiver with the last tick of its sender,
or so far behind that the baseline tick gives it away. -/
def NoticesLoss (channel : Channel) : ChannelEvent → Prop
  | .encode _ => True
  | .deliver i wireLimits => ∀ packet, channel.sent[i]? = some packet →
      wireLimits.AcceptCompact packet.bytes →
        channel.receiver.lastTick = packet.lastTick ∨ packet.call.baselineTick.raw.toNat
          ≤ packet.lastTick.raw.toNat - channel.receiver.lastTick.raw.toNat

theorem faithful_iff {event : ChannelEvent} (horder : InOrderStep channel event)
    (hsound : Sound build schema P first channel) (hbehind : Behind build schema first channel) :
    Faithful build schema channel event ↔ NoticesLoss channel event := by
  cases event with
  | encode call => exact Iff.rfl
  | deliver i wireLimits =>
      constructor
      · intro hfaithful packet hpacket haccept
        obtain ⟨sections, hencoded⟩ := hsound.encoded packet (List.mem_of_getElem? hpacket)
        have hle := hbehind.le hsound hpacket horder
        by_cases hfits : packet.call.baselineTick.raw.toNat
            ≤ packet.lastTick.raw.toNat - channel.receiver.lastTick.raw.toNat
        · exact .inr hfits
        · left
          have hheader := (header_fits_iff hencoded.after hencoded.baseline_le hle).mpr
            (Nat.lt_of_not_le hfits)
          obtain ⟨decoded, receiver, hdecode⟩ := (hencoded.accepted_iff hbehind.hash).mpr
            ⟨hheader, haccept⟩
          obtain ⟨htick, -⟩ := hfaithful packet hpacket decoded receiver hdecode
          obtain ⟨-, -, _, -, rfl, -⟩ := hencoded.decode_eq_ok.mp hdecode
          -- The receiver is off by as much as its last tick is.
          have hsame : channel.receiver.lastTick.raw = packet.lastTick.raw := by
            have hsum : channel.receiver.lastTick.raw + (packet.call.tick.raw - packet.lastTick.raw)
                = packet.call.tick.raw := htick
            grind
          exact congrArg SnapshotTick.mk hsame
      · intro hnotices packet hpacket decoded receiver hdecode
        obtain ⟨sections, hencoded⟩ := hsound.encoded packet (List.mem_of_getElem? hpacket)
        have hle := hbehind.le hsound hpacket horder
        obtain ⟨hheader, haccept⟩ :=
          (hencoded.accepted_iff hbehind.hash).mp ⟨decoded, receiver, hdecode⟩
        rw [header_fits_iff hencoded.after hencoded.baseline_le hle] at hheader
        have hsame : channel.receiver.lastTick = packet.lastTick :=
          (hnotices packet hpacket haccept).resolve_right (Nat.not_le.mpr hheader)
        obtain ⟨-, -, _, -, rfl, -⟩ := hencoded.decode_eq_ok.mp hdecode
        rw [hsame]
        exact compact_header_in_sync packet.lastTick packet.call.tick packet.call.baselineTick
          (sections.flatMap WireSection.bytes)

end Channel

/-- A call of the encoder on a buffer. -/
def SessionCall.OnBuffer (call : SessionCall) : Prop := call.out.length ≤ isizeMax

/-- In a run in which packets are lost, the ticks of the accepted packets are those of the sender
exactly if every packet that arrives finds the receiver in sync, or so far behind that it
notices. -/
theorem accepted_ticks_faithful_iff {components : List ComponentDef}
    (hschema : Schema.new components = .ok schema) {receiver : SessionState}
    (hhash : receiver.schemaHash = schemaHash build schema) {events : List ChannelEvent}
    (hcalls : ∀ event ∈ events, event.Calls SessionCall.OnBuffer)
    (horder : Throughout (Channel.step build schema) Channel.InOrderStep
      (Channel.start receiver.lastTick receiver) events) :
    Throughout (Channel.step build schema) (Channel.Faithful build schema)
        (Channel.start receiver.lastTick receiver) events
      ↔ Throughout (Channel.step build schema) Channel.NoticesLoss
        (Channel.start receiver.lastTick receiver) events := by
  have hvalid := (schema_new_eq_ok.mp hschema).2
  have hrun := (throughout_of_forall hcalls).and horder
  refine @Throughout.iff _ _ _ _ _ _ _ _ (fun channel =>
    Channel.Sound build schema SessionCall.OnBuffer receiver.lastTick channel
      ∧ Channel.Behind build schema receiver.lastTick channel)
    hrun ⟨Channel.sound_start receiver, hhash, _, rfl, UInt32.le_refl _⟩ ?_ ?_
  · intro channel event ⟨hevent, hstep⟩ ⟨hsound, hbehind⟩
    exact ⟨Channel.sound_step hvalid (fun _ h => h) hevent hsound,
      Channel.behind_step hvalid (fun _ h => h) hevent hstep hsound hbehind⟩
  · intro channel event ⟨_, hstep⟩ ⟨hsound, hbehind⟩
    exact Channel.faithful_iff hstep hsound hbehind

/-- Two packets, the first of which is lost. -/
def lossyEvents : List ChannelEvent :=
  [.encode (goldenCall 6 5 goldenEntities goldenChanged),
    .encode (goldenCall 7 6 goldenChanged goldenEntities), .deliver 1 .unlimited]

theorem lossy_calls : ∀ event ∈ lossyEvents, event.Calls SessionCall.OnBuffer := by
  intro event hevent
  rw [lossyEvents, List.mem_cons, List.mem_pair] at hevent
  rcases hevent with rfl | rfl | rfl
  · exact (by decide : 32 ≤ isizeMax)
  · exact (by decide : 32 ≤ isizeMax)
  · trivial

theorem lossy_in_order :
    Throughout (Channel.step (goldenBuild false) goldenSchema) Channel.InOrderStep
    (Channel.start (goldenReceiver 5).lastTick (goldenReceiver 5)) lossyEvents :=
  ⟨trivial, trivial, by
    show Channel.next _ ≤ 1
    decide +kernel, trivial⟩

theorem golden_traffic_buffers : ∀ event ∈ goldenTraffic, event.Calls SessionCall.OnBuffer := by
  intro event hevent
  have hcall := golden_traffic_calls event hevent
  cases event with
  | encode call => exact hcall.length
  | deliver => trivial

theorem lossy_sent : Channel.step (goldenBuild false) goldenSchema
    (Channel.step (goldenBuild false) goldenSchema (Channel.start ⟨5⟩ (goldenReceiver 5))
      (.encode (goldenCall 6 5 goldenEntities goldenChanged)))
    (.encode (goldenCall 7 6 goldenChanged goldenEntities))
    = ⟨⟨7⟩, goldenSent, goldenReceiver 5, 0, []⟩ := by
  decide +kernel

/-- The run with the lost packet is not faithful, the one in which every packet arrives is. -/
theorem accepted_ticks_faithful_iff_lossy :
    (¬ Throughout (Channel.step (goldenBuild false) goldenSchema)
      (Channel.Faithful (goldenBuild false) goldenSchema) (Channel.start ⟨5⟩ (goldenReceiver 5))
      lossyEvents)
    ∧ Throughout (Channel.step (goldenBuild false) goldenSchema)
      (Channel.Faithful (goldenBuild false) goldenSchema) (Channel.start ⟨5⟩ (goldenReceiver 5))
      goldenTraffic := by
  constructor
  · intro hfaithful
    have hnotices : Throughout (Channel.step (goldenBuild false) goldenSchema) Channel.NoticesLoss
        (Channel.start ⟨5⟩ (goldenReceiver 5)) lossyEvents :=
      (accepted_ticks_faithful_iff golden_schema_new rfl lossy_calls lossy_in_order).mp hfaithful
    simp only [lossyEvents, throughout_cons, lossy_sent] at hnotices
    obtain ⟨-, -, hdelivery, -⟩ := hnotices
    have haccept : Wire.Limits.unlimited.AcceptCompact
        [2, 1, 1, 10, 5, 8, 1, 3, 10, 3, 47, 253, 247, 112] :=
      ⟨_, [⟨.entityUpdateSparsePacked, [1, 3, 10, 3, 47, 253, 247, 112]⟩], rfl, by decide +kernel⟩
    rcases hdelivery _ rfl haccept with hsame | hgap
    · exact absurd hsame (by decide)
    · exact absurd hgap (by decide)
  · have horder : Throughout (Channel.step (goldenBuild false) goldenSchema) Channel.InOrderStep
        (Channel.start ⟨5⟩ (goldenReceiver 5)) goldenTraffic :=
      throughout_golden_traffic.mpr ⟨trivial, trivial, Nat.le_refl _, trivial, Nat.le_refl _⟩
    have hnotices : Throughout (Channel.step (goldenBuild false) goldenSchema) Channel.NoticesLoss
        (Channel.start ⟨5⟩ (goldenReceiver 5)) goldenTraffic := by
      refine throughout_golden_traffic.mpr ⟨trivial, trivial, fun packet hpacket _ => .inl ?_,
        trivial, fun packet hpacket _ => .inl ?_⟩
      all_goals
        cases hpacket
        rfl
    exact (@accepted_ticks_faithful_iff (goldenBuild false) goldenSchema _ golden_schema_new
      (goldenReceiver 5) rfl _ golden_traffic_buffers horder).mpr hnotices

/-- The delta from tick 6 to tick 7 is taken for one from tick 5 to tick 6. -/
theorem lost_packet_misread :
    Throughout (Channel.step (goldenBuild false) goldenSchema) Channel.InOrderStep
        (Channel.start (goldenReceiver 5).lastTick (goldenReceiver 5)) lossyEvents
      ∧ ¬ Throughout (Channel.step (goldenBuild false) goldenSchema)
        (Channel.Faithful (goldenBuild false) goldenSchema)
        (Channel.start (goldenReceiver 5).lastTick (goldenReceiver 5)) lossyEvents := by
  refine ⟨lossy_in_order, fun h => ?_⟩
  have hdecode : decodeSessionPacket (goldenBuild false) goldenSchema
      [2, 1, 1, 10, 5, 8, 1, 3, 10, 3, 47, 253, 247, 112] .unlimited (goldenReceiver 5)
      = .ok ⟨PacketHeader.deltaSnapshot (schemaHash (goldenBuild false) goldenSchema) 6 5 10,
          [⟨.entityUpdateSparsePacked, [1, 3, 10, 3, 47, 253, 247, 112]⟩]⟩ (goldenReceiver 6) := by
    decide +kernel
  simp only [lossyEvents, throughout_cons] at h
  rw [show (goldenReceiver 5).lastTick = ⟨5⟩ from rfl, lossy_sent] at h
  obtain ⟨-, -, hdelivery, -⟩ := h
  obtain ⟨htick, -⟩ := hdelivery _ rfl _ _ hdecode
  exact absurd htick (by decide)

/-! ## Late packets -/

namespace Channel

variable {P : SessionCall → Prop} {first : SnapshotTick} {channel : Channel}

/-- The packet is one for which the receiver has already accepted a packet of that tick or a later
one. -/
def IsLate (channel : Channel) (packet : SentPacket) : Prop :=
  ∃ earlier ∈ channel.accepted, packet.call.tick.raw ≤ earlier.call.tick.raw

/-- A late packet is refused for its order, and the receiver stays as it was. -/
def RefusesLate (build : Build) (schema : Schema) (channel : Channel) : ChannelEvent → Prop
  | .encode _ => True
  | .deliver i wireLimits => ∀ packet, channel.sent[i]? = some packet → channel.IsLate packet →
      ∃ previous current, decodeSessionPacket build schema packet.bytes wireLimits channel.receiver
        = .error (.err (.sessionOutOfOrder previous current)) channel.receiver

/-- The packet that arrives is not late. -/
def NoLateStep (channel : Channel) : ChannelEvent → Prop
  | .encode _ => True
  | .deliver i _ => ∀ packet, channel.sent[i]? = some packet → ¬ channel.IsLate packet

/-- A late packet is refused with some error, and the receiver stays as it was. -/
def IgnoresLate (build : Build) (schema : Schema) (channel : Channel) : ChannelEvent → Prop
  | .encode _ => True
  | .deliver i wireLimits => ∀ packet, channel.sent[i]? = some packet → channel.IsLate packet →
      ∃ e, decodeSessionPacket build schema packet.bytes wireLimits channel.receiver
        = .error e channel.receiver

/-- The distances in a late packet lead out of the range of ticks, or its payload is refused. -/
def LateUnfit (channel : Channel) : ChannelEvent → Prop
  | .encode _ => True
  | .deliver i wireLimits => ∀ packet, channel.sent[i]? = some packet → channel.IsLate packet →
      HeaderFits channel.receiver.lastTick packet.lastTick packet.call.tick
        packet.call.baselineTick →
        ¬ wireLimits.AcceptCompact packet.bytes

/-- Only a receiver for the schema accepts packets. -/
def AcceptsForSchema (build : Build) (schema : Schema) (channel : Channel) : Prop :=
  channel.accepted ≠ [] → channel.receiver.schemaHash = schemaHash build schema

theorem accepts_for_schema_step {event : ChannelEvent}
    (hsound : Sound build schema P first channel) (h : AcceptsForSchema build schema channel) :
    AcceptsForSchema build schema (step build schema channel event) := by
  cases event with
  | encode call =>
      obtain ⟨hreceiver, -, haccepted⟩ := @step_encode_receiver build schema channel call
      rw [AcceptsForSchema, hreceiver, haccepted]
      exact h
  | deliver i wireLimits =>
      cases hpacket : channel.sent[i]? with
      | none =>
          rw [step_deliver_none hpacket]
          exact h
      | some packet =>
          obtain ⟨sections, hencoded⟩ := hsound.encoded packet (List.mem_of_getElem? hpacket)
          cases hdecode : decodeSessionPacket build schema packet.bytes wireLimits
              channel.receiver with
          | error e receiver =>
              obtain ⟨rfl, -⟩ := decode_session_packet_error hencoded.length_le hdecode
              rw [step_deliver_error hpacket hdecode]
              exact h
          | ok decoded receiver =>
              obtain ⟨hhash, -, _, -, -, rfl⟩ := hencoded.decode_eq_ok.mp hdecode
              rw [step_deliver_ok hpacket hdecode]
              exact fun _ => hhash

theorem refuses_late_iff {event : ChannelEvent} (hsound : Sound build schema P first channel) :
    RefusesLate build schema channel event ↔ NoLateStep channel event := by
  cases event with
  | encode call => exact Iff.rfl
  | deliver i wireLimits =>
      constructor
      · intro hrefuses packet hpacket hlate
        obtain ⟨sections, hencoded⟩ := hsound.encoded packet (List.mem_of_getElem? hpacket)
        obtain ⟨previous, current, herror⟩ := hrefuses packet hpacket hlate
        exact (decode_session_packet_error hencoded.length_le herror).2 previous current rfl
      · intro hno packet hpacket hlate
        exact absurd hlate (hno packet hpacket)

theorem ignores_late_iff {event : ChannelEvent} (hsound : Sound build schema P first channel)
    (hschema : AcceptsForSchema build schema channel) :
    IgnoresLate build schema channel event ↔ LateUnfit channel event := by
  cases event with
  | encode call => exact Iff.rfl
  | deliver i wireLimits =>
      constructor
      · intro hignores packet hpacket hlate hfits haccept
        obtain ⟨sections, hencoded⟩ := hsound.encoded packet (List.mem_of_getElem? hpacket)
        have hhash := hschema (List.ne_nil_of_mem hlate.choose_spec.1)
        obtain ⟨e, herror⟩ := hignores packet hpacket hlate
        obtain ⟨decoded, receiver, hok⟩ := (hencoded.accepted_iff hhash).mpr ⟨hfits, haccept⟩
        rw [herror] at hok
        cases hok
      · intro hunfit packet hpacket hlate
        obtain ⟨sections, hencoded⟩ := hsound.encoded packet (List.mem_of_getElem? hpacket)
        have hhash := hschema (List.ne_nil_of_mem hlate.choose_spec.1)
        cases hdecode : decodeSessionPacket build schema packet.bytes wireLimits
            channel.receiver with
        | error e receiver =>
            obtain ⟨rfl, -⟩ := decode_session_packet_error hencoded.length_le hdecode
            exact ⟨e, rfl⟩
        | ok decoded receiver =>
            obtain ⟨hfits, haccept⟩ := (hencoded.accepted_iff hhash).mp ⟨decoded, receiver, hdecode⟩
            exact absurd haccept (hunfit packet hpacket hlate hfits)

end Channel

/-- In a run in which packets may arrive late or again, a late packet is never refused for its
order. It is refused at all exactly if its distances lead out of the range of ticks or its payload
is refused. -/
theorem late_packets_refused_iff {components : List ComponentDef}
    (hschema : Schema.new components = .ok schema) {first : SnapshotTick} {receiver : SessionState}
    {events : List ChannelEvent} (hcalls : ∀ event ∈ events, event.Calls SessionCall.OnBuffer) :
    (Throughout (Channel.step build schema) (Channel.RefusesLate build schema)
        (Channel.start first receiver) events
      ↔ Throughout (Channel.step build schema) Channel.NoLateStep
        (Channel.start first receiver) events)
    ∧ (Throughout (Channel.step build schema) (Channel.IgnoresLate build schema)
        (Channel.start first receiver) events
      ↔ Throughout (Channel.step build schema) Channel.LateUnfit (Channel.start first receiver)
        events) := by
  have hvalid := (schema_new_eq_ok.mp hschema).2
  have hrun : Throughout (Channel.step build schema) (fun _ event =>
      event.Calls SessionCall.OnBuffer) (Channel.start first receiver) events :=
    throughout_of_forall hcalls
  have hstart :
      Channel.Sound build schema SessionCall.OnBuffer first (Channel.start first receiver) :=
    Channel.sound_start receiver
  constructor
  · exact hrun.iff hstart
      (fun _ _ hevent hsound => Channel.sound_step hvalid (fun _ h => h) hevent hsound)
      fun _ _ _ hsound => Channel.refuses_late_iff hsound
  · refine @Throughout.iff _ _ _ _ _ _ _ _ (fun channel =>
      Channel.Sound build schema SessionCall.OnBuffer first channel
        ∧ Channel.AcceptsForSchema build schema channel)
      hrun ⟨hstart, fun h => absurd rfl h⟩ ?_ ?_
    · intro channel event hevent ⟨hsound, haccepts⟩
      exact ⟨Channel.sound_step hvalid (fun _ h => h) hevent hsound,
        Channel.accepts_for_schema_step hsound haccepts⟩
    · intro channel event _ ⟨hsound, haccepts⟩
      exact Channel.ignores_late_iff hsound haccepts

/-- A packet for the last tick of all that arrives twice. -/
def lastTickEvents : List ChannelEvent :=
  [.encode (goldenCall 4294967295 5 goldenEntities goldenChanged), .deliver 0 .unlimited,
    .deliver 0 .unlimited]

/-- The packet for the last tick of all. -/
def lastTickPacket : SentPacket :=
  ⟨goldenCall 4294967295 5 goldenEntities goldenChanged, ⟨5⟩,
    [2, 250, 255, 255, 255, 15, 250, 255, 255, 255, 15, 10, 5, 8, 1, 3, 10, 3, 8, 3, 236, 128]⟩

/-- Without late packets none is accepted. A packet that leads out of the range of ticks when it
arrives again is refused, but not for its order. -/
theorem late_packets_refused_iff_replay :
    Throughout (Channel.step (goldenBuild false) goldenSchema)
        (Channel.RefusesLate (goldenBuild false) goldenSchema)
        (Channel.start ⟨5⟩ (goldenReceiver 5)) goldenTraffic
      ∧ (¬ Throughout (Channel.step (goldenBuild false) goldenSchema)
        (Channel.RefusesLate (goldenBuild false) goldenSchema)
        (Channel.start ⟨5⟩ (goldenReceiver 5)) lastTickEvents)
      ∧ Throughout (Channel.step (goldenBuild false) goldenSchema)
        (Channel.IgnoresLate (goldenBuild false) goldenSchema)
        (Channel.start ⟨5⟩ (goldenReceiver 5)) lastTickEvents := by
  have hcalls : ∀ event ∈ lastTickEvents, event.Calls SessionCall.OnBuffer := by
    intro event hevent
    rw [lastTickEvents, List.mem_cons, List.mem_pair] at hevent
    rcases hevent with rfl | rfl | rfl
    · exact (by decide : 32 ≤ isizeMax)
    · trivial
    · trivial
  have hsent : Channel.step (goldenBuild false) goldenSchema (Channel.start ⟨5⟩ (goldenReceiver 5))
      (.encode (goldenCall 4294967295 5 goldenEntities goldenChanged))
      = ⟨⟨4294967295⟩, [lastTickPacket], goldenReceiver 5, 0, []⟩ := by decide +kernel
  have harrives : Channel.step (goldenBuild false) goldenSchema
      ⟨⟨4294967295⟩, [lastTickPacket], goldenReceiver 5, 0, []⟩ (.deliver 0 .unlimited)
      = ⟨⟨4294967295⟩, [lastTickPacket], goldenReceiver 4294967295, 1, [lastTickPacket]⟩ := by
    decide +kernel
  have hlate : Channel.IsLate
      ⟨⟨4294967295⟩, [lastTickPacket], goldenReceiver 4294967295, 1, [lastTickPacket]⟩
      lastTickPacket := ⟨lastTickPacket, List.mem_singleton_self _, UInt32.le_refl _⟩
  obtain ⟨hrefuses, -⟩ := @late_packets_refused_iff (goldenBuild false) goldenSchema _
    golden_schema_new ⟨5⟩ (goldenReceiver 5) goldenTraffic golden_traffic_buffers
  obtain ⟨hrefusesLast, hignoresLast⟩ := @late_packets_refused_iff (goldenBuild false) goldenSchema
    _ golden_schema_new ⟨5⟩ (goldenReceiver 5) lastTickEvents hcalls
  refine ⟨hrefuses.mpr (throughout_golden_traffic.mpr ⟨trivial, trivial, ?_, trivial, ?_⟩), ?_, ?_⟩
  · rintro packet - ⟨earlier, hearlier, -⟩
    exact absurd hearlier List.not_mem_nil
  · rintro packet hpacket ⟨earlier, hearlier, hle⟩
    cases hpacket
    obtain rfl := List.mem_singleton.mp hearlier
    exact absurd hle (by decide)
  · rw [hrefusesLast]
    intro h
    simp only [lastTickEvents, throughout_cons, hsent, harrives] at h
    exact h.2.2.1 _ rfl hlate
  · rw [hignoresLast]
    simp only [lastTickEvents, throughout_cons, throughout_nil, hsent, harrives, and_true]
    refine ⟨trivial, ?_, ?_⟩
    · rintro packet - ⟨earlier, hearlier, -⟩
      exact absurd hearlier List.not_mem_nil
    · rintro packet hpacket - hfits
      cases hpacket
      exact absurd hfits.2 (by decide)

/-- The delta from `goldenEntities` to `goldenChanged` at tick 7, from a sender whose last tick is
5. -/
def replayedPacket : SentPacket :=
  ⟨goldenCall 7 5 goldenEntities goldenChanged, ⟨5⟩,
    [2, 2, 2, 10, 5, 8, 1, 3, 10, 3, 8, 3, 236, 128]⟩

/-- A packet that arrives twice. -/
def replayEvents : List ChannelEvent :=
  [.encode (goldenCall 7 5 goldenEntities goldenChanged), .deliver 0 .unlimited,
    .deliver 0 .unlimited]

/-- The packet for tick 7 is accepted again, as one for tick 9. -/
theorem replayed_packet_accepted :
    ¬ Throughout (Channel.step (goldenBuild false) goldenSchema)
        (Channel.RefusesLate (goldenBuild false) goldenSchema)
        (Channel.start ⟨5⟩ (goldenReceiver 5)) replayEvents
      ∧ ¬ Throughout (Channel.step (goldenBuild false) goldenSchema)
        (Channel.IgnoresLate (goldenBuild false) goldenSchema)
        (Channel.start ⟨5⟩ (goldenReceiver 5)) replayEvents := by
  have hsent : Channel.step (goldenBuild false) goldenSchema
      (Channel.step (goldenBuild false) goldenSchema (Channel.start ⟨5⟩ (goldenReceiver 5))
        (.encode (goldenCall 7 5 goldenEntities goldenChanged))) (.deliver 0 .unlimited)
      = ⟨⟨7⟩, [replayedPacket], goldenReceiver 7, 1, [replayedPacket]⟩ := by decide +kernel
  have hdecode :
      decodeSessionPacket (goldenBuild false) goldenSchema replayedPacket.bytes .unlimited
      (goldenReceiver 7)
      = .ok ⟨PacketHeader.deltaSnapshot (schemaHash (goldenBuild false) goldenSchema) 9 7 10,
          [⟨.entityUpdateSparsePacked, [1, 3, 10, 3, 8, 3, 236, 128]⟩]⟩ (goldenReceiver 9) := by
    decide +kernel
  have hlate : Channel.IsLate ⟨⟨7⟩, [replayedPacket], goldenReceiver 7, 1, [replayedPacket]⟩
      replayedPacket := ⟨replayedPacket, List.mem_singleton_self _, UInt32.le_refl _⟩
  constructor
  · intro h
    simp only [replayEvents, throughout_cons, hsent] at h
    obtain ⟨-, -, hdelivery, -⟩ := h
    obtain ⟨previous, current, herror⟩ := hdelivery _ rfl hlate
    rw [hdecode] at herror
    cases herror
  · intro h
    simp only [replayEvents, throughout_cons, hsent] at h
    obtain ⟨-, -, hdelivery, -⟩ := h
    obtain ⟨e, herror⟩ := hdelivery _ rfl hlate
    rw [hdecode] at herror
    cases herror

end Sdec
