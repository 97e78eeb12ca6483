import Sdec.RoundTrip.Delta
import Sdec.RoundTrip.Full
import Sdec.Wire.Accepted

/-!
# Snapshots over a lossy channel

A sender that publishes snapshots and sends full snapshots and deltas in packets with the standard
header, and a receiver to which these packets come in any order, any number of times, or not at all.
Read `received_were_published` first. The sender may encode against any snapshot that it has
published, and the receiver may try any snapshot that it has decoded as the baseline of any packet:
the checks of the codec are enough for it never to decode anything but what was published. Where two
snapshots of one tick differed, or a field had a threshold, that would not hold.
-/

namespace Sdec

open Rust Bits Bitstream Codec Wire Sorted

variable {build : Build} {schema : Schema} {limits : CodecLimits} {wireLimits : Wire.Limits}

/-! ## What a packet that was written can be decoded to -/

/-- The sections of a full snapshot are decoded to its entities, or not at all. -/
theorem decode_full_sections_unique (hschema : schema.Valid) {entities result : List EntitySnapshot}
    {body : List UInt8} (hentities : Snapshot.WellFormed schema entities)
    (h : FullSections build schema limits entities body)
    (hdecode : decodeFullSections build schema limits none
      (sectionIf (!entities.isEmpty) ⟨.entityCreate, body⟩) = .ok result) : result = entities := by
  cases hcases : entities with
  | nil =>
      rw [hcases] at hdecode
      cases hdecode
      rfl
  | cons first rest =>
      rw [← hcases]
      have hne : entities ≠ [] := by
        rw [hcases]
        exact List.cons_ne_nil _ _
      have hsome : (!entities.isEmpty) = true := by
        rw [hcases]
        rfl
      have hlong := h.length_lt hne
      rw [hsome, sectionIf, if_pos rfl, decodeFullSections] at hdecode
      dsimp only at hdecode
      rw [check_fail_eq_ok] at hdecode
      obtain ⟨creates, hcreates, hdecode⟩ := bind_eq_ok.mp hdecode.2
      cases hdecode
      exact ((decode_full_create_section_eq_ok hschema
        (fun entity hentity => (hentities.entities entity hentity).shaped) h.encodes
        (ascend_from_none.mpr (List.pairwise_map.mpr hentities.ascending)) h.layout hlong
        (Nat.lt_of_le_of_lt (length_keyed_le h.layout) hlong)).mp hcreates).2.symm

/-- What is decoded from an encoded full snapshot, whatever the limits of the wire, is the snapshot,
and it is not decoded as a delta. -/
theorem decode_written_full (hschema : schema.Valid) {current : Snapshot}
    (hcurrent : Snapshot.WellFormed schema current.entities) {out out' : List UInt8} {n : Nat}
    (hlen : out.length ≤ isizeMax)
    (hencode : encodeFullSnapshot build schema current.tick current.entities limits out
      = .ok (n, out')) :
    (∀ s, decodeFullSnapshot build schema (out'.take n) wireLimits limits = .ok s → s = current)
      ∧ ∀ held s, applyDeltaSnapshot build schema held (out'.take n) wireLimits limits
        ≠ .ok s := by
  obtain ⟨body, hfacts, hbytes, hsize, hmax⟩ := encode_full_snapshot_ok hlen hencode
  have hpacket {packet : WirePacket} (h : decodePacket (out'.take n) wireLimits = .ok packet) :
      packet = ⟨PacketHeader.fullSnapshot (schemaHash build schema) current.tick.raw
        (UInt32.ofNat ((sectionIf (!current.entities.isEmpty) ⟨.entityCreate, body⟩).flatMap
          WireSection.bytes).length),
        sectionIf (!current.entities.isEmpty) ⟨.entityCreate, body⟩⟩ := by
    rw [hbytes] at h hsize
    exact (decode_packet_unique (by omega) (fun s hs => (hfacts.admits s hs).2) h).1
  constructor
  · intro s hdecode
    obtain ⟨packet, hdecoded, hdecode⟩ := bind_eq_ok.mp hdecode
    cases hpacket (map_err_eq_ok.mp hdecoded)
    obtain ⟨-, -, -, hsections, htick⟩ := decode_full_packet_eq_ok.mp hdecode
    have hentities := decode_full_sections_unique hschema hcurrent hfacts hsections
    obtain ⟨tick, entities⟩ := s
    cases htick
    cases hentities
    rfl
  · intro held s happly
    obtain ⟨packet, hdecoded, happly⟩ := bind_eq_ok.mp happly
    cases hpacket (map_err_eq_ok.mp hdecoded)
    have hflags : PacketFlags.fullSnapshot.isDeltaSnapshot :=
      (apply_delta_packet_eq_ok.mp happly).1.1
    exact absurd hflags (by decide)

/-- What is made of an encoded delta, whatever the limits of the wire, is made from a snapshot with
the tick of the baseline. From the baseline itself it is the current snapshot, where no field has a
threshold. The delta is not decoded as a full snapshot. -/
theorem apply_written_delta (hschema : schema.Valid)
    (hexact : schema.Exact)
    {baseline current : Snapshot} (hbaseline : Snapshot.WellFormed schema baseline.entities)
    (hcurrent : Snapshot.WellFormed schema current.entities) {out out' : List UInt8} {n : Nat}
    (hlen : out.length ≤ isizeMax)
    (hencode : EncodesDelta build schema limits current.tick baseline.tick baseline current out
      out' n) :
    (∀ held s, applyDeltaSnapshot build schema held (out'.take n) wireLimits limits = .ok s →
        held.tick = baseline.tick ∧ (held = baseline → s = current))
      ∧ ∀ s, decodeFullSnapshot build schema (out'.take n) wireLimits limits ≠ .ok s := by
  obtain ⟨sections, encoding, hfacts, hbytes, hsize, hmax⟩ := encodes_delta_ok hschema hlen hencode
  have hpacket {packet : WirePacket} (h : decodePacket (out'.take n) wireLimits = .ok packet) :
      packet = ⟨PacketHeader.deltaSnapshot (schemaHash build schema) current.tick.raw
        baseline.tick.raw (UInt32.ofNat (sections.flatMap WireSection.bytes).length),
        sections⟩ := by
    rw [hbytes] at h hsize
    exact (decode_packet_unique (by omega) (fun s hs => (hfacts.admits s hs).2) h).1
  constructor
  · intro held s happly
    obtain ⟨packet, hdecoded, happly⟩ := bind_eq_ok.mp happly
    cases hpacket (map_err_eq_ok.mp hdecoded)
    obtain ⟨⟨hflags, -, hbase, hhash⟩, _, _, _, _, _, hsections, -⟩ :=
      apply_delta_packet_eq_ok.mp happly
    refine ⟨congrArg SnapshotTick.mk hbase.symm, ?_⟩
    rintro rfl
    have hsorted :=
      ((decode_encoded_sections_eq_ok hschema hcurrent hfacts _).mp hsections).1.2
    have hresult := ((apply_encoded_sections_eq_ok hschema hcurrent hfacts hbaseline hflags hhash
      hbase hsorted).mp happly).2
    rw [hresult, reconstruct_of_exact hschema hexact hbaseline hcurrent]
    rfl
  · intro s hdecode
    obtain ⟨packet, hdecoded, hdecode⟩ := bind_eq_ok.mp hdecode
    cases hpacket (map_err_eq_ok.mp hdecoded)
    have hflags : PacketFlags.deltaSnapshot.isFullSnapshot :=
      (decode_full_packet_eq_ok.mp hdecode).1
    exact absurd hflags (by decide)

/-! ## The exchange -/

/-- What a sender has published and sent so far, and what the receiver has decoded. A packet that
has been sent stays there, since it may arrive again. -/
structure Exchange where
  published : List Snapshot
  sent : List (List UInt8)
  received : List Snapshot

/-- One call of the sender or of the receiver. -/
inductive Exchange.Step (build : Build) (schema : Schema) (limits : CodecLimits)
    (wireLimits : Wire.Limits) : Exchange → Exchange → Prop
  | publish {e : Exchange} {current : Snapshot}
      (wellFormed : Snapshot.WellFormed schema current.entities)
      (fresh : ∀ s ∈ e.published, s.tick ≠ current.tick) :
      Step build schema limits wireLimits e { e with published := current :: e.published }
  | sendFull {e : Exchange} {current : Snapshot} {out out' : List UInt8} {n : Nat}
      (known : current ∈ e.published) (room : out.length ≤ isizeMax)
      (encodes : encodeFullSnapshot build schema current.tick current.entities limits out
        = .ok (n, out')) :
      Step build schema limits wireLimits e { e with sent := out'.take n :: e.sent }
  | sendDelta {e : Exchange} {baseline current : Snapshot} {out out' : List UInt8} {n : Nat}
      (old : baseline ∈ e.published) (known : current ∈ e.published) (room : out.length ≤ isizeMax)
      (encodes : EncodesDelta build schema limits current.tick baseline.tick baseline current out
        out' n) :
      Step build schema limits wireLimits e { e with sent := out'.take n :: e.sent }
  | receiveFull {e : Exchange} {bytes : List UInt8} {s : Snapshot} (arrives : bytes ∈ e.sent)
      (decodes : decodeFullSnapshot build schema bytes wireLimits limits = .ok s) :
      Step build schema limits wireLimits e { e with received := s :: e.received }
  | receiveDelta {e : Exchange} {bytes : List UInt8} {held s : Snapshot} (arrives : bytes ∈ e.sent)
      (holds : held ∈ e.received)
      (applies : applyDeltaSnapshot build schema held bytes wireLimits limits = .ok s) :
      Step build schema limits wireLimits e { e with received := s :: e.received }

/-- A packet that comes from snapshots that have been published. -/
inductive Exchange.Sent (build : Build) (schema : Schema) (limits : CodecLimits)
    (published : List Snapshot) : List UInt8 → Prop
  | full {current : Snapshot} {out out' : List UInt8} {n : Nat} (known : current ∈ published)
      (room : out.length ≤ isizeMax)
      (encodes : encodeFullSnapshot build schema current.tick current.entities limits out
        = .ok (n, out')) :
      Sent build schema limits published (out'.take n)
  | delta {baseline current : Snapshot} {out out' : List UInt8} {n : Nat}
      (old : baseline ∈ published) (known : current ∈ published) (room : out.length ≤ isizeMax)
      (encodes : EncodesDelta build schema limits current.tick baseline.tick baseline current out
        out' n) :
      Sent build schema limits published (out'.take n)

theorem Exchange.Sent.mono {published more : List Snapshot} {bytes : List UInt8}
    (h : Sent build schema limits published bytes) (hmore : published ⊆ more) :
    Sent build schema limits more bytes := by
  cases h with
  | full known room encodes => exact .full (hmore known) room encodes
  | delta old known room encodes => exact .delta (hmore old) (hmore known) room encodes

/-- What holds after every step of an exchange. -/
structure Exchange.Faithful (build : Build) (schema : Schema) (limits : CodecLimits)
    (e : Exchange) : Prop where
  wellFormed : ∀ s ∈ e.published, Snapshot.WellFormed schema s.entities
  distinct : ∀ s ∈ e.published, ∀ s' ∈ e.published, s.tick = s'.tick → s = s'
  sent : ∀ bytes ∈ e.sent, Sent build schema limits e.published bytes
  received : ∀ s ∈ e.received, s ∈ e.published

/-- The exchange before the first step. -/
def Exchange.start : Exchange := ⟨[], [], []⟩

theorem Exchange.faithful_start : Exchange.Faithful build schema limits .start where
  wellFormed := List.forall_mem_nil _
  distinct := List.forall_mem_nil _
  sent := List.forall_mem_nil _
  received := List.forall_mem_nil _

/-- The receiver makes nothing of a packet but a snapshot that has been published. -/
theorem Exchange.Faithful.decoded (hschema : schema.Valid)
    (hexact : schema.Exact)
    {e : Exchange} (h : e.Faithful build schema limits) {bytes : List UInt8}
    (harrives : bytes ∈ e.sent) :
    (∀ s, decodeFullSnapshot build schema bytes wireLimits limits = .ok s → s ∈ e.published)
      ∧ ∀ held ∈ e.received, ∀ s, applyDeltaSnapshot build schema held bytes wireLimits limits
        = .ok s → s ∈ e.published := by
  cases h.sent bytes harrives with
  | full known room encodes =>
      obtain ⟨hfull, hdelta⟩ :=
        decode_written_full hschema (h.wellFormed _ known) room encodes
      refine ⟨fun s hs => ?_, fun held _ s hs => absurd hs (hdelta held s)⟩
      rw [hfull s hs]
      exact known
  | delta old known room encodes =>
      obtain ⟨hdelta, hfull⟩ := apply_written_delta hschema hexact (h.wellFormed _ old)
        (h.wellFormed _ known) room encodes
      refine ⟨fun s hs => absurd hs (hfull s), fun held hheld s hs => ?_⟩
      obtain ⟨htick, hsame⟩ := hdelta held s hs
      rw [hsame (h.distinct _ (h.received held hheld) _ old htick)]
      exact known

theorem Exchange.Faithful.step (hschema : schema.Valid)
    (hexact : schema.Exact)
    {e e' : Exchange} (h : e.Faithful build schema limits)
    (hstep : Step build schema limits wireLimits e e') : e'.Faithful build schema limits := by
  cases hstep with
  | @publish current wellFormed fresh =>
      refine ⟨List.forall_mem_cons.mpr ⟨wellFormed, h.wellFormed⟩, ?_, fun bytes hbytes =>
        (h.sent bytes hbytes).mono (List.subset_cons_self _ _), fun s hs =>
        List.mem_cons_of_mem _ (h.received s hs)⟩
      intro s hs s' hs' htick
      rcases List.mem_cons.mp hs with rfl | hold
      · rcases List.mem_cons.mp hs' with rfl | hold'
        · rfl
        · exact absurd htick.symm (fresh s' hold')
      · rcases List.mem_cons.mp hs' with rfl | hold'
        · exact absurd htick (fresh s hold)
        · exact h.distinct s hold s' hold' htick
  | sendFull known room encodes =>
      exact ⟨h.wellFormed, h.distinct,
        List.forall_mem_cons.mpr ⟨.full known room encodes, h.sent⟩, h.received⟩
  | sendDelta old known room encodes =>
      exact ⟨h.wellFormed, h.distinct,
        List.forall_mem_cons.mpr ⟨.delta old known room encodes, h.sent⟩, h.received⟩
  | receiveFull arrives decodes =>
      exact ⟨h.wellFormed, h.distinct, h.sent, List.forall_mem_cons.mpr
        ⟨(h.decoded hschema hexact arrives).1 _ decodes, h.received⟩⟩
  | receiveDelta arrives holds applies =>
      exact ⟨h.wellFormed, h.distinct, h.sent, List.forall_mem_cons.mpr
        ⟨(h.decoded hschema hexact arrives).2 _ holds _ applies, h.received⟩⟩

theorem Exchange.faithful_run (hschema : schema.Valid)
    (hexact : schema.Exact)
    {e : Exchange}
    (hrun : Relation.ReflTransGen (Step build schema limits wireLimits) .start e) :
    e.Faithful build schema limits := by
  induction hrun with
  | refl => exact faithful_start
  | tail _ hstep ih => exact ih.step hschema hexact hstep

variable {components : List ComponentDef} {e : Exchange}

/-- Whatever arrives, when, and in which order, and whatever baseline the receiver tries it on: all
that the receiver decodes has been published, with the tick and the entities with which it has been
published. -/
theorem received_were_published (hschema : Schema.new components = .ok schema)
    (hexact : schema.Exact)
    (hrun : Relation.ReflTransGen (Exchange.Step build schema limits wireLimits) .start e) :
    ∀ s ∈ e.received, s ∈ e.published :=
  (Exchange.faithful_run (schema_new_eq_ok.mp hschema).2 hexact hrun).received

/-- A truth value of one entity. -/
def flagEntity (value : Bool) : EntitySnapshot := ⟨⟨3⟩, [⟨⟨1, nonzero_one⟩, [.bool value]⟩]⟩

/-- A schema of one truth value. -/
def flagSchema : Schema where
  components := [{
    id := ⟨1, nonzero_one⟩
    fields := [{ id := ⟨1, nonzero_one⟩, codec := .bool, change := .always }] }]

theorem flag_schema_new : Schema.new flagSchema.components = .ok flagSchema := by decide

/-- The full snapshot of tick 5, in which the value is set. -/
def flagFull : List UInt8 :=
  [67, 69, 68, 83, 2, 0, 1, 0, 203, 95, 129, 138, 69, 190, 32, 147, 5, 0, 0, 0, 0, 0, 0, 0, 8, 0, 0,
    0, 1, 6, 1, 3, 0, 0, 0, 224]

/-- The delta from it to tick 6, in which the value is not set. -/
def flagDelta : List UInt8 :=
  [67, 69, 68, 83, 2, 0, 2, 0, 203, 95, 129, 138, 69, 190, 32, 147, 6, 0, 0, 0, 5, 0, 0, 0, 7, 0, 0,
    0, 5, 5, 1, 3, 1, 1, 0]

/-- The exchange after the receiver has decoded both. -/
def flagExchange : Exchange where
  published := [⟨⟨6⟩, [flagEntity false]⟩, ⟨⟨5⟩, [flagEntity true]⟩]
  sent := [flagDelta, flagFull]
  received := [⟨⟨6⟩, [flagEntity false]⟩, ⟨⟨5⟩, [flagEntity true]⟩]

theorem encodes_flag_delta : EncodesDelta (goldenBuild true) flagSchema goldenLimits ⟨6⟩ ⟨5⟩
    ⟨⟨5⟩, [flagEntity true]⟩ ⟨⟨6⟩, [flagEntity false]⟩ (List.replicate 42 0)
    (flagDelta ++ [3, 1, 1, 0, 0, 0, 0]) 35 :=
  .inr (by decide +kernel)

theorem run_flag_exchange : Relation.ReflTransGen
    (Exchange.Step (goldenBuild true) flagSchema goldenLimits .unlimited) .start flagExchange := by
  have hfull : encodeFullSnapshot (goldenBuild true) flagSchema ⟨5⟩ [flagEntity true] goldenLimits
      (List.replicate 40 0) = .ok (36, flagFull ++ [0, 0, 0, 224]) := by decide +kernel
  have hdecode : decodeFullSnapshot (goldenBuild true) flagSchema flagFull .unlimited goldenLimits
      = .ok ⟨⟨5⟩, [flagEntity true]⟩ := by decide +kernel
  have happly : applyDeltaSnapshot (goldenBuild true) flagSchema ⟨⟨5⟩, [flagEntity true]⟩ flagDelta
      .unlimited goldenLimits = .ok ⟨⟨6⟩, [flagEntity false]⟩ := by decide +kernel
  have hold : (⟨⟨5⟩, [flagEntity true]⟩ : Snapshot) ∈ flagExchange.published :=
    List.mem_cons_of_mem _ List.mem_cons_self
  have hlength : flagFull.length = 36 := rfl
  have hlengthDelta : flagDelta.length = 35 := rfl
  have hsendFull := @Exchange.Step.sendFull (goldenBuild true) flagSchema goldenLimits .unlimited
    ⟨flagExchange.published, [], []⟩ _ _ _ _ hold (by decide) hfull
  have hsendDelta := @Exchange.Step.sendDelta (goldenBuild true) flagSchema goldenLimits .unlimited
    ⟨flagExchange.published, [flagFull], []⟩ _ _ _ _ _ hold List.mem_cons_self (by decide)
    encodes_flag_delta
  rw [← hlength, List.take_left] at hsendFull
  rw [← hlengthDelta, List.take_left] at hsendDelta
  exact (((((Relation.ReflTransGen.single (.publish (by decide) (List.forall_mem_nil _))).tail
    (.publish (by decide) (by decide))).tail hsendFull).tail hsendDelta).tail
    (.receiveFull (List.mem_cons_of_mem _ List.mem_cons_self) hdecode)).tail
    (.receiveDelta List.mem_cons_self List.mem_cons_self happly)

theorem received_were_published_flag :
    (⟨⟨6⟩, [flagEntity false]⟩ : Snapshot) ∈ flagExchange.published :=
  received_were_published flag_schema_new (by simp [Schema.Exact, flagSchema]) run_flag_exchange _
    List.mem_cons_self

/-- A receiver makes something of a delta that has been sent exactly if it tries it on the baseline
that the delta was encoded against, whose tick is not zero, and the current snapshot is not too
large. What it makes is then the current snapshot. -/
theorem sent_delta_applies_iff (hschema : Schema.new components = .ok schema)
    (hexact : schema.Exact) (hreads : ReadsWhatItWrites build schema)
    (hids : components.Pairwise fun a b => a.id.get < b.id.get)
    (hrun : Relation.ReflTransGen (Exchange.Step build schema limits wireLimits) .start e)
    {baseline current : Snapshot} (hold : baseline ∈ e.published) (hknown : current ∈ e.published)
    {out out' : List UInt8} {n : Nat} (hlen : out.length ≤ isizeMax)
    (hencode : EncodesDelta build schema limits current.tick baseline.tick baseline current out
      out' n)
    (hn : n < 2 ^ 32) (haccept : wireLimits.Admit (out'.take n)) {held s : Snapshot}
    (hheld : held ∈ e.received) :
    applyDeltaSnapshot build schema held (out'.take n) wireLimits limits = .ok s ↔
      (held = baseline ∧ s = current) ∧ baseline.tick.raw ≠ 0
        ∧ current.entities.length ≤ limits.maxTotalEntitiesAfterApply := by
  obtain ⟨hsame, hvalid⟩ := schema_new_eq_ok.mp hschema
  have hfaithful := Exchange.faithful_run hvalid hexact hrun
  have hbaseline := hfaithful.wellFormed baseline hold
  have hcurrent := hfaithful.wellFormed current hknown
  obtain ⟨sections, encoding, hfacts, hbytes, hsize, hmax⟩ := encodes_delta_ok hvalid hlen hencode
  have hascend : encoding = .sparse → (diff build schema baseline current).updates ≠ [] →
      ComponentsAscend (diff build schema baseline current).updates :=
    fun _ _ => components_ascend_of_sorted (by rw [hsame]; exact hids) _ _
  have happly {header : PacketHeader} (hheader : header = PacketHeader.deltaSnapshot
      (schemaHash build schema) current.tick.raw baseline.tick.raw
      (UInt32.ofNat (sections.flatMap WireSection.bytes).length)) :
      applyDeltaSnapshotFromPacket build schema baseline ⟨header, sections⟩ limits = .ok s ↔
        s = current ∧ baseline.tick.raw ≠ 0
          ∧ current.entities.length ≤ limits.maxTotalEntitiesAfterApply := by
    subst hheader
    rw [apply_encoded_sections_eq_ok hvalid hcurrent hfacts hbaseline
      (by decide : PacketFlags.deltaSnapshot.isDeltaSnapshot) rfl rfl hascend,
      reconstruct_of_exact hvalid hexact hbaseline hcurrent]
    constructor
    · rintro ⟨⟨hnonzero, htotal, -⟩, rfl⟩
      exact ⟨rfl, hnonzero, htotal⟩
    · rintro ⟨rfl, hnonzero, htotal⟩
      exact ⟨⟨hnonzero, htotal, delta_readable_of_writes hreads hfacts⟩, rfl⟩
  rw [hbytes, List.length_append] at hsize
  constructor
  · intro h
    have htick := ((apply_written_delta hvalid hexact hbaseline hcurrent hlen hencode).1 held s h).1
    obtain rfl := hfaithful.distinct held (hfaithful.received held hheld) baseline hold htick
    obtain ⟨packet, hdecoded, h⟩ := bind_eq_ok.mp h
    have hdecoded := map_err_eq_ok.mp hdecoded
    rw [hbytes] at hdecoded
    obtain ⟨rfl, -⟩ := decode_packet_unique (by rw [List.length_append]; omega)
      (fun s hs => (hfacts.admits s hs).2) hdecoded
    obtain ⟨hsame, hrest⟩ := (happly rfl).mp h
    exact ⟨⟨rfl, hsame⟩, hrest⟩
  · rintro ⟨⟨rfl, rfl⟩, hnonzero, htotal⟩
    rw [hbytes] at haccept ⊢
    have hpacket :=
      decode_packet_of_sections (PacketHeader.delta_snapshot_valid (schemaHash build schema)
        s.tick.raw (UInt32.ofNat _) hnonzero) rfl (by omega)
        (fun s hs => (hfacts.admits s hs).2) haccept
    rw [applyDeltaSnapshot, hpacket]
    exact (happly rfl).mpr ⟨rfl, hnonzero, htotal⟩

theorem sent_delta_applies_iff_flag :
    applyDeltaSnapshot (goldenBuild true) flagSchema ⟨⟨5⟩, [flagEntity true]⟩
        ((flagDelta ++ [3, 1, 1, 0, 0, 0, 0]).take 35) .unlimited goldenLimits
      = .ok ⟨⟨6⟩, [flagEntity false]⟩ := by
  have hreads : ReadsWhatItWrites (goldenBuild true) flagSchema := by
    simp [ReadsWhatItWrites, flagSchema]
  exact (sent_delta_applies_iff flag_schema_new (by simp [Schema.Exact, flagSchema]) hreads
    (by decide) run_flag_exchange (List.mem_cons_of_mem _ List.mem_cons_self) List.mem_cons_self
    (by decide) encodes_flag_delta (by decide) (by decide +kernel)
    (List.mem_cons_of_mem _ List.mem_cons_self)).mpr ⟨⟨rfl, rfl⟩, by decide, by decide⟩

end Sdec
