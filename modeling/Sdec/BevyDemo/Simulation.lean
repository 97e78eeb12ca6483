import Sdec.BevyDemo.Recovery
import Sdec.Safety.WellFormed

/-!
# The client of the demo and the codec

A client without a world, which keeps the snapshot that the codec makes of each packet, and the
client of the Bevy demo beside it. Read `client_mirrors_iff` last: as long as the codec accepts the
packets, the world mirrors the snapshot after every one of them, unless a full packet lacks a
component that an entity had before. For the one component of the demo that never happens if full
packets have the positions of their entities: `demo_client_mirrors`.
-/

namespace Sdec.BevyDemo

open Rust Codec Bevy Runs Sorted

/-! ## A client without a world -/

/-- What a client knows of the server: its last snapshot, and the session. -/
structure Holding where
  snapshot : Snapshot
  session : Option SessionState

/-- What the codec makes of a packet, if it accepts it. -/
def Holding.receive (build : Build) (schema : Schema) (limits : CodecLimits) (holding : Holding)
    (bytes : List UInt8) : Option Holding :=
  if startsWithMagic bytes then do
    let snapshot ← (decodeFullSnapshot build schema bytes .default limits).toOption
    return ⟨snapshot, holding.session.map fun state => { state with lastTick := snapshot.tick }⟩
  else do
    let session ← holding.session
    let opened ← ((decodeSessionPacket build schema bytes .default).runOn session).toOption
    let snapshot ← (applyDeltaSnapshotFromPacket build schema holding.snapshot opened.1
      limits).toOption
    return ⟨snapshot, some opened.2⟩

/-- A client of the demo and one without a world, which get the same packets. -/
structure Clients (κ V : Type) where
  holding : Holding
  client : ClientState κ V

variable {ε κ V : Type} [DecidableEq κ]

/-- Both clients after a packet. -/
def Clients.receive (build : Build) (keys : MapIds) (bevy : BevySchema ε κ V)
    (limits : CodecLimits) (clients : Clients κ V) (bytes : List UInt8) : Clients κ V where
  holding := (clients.holding.receive build bevy.schema limits bytes).getD clients.holding
  client := clients.client.receive build keys bevy limits bytes

/-- The world of one client mirrors the snapshot of the other, and their sessions are the same. -/
structure Clients.Agree (bevy : BevySchema ε κ V) (clients : Clients κ V) : Prop where
  mirrors : Mirrors bevy (· ∈ clients.holding.snapshot.entities) clients.client.replica
  session : clients.client.session = clients.holding.session

/-- The client of the demo takes a packet, and agrees with the other one after it. -/
def Clients.AgreeAfter (build : Build) (keys : MapIds) (bevy : BevySchema ε κ V)
    (limits : CodecLimits) (clients : Clients κ V) (bytes : List UInt8) : Prop :=
  (∃ applied, applySdecPacket build keys bevy limits bytes clients.client
      = .ok applied (clients.receive build keys bevy limits bytes).client)
    ∧ (clients.receive build keys bevy limits bytes).Agree bevy

/-- The codec accepts the packet. -/
def Clients.Accepts (build : Build) (bevy : BevySchema ε κ V) (limits : CodecLimits)
    (clients : Clients κ V) (bytes : List UInt8) : Prop :=
  clients.holding.receive build bevy.schema limits bytes ≠ none

/-- If the packet is a full one, its entities have all components that they had before. -/
def Clients.KeepsComponents (build : Build) (bevy : BevySchema ε κ V) (limits : CodecLimits)
    (clients : Clients κ V) (bytes : List UInt8) : Prop :=
  ∀ snapshot, decodeFullSnapshot build bevy.schema bytes .default limits = .ok snapshot →
    ∀ b ∈ snapshot.entities, ∀ old ∈ clients.holding.snapshot.entities, old.id = b.id →
      ∀ c ∈ old.components, c.id ∈ b.components.map ComponentSnapshot.id

/-! ## One packet -/

theorem to_option_eq_some {α : Type} {x : Outcome CodecError α} {a : α} :
    x.toOption = some a ↔ x = .ok a := by
  cases x with
  | ok b =>
      show some b = some a ↔ _
      rw [Option.some.injEq, Except.ok.injEq]
  | error e => exact ⟨fun h => (nomatch h), fun h => nomatch h⟩

variable {bevy : BevySchema ε κ V} {build : Build} {keys : MapIds} {limits : CodecLimits}
  {holding holding' : Holding} {bytes : List UInt8}

/-- What the codec makes of a packet that it accepts. -/
theorem Holding.receive_eq_some {schema : Schema} :
    holding.receive build schema limits bytes = some holding' ↔
      (startsWithMagic bytes = true ∧ ∃ snapshot,
        decodeFullSnapshot build schema bytes .default limits = .ok snapshot
          ∧ holding' = ⟨snapshot,
            holding.session.map fun state => { state with lastTick := snapshot.tick }⟩)
      ∨ (startsWithMagic bytes = false ∧ ∃ session packet session' snapshot,
        holding.session = some session
          ∧ decodeSessionPacket build schema bytes .default session = .ok packet session'
          ∧ applyDeltaSnapshotFromPacket build schema holding.snapshot packet limits = .ok snapshot
          ∧ holding' = ⟨snapshot, some session'⟩) := by
  unfold Holding.receive
  cases startsWithMagic bytes with
  | true =>
      rw [if_pos rfl]
      simp only [Option.bind_eq_bind, Option.bind_eq_some_iff, to_option_eq_some, true_and,
        Option.pure_def, Option.some.injEq, Bool.true_eq_false, false_and, or_false]
      exact exists_congr fun _ => and_congr_right fun _ => eq_comm
  | false =>
      rw [if_neg Bool.false_ne_true]
      simp only [Option.bind_eq_bind, Option.bind_eq_some_iff, to_option_eq_some, true_and,
        Option.pure_def, Option.some.injEq, Bool.false_eq_true, false_and, false_or]
      constructor
      · intro h
        obtain ⟨session, hsession, ⟨packet, session'⟩, hopen, snapshot, happly, rfl⟩ := h
        exact ⟨session, packet, session', snapshot, hsession, run_on_eq_ok.mp hopen, happly, rfl⟩
      · intro h
        obtain ⟨session, packet, session', snapshot, hsession, hopen, happly, rfl⟩ := h
        exact ⟨session, hsession, (packet, session'), run_on_eq_ok.mpr hopen, snapshot, happly, rfl⟩

omit [DecidableEq κ] in
/-- What an entity of a mirrored snapshot reads. -/
theorem forall_read_at {replica : Replica κ V} {entities : List EntitySnapshot}
    (h : Mirrors bevy (· ∈ entities) replica) (id : EntityId) (p : ComponentSnapshot → Prop) :
    (∀ c ∈ readAt bevy replica id, p c)
      ↔ ∀ old ∈ entities, old.id = id → ∀ c ∈ old.components, p c := by
  constructor
  · intro hall old hold hid c hc
    obtain ⟨e, he⟩ := (h.mapped id).mp ⟨old, hold, hid⟩
    have hread := h.reads old e hold (hid ▸ he)
    rw [read_at_of_some he] at hall
    exact hall c (hread.mem_iff.mpr hc)
  · intro hall c hc
    cases he : replica.entities.toEntity id with
    | none =>
        unfold readAt EntityMap.entity at hc
        rw [he] at hc
        exact absurd hc List.not_mem_nil
    | some e =>
        rw [read_at_of_some he] at hc
        obtain ⟨old, hold, hid⟩ := (h.mapped id).mpr ⟨e, he⟩
        exact hall old hold hid c ((h.reads old e hold (hid ▸ he)).mem_iff.mp hc)

section Runs

variable {clients : Clients κ V} (hconsistent : ∀ adapter ∈ bevy.adapters, adapter.Consistent)
  (hfixed : ∀ adapter ∈ bevy.adapters, FixedFields adapter)
  {builder : BevySchemaBuilder ε κ V} (hbuild : builder.build = .ok bevy)

include hconsistent hbuild

/-- A delta that the codec applies to the snapshot is applied to the world. -/
theorem apply_delta_agrees {baseline snapshot : Snapshot} {packet : Wire.WirePacket}
    {replica : Replica κ V} (hwf : Snapshot.WellFormed bevy.schema baseline.entities)
    (h : Mirrors bevy (· ∈ baseline.entities) replica)
    (happly : applyDeltaSnapshotFromPacket build bevy.schema baseline packet limits
      = .ok snapshot) :
    ∃ decoded after, decodeDeltaPacket build bevy.schema packet limits = .ok decoded
      ∧ Bevy.applyChanges bevy decoded.creates decoded.destroys decoded.updates replica
        = .ok () after
      ∧ Mirrors bevy (· ∈ snapshot.entities) after
      ∧ Snapshot.WellFormed bevy.schema snapshot.entities := by
  have hvalid := (BevySchemaBuilder.build_eq_ok hbuild).2
  obtain ⟨⟨hflags, hbaseline, -, hhash⟩, destroys, creates, updates, hsections, -, -, hpasses, -⟩ :=
    apply_delta_packet_passes.mp happly
  have hdecode : decodeDeltaPacket build bevy.schema packet limits
      = .ok ⟨⟨packet.header.tick⟩, ⟨packet.header.baselineTick⟩, destroys, creates, updates⟩ :=
    decode_delta_packet_eq_ok.mpr ⟨⟨hflags, hbaseline, hhash⟩, hsections, rfl, rfl⟩
  have haccepted := (@decode_delta_packet_ensures build bevy.schema limits True hvalid
    (fun _ _ => trivial) packet).of_ok hdecode
  obtain ⟨remaining, merged, hremaining, hmerged, -, hupdates⟩ := apply_passes_eq_ok.mp hpasses
  obtain ⟨-, hfresh, hascend, hmem⟩ := merged_survives hwf.ascending haccepted.destroysAscend
    haccepted.createsAscend hremaining hmerged
  -- the passes one after the other, as the codec makes them
  obtain ⟨created, hcreates, hcreated, -⟩ := (h.destroys destroys).1.creates
    (ids_ne_of_ascending haccepted.createsAscend) (fun c hc b hb => hfresh c hc b hb.1 hb.2)
    fun c hc => (creatable_of_well_formed hbuild (haccepted.createsAccepted c hc).wellFormed).makes
        hconsistent
  obtain ⟨after, hafter, hupdated, -⟩ := (hcreated.congr fun b => (hmem b).symm).updates hconsistent
    hascend (fun update hupdate component hcomponent => known_of_accepted hbuild
      ((haccepted.updates.accepted update hupdate).components component hcomponent)) hupdates
  refine ⟨_, after, hdecode, ?_, hupdated,
    (apply_passes_well_formed hvalid hwf haccepted hpasses).1⟩
  unfold Bevy.applyChanges
  rw [bind_apply, apply_destroys_eq]
  dsimp only
  rw [bind_apply, hcreates]
  exact hafter

include hfixed

/-- The clients agree after a packet that the codec accepts, unless it is a full one that lacks a
component. What the codec has is well-formed in any case. -/
theorem agree_after_iff (keys : MapIds) (h : clients.Agree bevy)
    (hwf : Snapshot.WellFormed bevy.schema clients.holding.snapshot.entities)
    (haccepts : clients.Accepts build bevy limits bytes) :
    (clients.AgreeAfter build keys bevy limits bytes
        ↔ clients.KeepsComponents build bevy limits bytes)
      ∧ Snapshot.WellFormed bevy.schema
        (clients.receive build keys bevy limits bytes).holding.snapshot.entities := by
  obtain ⟨holding', hreceive⟩ := Option.ne_none_iff_exists'.mp haccepts
  have hnext : (clients.receive build keys bevy limits bytes).holding = holding' := by
    unfold Clients.receive
    rw [hreceive]
    rfl
  rcases Holding.receive_eq_some.mp hreceive with ⟨-, snapshot, hdecode, rfl⟩ |
    ⟨hmagic, session, packet, session', snapshot, hsession, hopen, happly, rfl⟩
  · obtain ⟨after, hrun, hafter, hmirrors⟩ := apply_full_packet_mirrors hconsistent hfixed
      hbuild keys (tended_of_mirrors h.mirrors) hdecode
    have hclient : (clients.receive build keys bevy limits bytes).client = after :=
      after_of_ok hrun
    obtain ⟨packet, -, hfull⟩ := bind_eq_ok.mp hdecode
    refine ⟨?_, hnext ▸ decoded_full_well_formed (BevySchemaBuilder.build_eq_ok hbuild).2 hfull⟩
    have hmirrorsIff : Mirrors bevy (· ∈ snapshot.entities) after.replica
        ↔ clients.KeepsComponents build bevy limits bytes := by
      rw [overlaid_mirrors_iff hmirrors]
      simp only [forall_read_at h.mirrors]
      constructor
      · intro hkeeps other hother
        cases hdecode.symm.trans hother
        exact hkeeps
      · exact fun hkeeps => hkeeps snapshot hdecode
    rw [← hmirrorsIff]
    constructor
    · intro hagree
      have hmirrors' := hagree.2.mirrors
      rwa [hnext, hclient] at hmirrors'
    · intro hmirrors'
      refine ⟨⟨_, hclient ▸ hrun⟩, ?_, ?_⟩
      · rwa [hnext, hclient]
      · rw [hnext, hclient, hafter, h.session]
  · obtain ⟨decoded, after, hdecode, hrun, hmirrors, hafter⟩ :=
      apply_delta_agrees hconsistent hbuild hwf h.mirrors happly
    have hfocus : Call.focus ClientState.replica ClientState.withReplica
        (Bevy.applyChanges bevy decoded.creates decoded.destroys decoded.updates)
        ⟨clients.client.replica, some session'⟩ = .ok () ⟨after, some session'⟩ := focus_of_ok hrun
    have happlied : applySdecPacket build keys bevy limits bytes clients.client
        = .ok (.delta session'.lastTick) ⟨after, some session'⟩ := by
      unfold applySdecPacket
      rw [if_neg (by rw [hmagic]; exact Bool.false_ne_true),
        apply_opened_packet (h.session.trans hsession) hopen, bind_apply,
        map_err_eq_ok.mpr hdecode]
      show ((Call.focus ClientState.replica ClientState.withReplica _ >>= _ :
        Call (ApplyError ε) (ClientState κ V) AppliedPacket)) _ = _
      rw [bind_apply, hfocus]
      rfl
    have hclient : (clients.receive build keys bevy limits bytes).client
        = ⟨after, some session'⟩ := after_of_ok happlied
    refine ⟨iff_of_true ⟨⟨_, hclient ▸ happlied⟩, ?_, ?_⟩ fun other hother => ?_, hnext ▸ hafter⟩
    · rwa [hnext, hclient]
    · rw [hnext, hclient]
    · -- a compact packet is not a full one
      obtain ⟨packet, hpacket, -⟩ := bind_eq_ok.mp hother
      rw [starts_with_magic_of_decode (map_err_eq_ok.mp hpacket)] at hmagic
      cases hmagic

end Runs

/-- A client of the Bevy demo simulates a client that keeps the snapshots of the codec. Through any
packets that the codec accepts, each is applied and the world mirrors the snapshot after it, exactly
as long as no full packet lacks a component that one of its entities had before. -/
theorem client_mirrors_iff (hconsistent : ∀ adapter ∈ bevy.adapters, adapter.Consistent)
    (hfixed : ∀ adapter ∈ bevy.adapters, FixedFields adapter)
    {builder : BevySchemaBuilder ε κ V} (hbuild : builder.build = .ok bevy)
    {clients : Clients κ V} (hagree : clients.Agree bevy)
    (hwf : Snapshot.WellFormed bevy.schema clients.holding.snapshot.entities)
    {packets : List (List UInt8)} (haccepts : Throughout (Clients.receive build keys bevy limits)
      (Clients.Accepts build bevy limits) clients packets) :
    Throughout (Clients.receive build keys bevy limits)
        (Clients.AgreeAfter build keys bevy limits) clients packets
      ↔ Throughout (Clients.receive build keys bevy limits)
        (Clients.KeepsComponents build bevy limits) clients packets := by
  induction packets generalizing clients with
  | nil => exact Iff.rfl
  | cons bytes packets ih =>
      rw [throughout_cons] at haccepts
      obtain ⟨hiff, hnext⟩ := agree_after_iff hconsistent hfixed hbuild keys hagree hwf haccepts.1
      rw [throughout_cons, throughout_cons, ← hiff]
      exact and_congr_right fun hafter => ih hafter.2 hnext haccepts.2

/-- The client of the demo simulates the client that keeps snapshots, through any packets that the
codec accepts, if every full packet has the positions of its entities. -/
theorem demo_client_mirrors {clients : Clients Unit PositionYaw} (hagree : clients.Agree demoSchema)
    (hwf : Snapshot.WellFormed demoSchema.schema clients.holding.snapshot.entities)
    {packets : List (List UInt8)} (haccepts : Throughout
      (Clients.receive build keys demoSchema limits)
      (Clients.Accepts build demoSchema limits) clients packets)
    (hgives : ∀ bytes ∈ packets, GivesPositions build limits bytes) :
    Throughout (Clients.receive build keys demoSchema limits)
      (Clients.AgreeAfter build keys demoSchema limits) clients packets := by
  induction packets generalizing clients with
  | nil => trivial
  | cons bytes packets ih =>
      rw [throughout_cons] at haccepts
      rw [List.forall_mem_cons] at hgives
      obtain ⟨hiff, hnext⟩ := agree_after_iff demo_schema_consistent demo_schema_fixed
        demo_schema_build keys hagree hwf haccepts.1
      have hkeeps : clients.KeepsComponents build demoSchema limits bytes := by
        intro snapshot hdecode b hb
        rw [← forall_read_at hagree.mirrors]
        intro c hc
        rw [position_of_read_at hc]
        exact hgives.1 snapshot hdecode b hb
      have hafter := hiff.mpr hkeeps
      exact ⟨hafter, ih hafter.2 hnext haccepts.2 hgives.2⟩

/-! ## Two packets -/

/-- The session of a client of the demo. -/
def demoSession (lastTick : SnapshotTick) : SessionState :=
  ⟨schemaHash (goldenBuild false) demoSchema.schema, some 1, lastTick, .sessionV1⟩

/-- New clients of the demo. -/
def demoClients : Clients Unit PositionYaw :=
  ⟨⟨⟨⟨0⟩, []⟩, some (demoSession ⟨0⟩)⟩, ⟨⟨.new, .new⟩, some (demoSession ⟨0⟩)⟩⟩

/-- A compact packet that moves the entity in `demoFull`. -/
def demoCompact : List UInt8 := [2, 1, 1, 9, 5, 7, 1, 3, 1, 1, 88, 100, 96]

theorem receive_demo_full : demoClients.holding.receive (goldenBuild false) demoSchema.schema
    goldenLimits demoFull = some ⟨⟨⟨5⟩, [⟨⟨3⟩, [demoPosition]⟩]⟩, some (demoSession ⟨5⟩)⟩ :=
  Holding.receive_eq_some.mpr (.inl ⟨rfl, _, decode_demo_full, rfl⟩)

/-- The clients agree after the full packet and after the compact one. -/
theorem client_mirrors_iff_demo : Throughout
    (Clients.receive (goldenBuild false) someIds demoSchema goldenLimits)
    (Clients.AgreeAfter (goldenBuild false) someIds demoSchema goldenLimits) demoClients
    [demoFull, demoCompact] := by
  have hagree : demoClients.Agree demoSchema := by
    refine ⟨⟨EntityMap.inverse_new, fun id => iff_of_false (fun h => ?_) (fun h => ?_),
      fun b _ hb => absurd hb List.not_mem_nil, fun b _ hb => absurd hb List.not_mem_nil⟩, rfl⟩
    · obtain ⟨b, hb, -⟩ := h
      exact absurd hb List.not_mem_nil
    · obtain ⟨e, he⟩ := h
      cases he
  have hnext : (demoClients.receive (goldenBuild false) someIds demoSchema goldenLimits
      demoFull).holding = ⟨⟨⟨5⟩, [⟨⟨3⟩, [demoPosition]⟩]⟩, some (demoSession ⟨5⟩)⟩ := by
    unfold Clients.receive
    rw [receive_demo_full]
    rfl
  have haccepts : Throughout (Clients.receive (goldenBuild false) someIds demoSchema goldenLimits)
      (Clients.Accepts (goldenBuild false) demoSchema goldenLimits) demoClients
      [demoFull, demoCompact] := by
    refine ⟨?_, ?_, trivial⟩
    · unfold Clients.Accepts
      rw [receive_demo_full]
      exact Option.some_ne_none _
    · unfold Clients.Accepts
      rw [hnext]
      exact Option.ne_none_iff_isSome.mpr (by decide +kernel)
  refine (client_mirrors_iff demo_schema_consistent demo_schema_fixed demo_schema_build hagree
    ⟨List.Pairwise.nil, List.forall_mem_nil _⟩ haccepts).mpr ⟨?_, ?_, trivial⟩
  · exact fun _ _ _ _ old hold => absurd hold List.not_mem_nil
  · intro snapshot hdecode
    obtain ⟨packet, hpacket, -⟩ := bind_eq_ok.mp hdecode
    exact absurd (starts_with_magic_of_decode (map_err_eq_ok.mp hpacket)) (by decide)

end Sdec.BevyDemo
