import Mathlib.Data.Set.Finite.Basic
import Sdec.Bevy.Frames
import Sdec.BevyDemo.Position
import Sdec.RoundTrip.Reencode
import Sdec.Wire.Accepted

/-!
# Recovery of the client

What a full packet does to a client that has been through any packets before: bytes that no decoder
accepts, deltas that were lost or came out of order, deltas that failed halfway. Read
`full_packet_recovers` first.
-/

namespace Sdec.BevyDemo

open Rust Codec Bevy Runs

variable {ε κ V : Type} {bevy : BevySchema ε κ V} {replica : Replica κ V} {build : Build}
  {keys : MapIds} {limits : CodecLimits}

/-! ## The entity map through every packet -/

/-- The entities of a tended replica, as a snapshot that it mirrors. -/
theorem Tended.mirrors (h : Tended replica) :
    Mirrors bevy (fun b => ∃ e, replica.entities.toEntity b.id = some e
      ∧ b.components = bevy.snapshotEntity replica.world e) replica where
  inverse := h.inverse
  mapped id := by
    constructor
    · intro hb
      obtain ⟨b, ⟨e, he, _⟩, rfl⟩ := hb
      exact ⟨e, he⟩
    · intro he
      obtain ⟨e, he⟩ := he
      exact ⟨⟨id, bevy.snapshotEntity replica.world e⟩, ⟨e, he, rfl⟩, rfl⟩
  live b e _ he := h.live b.id e he
  reads b e hb he := by
    obtain ⟨e', he', hcomponents⟩ := hb
    cases he'.symm.trans he
    rw [hcomponents]
    exact List.Perm.refl _

/-- A client that mirrors a snapshot has a bijection between ids and live entities. -/
theorem tended_of_mirrors {snapshot : EntitySnapshot → Prop} (h : Mirrors bevy snapshot replica) :
    Tended replica := ⟨h.inverse, fun _ _ he => h.live_of_mapped he⟩

theorem Tended.destroys (bevy : BevySchema ε κ V) (h : Tended replica)
    (destroys : List EntityId) :
    Tended (destroys.foldl Replica.destroy replica) := by
  have hmirrors : Mirrors bevy _ replica := h.mirrors
  exact tended_of_mirrors (hmirrors.destroys destroys).1

variable [DecidableEq κ]

/-- The map after an entity is created, also where one of its components cannot be made. -/
theorem entities_after_create (bevy : BevySchema ε κ V) (create : EntitySnapshot)
    (replica : Replica κ V) :
    ((applyCreate bevy create).after replica).entities
      = replica.entities.register create.id replica.world.nextEntity := by
  unfold applyCreate
  rw [after_bind, get_apply]
  dsimp only
  rw [after_bind, set_apply]
  dsimp only
  rw [after_congr (on_world_forM _ _ _), on_world_entities]

theorem Tended.create (h : Tended replica) {create : EntitySnapshot}
    (hfree : replica.entities.toEntity create.id = none) :
    Tended ((applyCreate bevy create).after replica) := by
  have hmap := entities_after_create bevy create replica
  refine ⟨?_, fun id e he => ?_⟩
  · rw [hmap]
    refine (EntityMap.inverse_register_iff h.inverse).mpr
      ⟨fun other hother => ?_, fun other hother => ?_⟩
    · rw [h.inverse] at hother
      exact absurd World.entities_next (h.live other _ hother)
    · rw [hfree] at hother
      cases hother
  · refine live_after_create ?_
    rw [hmap] at he
    by_cases hid : id = create.id
    · rw [hid, EntityMap.register_self] at he
      exact .inr (Option.some.inj he).symm
    · rw [EntityMap.register_of_ne hid] at he
      exact .inl (h.live id e he)

/-- The loop that creates entities of unmapped ids, up to the one that cannot be made. -/
theorem Tended.creates (h : Tended replica) {creates : List EntitySnapshot}
    (hdistinct : creates.Pairwise fun a b => a.id ≠ b.id)
    (hfree : ∀ c ∈ creates, replica.entities.toEntity c.id = none) :
    Tended ((creates.forM (applyCreate bevy)).after replica) := by
  induction creates generalizing replica with
  | nil => exact h
  | cons c rest ih =>
      rw [List.pairwise_cons] at hdistinct
      rw [List.forall_mem_cons] at hfree
      have hfirst : Tended ((applyCreate bevy c).after replica) := h.create hfree.1
      have hmap := entities_after_create bevy c replica
      rw [List.forM, after_bind]
      unfold Call.after at hfirst hmap
      cases hrun : applyCreate bevy c replica with
      | error e next =>
          rw [hrun] at hfirst
          exact hfirst
      | ok _ next =>
          rw [hrun] at hfirst hmap
          refine ih hfirst hdistinct.2 fun c' hc' => ?_
          show next.entities.toEntity c'.id = none
          rw [hmap, EntityMap.register_of_ne (hdistinct.1 c' hc').symm]
          exact hfree.2 c' hc'

/-- Updates leave the map and the life of entities as they are. -/
theorem Tended.updates (h : Tended replica) (updates : List DeltaUpdateEntity) :
    Tended ((applyDeltaUpdates bevy updates).after replica) := by
  rw [after_congr (apply_delta_updates_eq updates replica), on_world_entities]
  exact ⟨h.inverse, fun id e he hnone => h.live id e he ((live_after_updates _).mp hnone)⟩

/-- A delta keeps the map a bijection with live entities, also where it fails, if the ids that it
creates are unmapped or destroyed. -/
theorem Tended.changes (h : Tended replica) {creates : List EntitySnapshot}
    {destroys : List EntityId} {updates : List DeltaUpdateEntity}
    (hdistinct : creates.Pairwise fun a b => a.id ≠ b.id)
    (hfree : ∀ c ∈ creates, c.id ∈ destroys ∨ replica.entities.toEntity c.id = none) :
    Tended ((Bevy.applyChanges bevy creates destroys updates).after replica) := by
  unfold Bevy.applyChanges
  rw [after_bind, apply_destroys_eq]
  refine bind_keeps (p := Tended) ((h.destroys bevy destroys).creates hdistinct fun c hc => ?_)
    fun _ next hnext => hnext.updates updates
  exact unmapped_destroys (hfree c hc)

/-- The ids that a compact packet creates are unmapped, or the packet destroys them. -/
def CreatesUnmapped (build : Build) (bevy : BevySchema ε κ V) (limits : CodecLimits)
    (client : ClientState κ V) (bytes : List UInt8) : Prop :=
  ∀ session packet session' decoded, client.session = some session →
    decodeSessionPacket build bevy.schema bytes .default session = .ok packet session' →
    decodeDeltaPacket build bevy.schema packet limits = .ok decoded →
    ∀ c ∈ decoded.creates, c.id ∈ decoded.destroys
      ∨ client.replica.entities.toEntity c.id = none

/-- The client after a packet, which it may have refused. -/
def ClientState.receive (build : Build) (keys : MapIds) (bevy : BevySchema ε κ V)
    (limits : CodecLimits) (client : ClientState κ V) (bytes : List UInt8) : ClientState κ V :=
  (applySdecPacket build keys bevy limits bytes).after client

/-! ## Packets -/

/-- A packet that the decoder of packets accepts starts with the magic number. -/
theorem starts_with_magic_of_decode {bytes : List UInt8} {wireLimits : Wire.Limits}
    {packet : Wire.WirePacket} (h : Wire.decodePacket bytes wireLimits = .ok packet) :
    startsWithMagic bytes = true := by
  obtain ⟨hsize, hmagic, -⟩ := Wire.decode_packet_header h
  have hfour : 4 ≤ bytes.length := Nat.le_trans (by decide) hsize
  unfold startsWithMagic
  rw [decide_eq_true hfour, hmagic]
  rfl

/-- What the client does with a compact packet that its session opens. -/
theorem apply_opened_packet {client : ClientState κ V} {session session' : SessionState}
    {bytes : List UInt8} {packet : Wire.WirePacket} (hsession : client.session = some session)
    (hopen : decodeSessionPacket build bevy.schema bytes .default session = .ok packet session') :
    applyCompactPacket build bevy limits bytes client
      = (((decodeDeltaPacket build bevy.schema packet limits).mapErr (ApplyError.codec (ε := ε)) :
          Call (ApplyError ε) (ClientState κ V) DeltaDecoded) >>= fun decoded => do
        Call.focus ClientState.replica ClientState.withReplica
          (Bevy.applyChanges bevy decoded.creates decoded.destroys decoded.updates)
        return .delta session'.lastTick) ⟨client.replica, some session'⟩ := by
  have hfocus : Call.focus (fun _ : ClientState κ V => session) ClientState.withSession
      (Call.mapErr (ApplyError.codec (ε := ε)) do
        let packet ← decodeSessionPacket build bevy.schema bytes .default
        let session ← get
        return (packet, session)) client
      = .ok (packet, session') ⟨client.replica, some session'⟩ := by
    unfold Call.focus Call.mapErr
    rw [bind_apply, hopen]
    rfl
  unfold applyCompactPacket
  rw [bind_apply, get_apply]
  dsimp only
  rw [hsession]
  dsimp only
  rw [bind_apply, hfocus]

/-- A compact packet that the session does not open leaves the world and the map alone. -/
theorem replica_after_refused {client : ClientState κ V} {session session' : SessionState}
    {bytes : List UInt8} {e : Fault CodecError} (hsession : client.session = some session)
    (hopen : decodeSessionPacket build bevy.schema bytes .default session = .error e session') :
    ((applyCompactPacket build bevy limits bytes).after client).replica = client.replica := by
  unfold applyCompactPacket
  rw [after_bind, get_apply]
  dsimp only
  rw [hsession]
  dsimp only
  rw [after_bind]
  unfold Call.focus Call.mapErr
  rw [bind_apply, hopen]
  rfl

/-- A full snapshot that was decoded is well-formed. -/
theorem decoded_full_well_formed {schema : Schema} (hvalid : schema.Valid)
    {packet : Wire.WirePacket} {snapshot : Snapshot}
    (h : decodeFullSnapshotFromPacket build schema packet limits = .ok snapshot) :
    Snapshot.WellFormed schema snapshot.entities :=
  ((@decode_full_packet_ensures build schema limits True hvalid (fun _ _ => trivial)
    packet).of_ok h).well_formed.2

section Runs

variable (hconsistent : ∀ adapter ∈ bevy.adapters, adapter.Consistent)
  (hfixed : ∀ adapter ∈ bevy.adapters, FixedFields adapter)
  {builder : BevySchemaBuilder ε κ V} (hbuild : builder.build = .ok bevy)

include hconsistent hfixed hbuild

/-- A tended client takes over every full packet that decodes. -/
theorem apply_full_packet_mirrors (keys : MapIds) {client : ClientState κ V}
    (h : Tended client.replica) {bytes : List UInt8} {snapshot : Snapshot}
    (hdecode : decodeFullSnapshot build bevy.schema bytes .default limits = .ok snapshot) :
    ∃ after, applySdecPacket build keys bevy limits bytes client = .ok (.full snapshot.tick) after
      ∧ after.session = client.session.map (fun state => { state with lastTick := snapshot.tick })
      ∧ Mirrors bevy (fun c => ∃ b ∈ snapshot.entities,
        c = ⟨b.id, overlay b.components (readAt bevy client.replica b.id)⟩) after.replica := by
  obtain ⟨packet, hpacket, hfull⟩ := bind_eq_ok.mp hdecode
  rw [map_err_eq_ok] at hpacket
  obtain ⟨replica, hrun, hmirrors⟩ := apply_well_formed_snapshot hconsistent hfixed keys hbuild h
    (decoded_full_well_formed (BevySchemaBuilder.build_eq_ok hbuild).2 hfull)
  refine ⟨⟨replica, client.session.map fun state => { state with lastTick := snapshot.tick }⟩, ?_,
    rfl, hmirrors⟩
  unfold applySdecPacket applyFullPacket
  rw [if_pos (starts_with_magic_of_decode hpacket), bind_apply, map_err_eq_ok.mpr hpacket]
  show ((liftM (Outcome.mapErr ApplyError.codec _) >>= _ :
    Call (ApplyError ε) (ClientState κ V) AppliedPacket)) client = _
  rw [bind_apply, map_err_eq_ok.mpr hfull]
  show ((Call.focus ClientState.replica ClientState.withReplica _ >>= _ :
    Call (ApplyError ε) (ClientState κ V) AppliedPacket)) client = _
  rw [bind_apply, focus_of_ok hrun]
  rfl

/-- A packet keeps the map a bijection with live entities, whatever its bytes are. -/
theorem Tended.receive {client : ClientState κ V} (h : Tended client.replica) {bytes : List UInt8}
    (hnew : CreatesUnmapped build bevy limits client bytes) :
    Tended (client.receive build keys bevy limits bytes).replica := by
  unfold ClientState.receive
  cases hdecode : decodeFullSnapshot build bevy.schema bytes .default limits with
  | ok snapshot =>
      obtain ⟨after, hrun, -, hmirrors⟩ :=
        apply_full_packet_mirrors hconsistent hfixed hbuild keys h hdecode
      rw [after_of_ok hrun]
      exact tended_of_mirrors hmirrors
  | error fault =>
      unfold applySdecPacket
      by_cases hmagic : startsWithMagic bytes = true
      · rw [if_pos hmagic]
        unfold applyFullPacket
        rw [after_bind]
        cases hpacket : Wire.decodePacket bytes .default with
        | error e => exact h
        | ok packet =>
            show Tended (Call.after ((liftM _ : Call (ApplyError ε) (ClientState κ V) _) >>= _)
              client).replica
            rw [after_bind]
            cases hfull : decodeFullSnapshotFromPacket build bevy.schema packet limits with
            | error e => exact h
            | ok snapshot =>
                rw [decodeFullSnapshot, hpacket] at hdecode
                cases hfull.symm.trans hdecode
      · rw [if_neg hmagic]
        cases hsession : client.session with
        | none =>
            unfold applyCompactPacket
            rw [after_bind, get_apply]
            dsimp only
            rw [hsession]
            exact h
        | some session =>
            cases hopen : decodeSessionPacket build bevy.schema bytes .default session with
            | error e session' =>
                rw [replica_after_refused hsession hopen]
                exact h
            | ok packet session' =>
                rw [after_eq_after (apply_opened_packet hsession hopen), after_bind]
                cases hdelta : decodeDeltaPacket build bevy.schema packet limits with
                | error e => exact h
                | ok decoded =>
                    have haccepted := (@decode_delta_packet_ensures build bevy.schema limits True
                      (BevySchemaBuilder.build_eq_ok hbuild).2 (fun _ _ => trivial)
                      packet).of_ok hdelta
                    refine bind_keeps (p := fun client : ClientState κ V => Tended client.replica)
                      ?_ fun _ _ h => h
                    rw [after_focus]
                    exact h.changes (ids_ne_of_ascending haccepted.createsAscend)
                      (hnew session packet session' decoded hsession hopen hdelta)

/-- The map stays a bijection with live entities through any packets. -/
theorem Tended.receives {client : ClientState κ V} (h : Tended client.replica)
    {packets : List (List UInt8)} (hnew : Throughout (ClientState.receive build keys bevy limits)
      (CreatesUnmapped build bevy limits) client packets) :
    Tended (packets.foldl (ClientState.receive build keys bevy limits) client).replica :=
  hnew.invariant h fun _ _ hnew h => Tended.receive hconsistent hfixed hbuild h hnew

end Runs

omit [DecidableEq κ] in
theorem tended_new : Tended (⟨.new, .new⟩ : Replica κ V) :=
  ⟨EntityMap.inverse_new, fun _ _ he => nomatch he⟩

/-- A full packet brings back a client that has been through any packets, which may have failed
halfway, as long as no delta created an id that the client had. The client then has the entities of
the snapshot, with its old components below theirs, and goes on from their tick. It mirrors the
snapshot unless one of its entities had a replicated component that the entity of the snapshot
lacks. -/
theorem full_packet_recovers (hconsistent : ∀ adapter ∈ bevy.adapters, adapter.Consistent)
    (hfixed : ∀ adapter ∈ bevy.adapters, FixedFields adapter)
    {builder : BevySchemaBuilder ε κ V} (hbuild : builder.build = .ok bevy)
    (session : Option SessionState) {packets : List (List UInt8)}
    (hnew : Throughout (ClientState.receive build keys bevy limits)
      (CreatesUnmapped build bevy limits) ⟨⟨.new, .new⟩, session⟩ packets)
    {client : ClientState κ V} (hclient : client
      = packets.foldl (ClientState.receive build keys bevy limits) ⟨⟨.new, .new⟩, session⟩)
    {bytes : List UInt8} {snapshot : Snapshot}
    (hdecode : decodeFullSnapshot build bevy.schema bytes .default limits = .ok snapshot) :
    ∃ after, applySdecPacket build keys bevy limits bytes client = .ok (.full snapshot.tick) after
      ∧ after.session = client.session.map (fun state => { state with lastTick := snapshot.tick })
      ∧ Mirrors bevy (fun c => ∃ b ∈ snapshot.entities,
        c = ⟨b.id, overlay b.components (readAt bevy client.replica b.id)⟩) after.replica
      ∧ (Mirrors bevy (· ∈ snapshot.entities) after.replica ↔ ∀ b ∈ snapshot.entities,
        ∀ c ∈ readAt bevy client.replica b.id, c.id ∈ b.components.map ComponentSnapshot.id) := by
  have htended : Tended client.replica := by
    rw [hclient]
    exact Tended.receives hconsistent hfixed hbuild tended_new hnew
  obtain ⟨after, hrun, hsession, hmirrors⟩ :=
    apply_full_packet_mirrors hconsistent hfixed hbuild keys htended hdecode
  exact ⟨after, hrun, hsession, hmirrors, overlaid_mirrors_iff hmirrors⟩

/-! ## The client of the demo -/

/-- A full packet has the position of each of its entities. -/
def GivesPositions (build : Build) (limits : CodecLimits) (bytes : List UInt8) : Prop :=
  ∀ snapshot, decodeFullSnapshot build demoSchema.schema bytes .default limits = .ok snapshot →
    ∀ b ∈ snapshot.entities, PositionYaw.COMPONENT_ID ∈ b.components.map ComponentSnapshot.id

/-- An entity of the demo has a position and nothing else that is replicated. -/
theorem position_of_read_at {replica : Replica Unit PositionYaw} {id : EntityId}
    {c : ComponentSnapshot} (h : c ∈ readAt demoSchema replica id) :
    c.id = PositionYaw.COMPONENT_ID := by
  unfold readAt at h
  split at h
  · obtain ⟨adapter, hadapter, _, -, rfl⟩ := mem_snapshot_entity.mp h
    rw [mem_demo_adapters.mp hadapter]
    rfl
  · cases h

/-- The client of the demo mirrors a full packet that has the position of each of its entities,
whatever it has been through. -/
theorem demo_client_recovers (session : Option SessionState) {packets : List (List UInt8)}
    (hnew : Throughout (ClientState.receive build keys demoSchema limits)
      (CreatesUnmapped build demoSchema limits) ⟨⟨.new, .new⟩, session⟩ packets)
    {client : ClientState Unit PositionYaw} (hclient : client
      = packets.foldl (ClientState.receive build keys demoSchema limits) ⟨⟨.new, .new⟩, session⟩)
    {bytes : List UInt8} (hgives : GivesPositions build limits bytes) {snapshot : Snapshot}
    (hdecode : decodeFullSnapshot build demoSchema.schema bytes .default limits = .ok snapshot) :
    ∃ after, applySdecPacket build keys demoSchema limits bytes client
        = .ok (.full snapshot.tick) after
      ∧ after.session = client.session.map (fun state => { state with lastTick := snapshot.tick })
      ∧ Mirrors demoSchema (· ∈ snapshot.entities) after.replica := by
  have htended : Tended client.replica := by
    rw [hclient]
    exact Tended.receives demo_schema_consistent demo_schema_fixed demo_schema_build tended_new hnew
  obtain ⟨after, hrun, hsession, hmirrors⟩ := apply_full_packet_mirrors demo_schema_consistent
    demo_schema_fixed demo_schema_build keys htended hdecode
  refine ⟨after, hrun, hsession, (overlaid_mirrors_iff hmirrors).mpr fun b hb c hc => ?_⟩
  rw [position_of_read_at hc]
  exact hgives snapshot hdecode b hb

/-! ## A component that stays -/

theorem finite_ids (map : EntityMap) : {id | map.toEntity id ≠ none}.Finite := by
  have hfinite : Finite EntityId := by
    refine Finite.of_injective (fun id => id.raw.toFin) fun a b h => ?_
    exact congrArg EntityId.mk (UInt32.toFin_inj.mp h)
  exact Set.toFinite _

/-- The ids of a map in some order. -/
noncomputable def someIds : MapIds where
  ids map := (finite_ids map).toFinset.toList
  mem_ids map id := by
    rw [Finset.mem_toList, Set.Finite.mem_toFinset]
    rfl

/-- The position of an entity of the demo, on the wire. -/
def demoPosition : ComponentSnapshot :=
  ⟨PositionYaw.COMPONENT_ID, [.fixedPoint 250, .fixedPoint (-100), .uint 17]⟩

/-- A full packet of the demo, of one entity with its position. -/
def demoFull : List UInt8 :=
  [67, 69, 68, 83, 2, 0, 1, 0, 203, 95, 129, 138, 69, 190, 32, 147, 5, 0, 0, 0, 0, 0, 0, 0, 14, 0,
    0, 0, 1, 12, 1, 3, 0, 0, 0, 246, 30, 105, 134, 60, 1, 16]

/-- A later one, of the same entity without it. -/
def demoWithout : List UInt8 :=
  [67, 69, 68, 83, 2, 0, 1, 0, 203, 95, 129, 138, 69, 190, 32, 147, 6, 0, 0, 0, 0, 0, 0, 0, 8, 0, 0,
    0, 1, 6, 1, 3, 0, 0, 0, 0]

theorem decode_demo_full : decodeFullSnapshot (goldenBuild false) demoSchema.schema demoFull
    .default goldenLimits = .ok ⟨⟨5⟩, [⟨⟨3⟩, [demoPosition]⟩]⟩ := by decide +kernel

theorem decode_demo_without : decodeFullSnapshot (goldenBuild false) demoSchema.schema demoWithout
    .default goldenLimits = .ok ⟨⟨6⟩, [⟨⟨3⟩, []⟩]⟩ := by decide +kernel

/-- The client mirrors the first packet. After the second one it still has the position of the
entity, which the snapshot does not have. -/
theorem full_packet_recovers_demo :
    (∃ first, applySdecPacket (goldenBuild false) someIds demoSchema goldenLimits demoFull
        ⟨⟨.new, .new⟩, none⟩ = .ok (.full ⟨5⟩) first
      ∧ Mirrors demoSchema (· ∈ [⟨⟨3⟩, [demoPosition]⟩]) first.replica)
    ∧ ∃ after, applySdecPacket (goldenBuild false) someIds demoSchema goldenLimits demoWithout
        ([demoFull].foldl (ClientState.receive (goldenBuild false) someIds demoSchema goldenLimits)
          ⟨⟨.new, .new⟩, none⟩) = .ok (.full ⟨6⟩) after
      ∧ ¬ Mirrors demoSchema (· ∈ [⟨⟨3⟩, []⟩]) after.replica := by
  have hnew : Throughout (ClientState.receive (goldenBuild false) someIds demoSchema goldenLimits)
      (CreatesUnmapped (goldenBuild false) demoSchema goldenLimits) ⟨⟨.new, .new⟩, none⟩
      [demoFull] := ⟨fun _ _ _ _ h => (nomatch h), trivial⟩
  have hstart : Throughout (ClientState.receive (goldenBuild false) someIds demoSchema goldenLimits)
      (CreatesUnmapped (goldenBuild false) demoSchema goldenLimits) ⟨⟨.new, .new⟩, none⟩ [] :=
    trivial
  have hnone : (⟨⟨.new, .new⟩, none⟩ : ClientState Unit PositionYaw) = [].foldl
      (ClientState.receive (goldenBuild false) someIds demoSchema goldenLimits)
      ⟨⟨.new, .new⟩, none⟩ := rfl
  obtain ⟨first, hfirst, -, -, hiff⟩ := full_packet_recovers demo_schema_consistent
    demo_schema_fixed demo_schema_build none hstart hnone decode_demo_full
  have hmirrors : Mirrors demoSchema (· ∈ [⟨⟨3⟩, [demoPosition]⟩]) first.replica :=
    hiff.mpr fun _ _ _ hc => absurd hc List.not_mem_nil
  have hclient : [demoFull].foldl (ClientState.receive (goldenBuild false) someIds demoSchema
      goldenLimits) ⟨⟨.new, .new⟩, none⟩ = first := by
    rw [List.foldl_cons, List.foldl_nil, ClientState.receive]
    exact after_of_ok hfirst
  obtain ⟨after, hrun, -, -, hiff⟩ := full_packet_recovers demo_schema_consistent
    demo_schema_fixed demo_schema_build none hnew hclient.symm decode_demo_without
  rw [hclient]
  refine ⟨⟨first, hfirst, hmirrors⟩, after, hrun, fun hsame => ?_⟩
  obtain ⟨e, he⟩ := (hmirrors.mapped ⟨3⟩).mp ⟨_, List.mem_singleton_self _, rfl⟩
  have hread : demoPosition ∈ readAt demoSchema first.replica ⟨3⟩ := by
    rw [read_at_of_some he]
    exact (hmirrors.reads _ e (List.mem_singleton_self _) he).mem_iff.mpr
      (List.mem_singleton_self _)
  exact absurd (hiff.mp hsame _ (List.mem_singleton_self _) _ hread) List.not_mem_nil

end Sdec.BevyDemo
