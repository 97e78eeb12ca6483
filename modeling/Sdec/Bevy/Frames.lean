import Sdec.Bevy.Replicator
import Sdec.Format.WellFormed
import Sdec.Rust.Atomic

/-!
# Frames that fail

What a client is left with after a frame that it cannot apply. Read `failed_frame_unchanged_iff`
first: a frame is applied step by step and nothing is undone, so a failure leaves the client as it
was only where the steps before it had nothing to do. A compact frame moves the session on before
the delta is decoded.
-/

namespace Sdec.Bevy

open Rust Codec

variable {ε κ V : Type} [DecidableEq κ]

/-! ## Component updates -/

/-- The update of a component of a mapped entity. -/
structure MappedUpdate where
  entity : Entity
  component : DeltaUpdateComponent

/-- The component updates that `apply_delta_updates` makes, in its order. -/
def mappedUpdates (map : EntityMap) (updates : List DeltaUpdateEntity) : List MappedUpdate :=
  updates.flatMap fun update => (map.entity update.id).toList.flatMap fun entity =>
    update.components.map (MappedUpdate.mk entity)

/-- One of them. -/
def applyMapped (bevy : BevySchema ε κ V) (update : MappedUpdate) :
    Call (ApplyError ε) (World κ V) Unit :=
  bevy.applyComponentFields update.entity update.component.id update.component.fields

/-- What an update writes to the component of a type of an entity, up to the field that fails. -/
def writeTo (bevy : BevySchema ε κ V) (e : Entity) (k : κ) (component : V)
    (update : MappedUpdate) : V :=
  match bevy.adapterByComponent update.component.id with
  | none => component
  | some adapter =>
      if update.entity = e ∧ adapter.typeId = k then
        (adapter.applyFields update.component.fields).after component
      else component

/-- The updates that are tried: all of them, or those up to the first one that fails. -/
def attempted (bevy : BevySchema ε κ V) : World κ V → List MappedUpdate → List MappedUpdate
  | _, [] => []
  | world, update :: rest =>
      match applyMapped bevy update world with
      | .ok _ world => update :: attempted bevy world rest
      | .error _ _ => [update]

variable {bevy : BevySchema ε κ V} {world : World κ V} {e : Entity} {k : κ}

/-- The world after a component update. -/
theorem after_mapped (update : MappedUpdate) :
    (applyMapped bevy update).after world
      = match bevy.adapterByComponent update.component.id with
        | none => world
        | some adapter => match world.get update.entity adapter.typeId with
            | none => world
            | some component => world.set update.entity adapter.typeId
                ((adapter.applyFields update.component.fields).after component) := by
  unfold applyMapped BevySchema.applyComponentFields BevySchema.knownAdapter
  rw [after_bind]
  cases bevy.adapterByComponent update.component.id with
  | none => rfl
  | some adapter =>
      show (adapter.applyUpdate update.entity update.component.fields).after world = _
      dsimp only
      cases hget : world.get update.entity adapter.typeId with
      | none => exact after_of_error (ComponentAdapter.apply_update_of_none hget _)
      | some component =>
          rw [after_congr (ComponentAdapter.apply_update_of_some hget _), after_focus,
            after_map_err]

/-- A component update writes the component that it names, and nothing else. -/
theorem get_after_mapped (update : MappedUpdate) :
    ((applyMapped bevy update).after world).get e k
      = (world.get e k).map fun component => writeTo bevy e k component update := by
  rw [after_mapped]
  unfold writeTo
  cases bevy.adapterByComponent update.component.id with
  | none => exact Option.map_id'.symm
  | some adapter =>
      dsimp only
      cases hget : world.get update.entity adapter.typeId with
      | none =>
          dsimp only
          by_cases hcell : update.entity = e ∧ adapter.typeId = k
          · rw [hcell.1, hcell.2] at hget
            rw [hget]
            rfl
          · simp only [if_neg hcell]
            exact Option.map_id'.symm
      | some component =>
          dsimp only
          rw [World.get_set (World.ne_none_of_get (Option.ne_none_iff_exists'.mpr ⟨_, hget⟩))]
          by_cases hcell : update.entity = e ∧ adapter.typeId = k
          · rw [if_pos ⟨hcell.1.symm, hcell.2.symm⟩, ← hcell.1, ← hcell.2, hget]
            simp
          · rw [if_neg fun h => hcell ⟨h.1.symm, h.2.symm⟩]
            simp only [if_neg hcell]
            exact Option.map_id'.symm

/-- A component update makes no entity and removes none. -/
theorem live_after_mapped (update : MappedUpdate) :
    ((applyMapped bevy update).after world).entities e = none ↔ world.entities e = none := by
  rw [after_mapped]
  cases bevy.adapterByComponent update.component.id with
  | none => exact Iff.rfl
  | some adapter =>
      dsimp only
      cases world.get update.entity adapter.typeId with
      | none => exact Iff.rfl
      | some component =>
          dsimp only
          refine ⟨fun h => ?_, fun h => ?_⟩
          · by_contra hlive
            exact World.set_ne_none hlive h
          · by_cases he : e = update.entity
            · unfold World.set
              dsimp only
              rw [← he, Function.update_self, h]
              rfl
            · exact (World.set_of_ne he).trans h

/-- The components after a loop of component updates, which stops at the first one that fails. -/
theorem get_after_updates (updates : List MappedUpdate) :
    ((updates.forM (applyMapped bevy)).after world).get e k
      = (world.get e k).map fun component =>
        (attempted bevy world updates).foldl (writeTo bevy e k) component := by
  induction updates generalizing world with
  | nil => exact Option.map_id'.symm
  | cons update updates ih =>
      have hfirst := @get_after_mapped ε κ V _ bevy world e k update
      unfold attempted
      rw [List.forM, after_bind]
      unfold Call.after at hfirst
      cases hrun : applyMapped bevy update world with
      | ok u next =>
          rw [hrun] at hfirst
          dsimp only at hfirst ⊢
          rw [ih, hfirst, Option.map_map]
          rfl
      | error fault next =>
          rw [hrun] at hfirst
          exact hfirst

theorem live_after_updates (updates : List MappedUpdate) :
    ((updates.forM (applyMapped bevy)).after world).entities e = none
      ↔ world.entities e = none := by
  refine forM_keeps (p := fun next : World κ V => next.entities e = none ↔ world.entities e = none)
    ?_ Iff.rfl
  intro update _ next h
  exact (live_after_mapped update).trans h

/-! ## The loops of `apply_changes` -/

/-- The updates of a delta are the component updates of its mapped entities. -/
theorem apply_delta_updates_eq (updates : List DeltaUpdateEntity) (replica : Replica κ V) :
    applyDeltaUpdates bevy updates replica
      = onWorld ((mappedUpdates replica.entities updates).forM (applyMapped bevy)) replica := by
  have hread : ∀ (world : World κ V) (replica : Replica κ V),
      (replica.withWorld world).world = world := fun _ _ => rfl
  induction updates generalizing replica with
  | nil => exact (focus_pure (fun _ => rfl) _ replica).symm
  | cons update updates ih =>
      have hone : applyDeltaUpdate bevy update replica
          = onWorld (((replica.entities.entity update.id).toList.flatMap fun entity =>
              update.components.map (MappedUpdate.mk entity)).forM (applyMapped bevy)) replica := by
        unfold applyDeltaUpdate onWorld
        rw [bind_apply, get_apply]
        cases hentity : replica.entities.entity update.id with
        | none =>
            simp only [hentity]
            exact (focus_pure (fun _ => rfl) _ replica).symm
        | some entity =>
            simp only [hentity]
            rw [Option.toList_some, List.flatMap_singleton, ← focus_forM hread (fun _ => rfl)
              (fun _ _ _ => rfl)]
            refine congrArg (fun loop => Call.focus Replica.world _ loop replica) ?_
            exact (List.forM_map (l := update.components) (g := MappedUpdate.mk entity)
              (f := applyMapped bevy)).symm
      have hmapped : mappedUpdates replica.entities (update :: updates)
          = ((replica.entities.entity update.id).toList.flatMap fun entity =>
              update.components.map (MappedUpdate.mk entity))
            ++ mappedUpdates replica.entities updates := List.flatMap_cons
      unfold applyDeltaUpdates at ih ⊢
      have happend (before after : List MappedUpdate) : (before ++ after).forM (applyMapped bevy)
          = before.forM (applyMapped bevy) >>= fun _ => after.forM (applyMapped bevy) :=
        List.forM_append
      rw [List.forM, hmapped, happend]
      unfold onWorld at ih hone ⊢
      rw [focus_bind hread (fun _ _ _ => rfl), bind_apply, bind_apply, hone]
      have hkept :=
        on_world_entities (((replica.entities.entity update.id).toList.flatMap fun entity =>
              update.components.map (MappedUpdate.mk entity)).forM (applyMapped bevy)) replica
      unfold onWorld Call.after at hkept
      cases hrun : Call.focus Replica.world Replica.withWorld
          (((replica.entities.entity update.id).toList.flatMap fun entity =>
            update.components.map (MappedUpdate.mk entity)).forM (applyMapped bevy)) replica with
      | ok u next =>
          rw [hrun] at hkept
          dsimp only at hkept ⊢
          rw [ih next]
          have hentities : next.entities = replica.entities := by rw [hkept]
          rw [hentities]
      | error fault next => rfl

variable {replica : Replica κ V} {creates : List EntitySnapshot} {destroys : List EntityId}
  {updates : List DeltaUpdateEntity}

omit [DecidableEq κ] in
theorem destroy_of_unmapped {destroy : EntityId} (h : replica.entities.toEntity destroy = none) :
    replica.destroy destroy = replica := by
  unfold Replica.destroy EntityMap.entity
  rw [h]

omit [DecidableEq κ] in
theorem destroys_of_unmapped (h : ∀ destroy ∈ destroys, replica.entities.toEntity destroy = none) :
    destroys.foldl Replica.destroy replica = replica := by
  induction destroys with
  | nil => rfl
  | cons destroy destroys ih =>
      rw [List.foldl_cons, destroy_of_unmapped (h destroy List.mem_cons_self)]
      exact ih fun other hother => h other (List.mem_cons_of_mem _ hother)

omit [DecidableEq κ] in
theorem next_entity_destroys :
    (destroys.foldl Replica.destroy replica).world.nextEntity = replica.world.nextEntity := by
  induction destroys generalizing replica with
  | nil => rfl
  | cons destroy destroys ih =>
      rw [List.foldl_cons, ih]
      unfold Replica.destroy
      cases replica.entities.entity destroy <;> rfl

omit [DecidableEq κ] in
/-- A destroyed id is not mapped afterwards. -/
theorem unmapped_destroys {id : EntityId}
    (h : id ∈ destroys ∨ replica.entities.toEntity id = none) :
    (destroys.foldl Replica.destroy replica).entities.toEntity id = none := by
  induction destroys generalizing replica with
  | nil => exact h.resolve_left List.not_mem_nil
  | cons destroy destroys ih =>
      refine ih ?_
      rw [List.mem_cons] at h
      by_cases hid : id = destroy
      · refine .inr ?_
        unfold Replica.destroy EntityMap.entity
        cases hmapped : replica.entities.toEntity destroy with
        | none => rwa [hid]
        | some entity =>
            show (replica.entities.unregister destroy).toEntity id = none
            rw [EntityMap.unregister_of_some hmapped, hid]
            exact Function.update_self _ _ _
      · refine h.imp (fun h => h.resolve_left hid) fun h => ?_
        unfold Replica.destroy EntityMap.entity
        cases hmapped : replica.entities.toEntity destroy with
        | none => exact h
        | some entity =>
            show (replica.entities.unregister destroy).toEntity id = none
            rw [EntityMap.unregister_of_some hmapped]
            exact (Function.update_of_ne hid _ _).trans h

/-- Inserting a component kills no entity. -/
theorem live_after_insert {entity : Entity} {id : ComponentId} {fields : List FieldValue}
    (h : world.entities e ≠ none) :
    ((bevy.insertComponentFields entity id fields).after world).entities e ≠ none := by
  unfold BevySchema.insertComponentFields
  refine bind_keeps (p := fun next : World κ V => next.entities e ≠ none) ?_
    fun adapter next hnext => ?_
  · cases bevy.knownAdapter id <;> exact h
  · unfold ComponentAdapter.insertComponent
    refine bind_keeps (p := fun next : World κ V => next.entities e ≠ none) ?_
      fun component next hnext => ?_
    · cases (adapter.fromFields fields).mapErr ApplyError.component <;> exact hnext
    · rw [after_bind, get_apply]
      by_cases hnone : (next.entities entity).isNone
      · simp only [if_pos hnone]
        exact hnext
      · simp only [if_neg hnone]
        exact World.set_ne_none hnext

/-- Creating an entity kills no entity, and the new one is alive. -/
theorem live_after_create {create : EntitySnapshot}
    (h : replica.world.entities e ≠ none ∨ e = replica.world.nextEntity) :
    ((applyCreate bevy create).after replica).world.entities e ≠ none := by
  unfold applyCreate
  rw [after_bind, get_apply]
  refine bind_keeps (p := fun next : Replica κ V => next.world.entities e ≠ none) ?_
    fun _ next hnext => ?_
  · show replica.world.spawnEmpty.entities e ≠ none
    by_cases heq : e = replica.world.nextEntity
    · rw [heq, World.spawn_empty_next]
      exact Option.some_ne_none _
    · rw [World.spawn_empty_of_ne heq]
      exact h.resolve_right heq
  · refine forM_keeps (p := fun next : Replica κ V => next.world.entities e ≠ none)
      (fun component _ next hnext => ?_) hnext
    rw [on_world_entities]
    exact live_after_insert hnext

/-- Where entities are created, the one that is spawned first is alive. -/
theorem live_after_creates (h : creates ≠ []) :
    ((creates.forM (applyCreate bevy)).after replica).world.entities replica.world.nextEntity
      ≠ none := by
  obtain ⟨create, rest, rfl⟩ := List.exists_cons_of_ne_nil h
  refine bind_keeps
    (p := fun next : Replica κ V => next.world.entities replica.world.nextEntity ≠ none)
    (live_after_create (.inr rfl)) fun _ next hnext => ?_
  exact forM_keeps
    (p := fun next : Replica κ V => next.world.entities replica.world.nextEntity ≠ none)
    (fun create _ next hnext => live_after_create (.inl hnext)) hnext

/-- A delta that a client can apply without a trace, as far as it gets: it creates nothing, destroys
nothing that is mapped, and every component that it writes ends with the value that it had. -/
structure LeavesNoTrace (bevy : BevySchema ε κ V) (replica : Replica κ V)
    (creates : List EntitySnapshot) (destroys : List EntityId) (updates : List DeltaUpdateEntity) :
    Prop where
  creates : creates = []
  destroys : ∀ destroy ∈ destroys, replica.entities.toEntity destroy = none
  updates : ∀ e k component, replica.world.get e k = some component →
    (attempted bevy replica.world (mappedUpdates replica.entities updates)).foldl (writeTo bevy e k)
      component = component

/-- The world and the map after a delta, whether it fails or not. -/
theorem apply_changes_unchanged_iff :
    (((applyChanges bevy creates destroys updates).after replica).world.entities
        = replica.world.entities
      ∧ ((applyChanges bevy creates destroys updates).after replica).entities = replica.entities)
    ↔ LeavesNoTrace bevy replica creates destroys updates := by
  unfold applyChanges
  rw [after_bind, apply_destroys_eq]
  dsimp only
  by_cases hcreates : creates = []
  -- without creates, the destroys must name unmapped ids and the updates write what is there
  · rw [hcreates]
    have hupdates : ∀ next : Replica κ V,
        ((([] : List EntitySnapshot).forM (applyCreate bevy) >>= fun _ =>
          applyDeltaUpdates bevy updates).after next)
        = ⟨((mappedUpdates next.entities updates).forM (applyMapped bevy)).after next.world,
          next.entities⟩ := by
      intro next
      show (applyDeltaUpdates bevy updates).after next = _
      rw [after_congr (apply_delta_updates_eq updates next), on_world_entities]
    rw [hupdates]
    dsimp only
    constructor
    · intro h
      have hdestroys : ∀ destroy ∈ destroys, replica.entities.toEntity destroy = none := by
        intro destroy hdestroy
        have hunmapped :
            (destroys.foldl Replica.destroy replica).entities.toEntity destroy = none :=
          unmapped_destroys (.inl hdestroy)
        rwa [h.2] at hunmapped
      rw [destroys_of_unmapped hdestroys] at h
      refine ⟨rfl, hdestroys, fun e k component hget => ?_⟩
      have hafter := @get_after_updates ε κ V _ bevy replica.world e k
        (mappedUpdates replica.entities updates)
      rw [World.get, h.1, ← World.get, hget] at hafter
      exact (Option.some.inj hafter).symm
    · intro h
      rw [destroys_of_unmapped h.destroys]
      refine ⟨World.entities_eq_of_get (fun e => live_after_updates _) fun e k => ?_, rfl⟩
      rw [get_after_updates]
      cases hget : replica.world.get e k with
      | none => rfl
      | some component => exact congrArg some (h.updates e k component hget)
  -- a created entity stays, whatever the updates do
  · refine iff_of_false (fun h => ?_) fun h => hcreates h.creates
    have hlive : ((creates.forM (applyCreate bevy) >>= fun _ =>
        applyDeltaUpdates bevy updates).after
          (destroys.foldl Replica.destroy replica)).world.entities
          replica.world.nextEntity ≠ none := by
      refine bind_keeps
        (p := fun next : Replica κ V => next.world.entities replica.world.nextEntity ≠ none) ?_
        fun _ next hnext => ?_
      · have hnext : (destroys.foldl Replica.destroy replica).world.nextEntity
            = replica.world.nextEntity := next_entity_destroys
        rw [← hnext]
        exact live_after_creates hcreates
      · rw [after_congr (apply_delta_updates_eq updates next), on_world_entities]
        exact fun hnone => hnext ((live_after_updates _).mp hnone)
    rw [h.1] at hlive
    exact hlive World.entities_next

/-! ## Frames -/

/-- The world, the entity map and the session are what they were. -/
structure Client.Unchanged (before after : Client ε κ V) : Prop where
  world : after.world.entities = before.world.entities
  entities : after.replicator.entities = before.replicator.entities
  session : after.replicator.session = before.replicator.session

omit [DecidableEq κ] in
theorem Client.Unchanged.refl (client : Client ε κ V) : client.Unchanged client := ⟨rfl, rfl, rfl⟩

variable {build : Build} {client : Client ε κ V}

/-- A packet leaves the session alone, and the rest where it is not a delta or the delta leaves no
trace. -/
theorem apply_packet_unchanged_iff (packet : Wire.WirePacket) :
    client.Unchanged ((applyPacket build packet).after client)
      ↔ ∀ decoded, decodeDeltaPacket build client.replicator.schema.schema packet
          client.replicator.limits = .ok decoded →
        LeavesNoTrace client.replicator.schema client.replica decoded.creates decoded.destroys
          decoded.updates := by
  unfold applyPacket
  rw [after_bind, get_apply]
  dsimp only
  rw [after_bind]
  cases decodeDeltaPacket build client.replicator.schema.schema packet client.replicator.limits with
  | error fault =>
      refine iff_of_true (Client.Unchanged.refl client) fun decoded h => ?_
      cases h
  | ok decoded =>
      have hchanges := @apply_changes_unchanged_iff ε κ V _ client.replicator.schema client.replica
        decoded.creates decoded.destroys decoded.updates
      show client.Unchanged ((Call.focus Client.replica Client.withReplica _).after client) ↔ _
      rw [after_focus]
      constructor
      · intro h other hother
        cases hother
        exact hchanges.mp ⟨h.world, h.entities⟩
      · intro h
        obtain ⟨hworld, hentities⟩ := hchanges.mpr (h decoded rfl)
        exact ⟨hworld, hentities, rfl⟩

theorem session_after_packet (packet : Wire.WirePacket) :
    ((applyPacket build packet).after client).replicator.session = client.replicator.session := by
  unfold applyPacket
  rw [after_bind, get_apply]
  dsimp only
  rw [after_bind]
  cases decodeDeltaPacket build client.replicator.schema.schema packet client.replicator.limits with
  | error fault => rfl
  | ok decoded =>
      show ((Call.focus Client.replica Client.withReplica _).after client).replicator.session = _
      rw [after_focus]
      rfl

/-- The receiver of compact packets refuses a packet before it moves the session on. -/
theorem decode_session_packet_atomic {schema : Schema} {bytes : List UInt8}
    {wireLimits : Wire.Limits} (session : SessionState) :
    AtomicAt session (decodeSessionPacket build schema bytes wireLimits) := by
  unfold decodeSessionPacket
  refine AtomicAt.get (AtomicAt.check fun _ => ?_)
  refine AtomicAt.after (ReadsOnlyAt.lift _) fun header _ => AtomicAt.check fun _ => ?_
  refine AtomicAt.after ⟨AtomicAt.of_steady (steady_usize_add _ _ _), fun payloadEnd s' h => ?_⟩
    fun payloadEnd _ => AtomicAt.check fun _ => ?_
  · unfold usizeAdd at h
    by_cases hle : header.headerLen + header.payloadLen.toNat ≤ usizeMax
    · rw [if_pos hle] at h
      cases h
      rfl
    · rw [if_neg hle] at h
      cases h
  · refine AtomicAt.after ⟨AtomicAt.of_steady (steady_slice _ _ _ _), fun payload s' h => ?_⟩
      fun payload _ => AtomicAt.after (ReadsOnlyAt.lift _) fun sections _ => ?_
    · unfold slice at h
      by_cases hle : header.headerLen ≤ payloadEnd ∧ payloadEnd ≤ bytes.length
      · rw [if_pos hle] at h
        cases h
        rfl
      · rw [if_neg hle] at h
        cases h
    · exact AtomicAt.of_steady ((steady_set _ _).bind fun _ _ _ => SteadyAt.pure _)

/-- The receiver of compact packets moves the session on with every packet that it accepts. -/
theorem decode_session_packet_advances {schema : Schema} {bytes : List UInt8}
    {wireLimits : Wire.Limits} {session session' : SessionState} {packet : Wire.WirePacket}
    (h : decodeSessionPacket build schema bytes wireLimits session = .ok packet session') :
    session.lastTick.raw < session'.lastTick.raw := by
  unfold decodeSessionPacket at h
  rw [bind_apply, get_apply] at h
  dsimp only at h
  obtain ⟨-, h⟩ := call_check_eq_ok.mp h
  obtain ⟨header, t, hheader, h⟩ := call_bind_eq_ok.mp h
  obtain rfl := (ReadsOnlyAt.lift _).2 header t hheader
  obtain ⟨hafter, h⟩ := call_check_eq_ok.mp h
  obtain ⟨payloadEnd, _, _, h⟩ := call_bind_eq_ok.mp h
  obtain ⟨-, h⟩ := call_check_eq_ok.mp h
  obtain ⟨payload, _, _, h⟩ := call_bind_eq_ok.mp h
  obtain ⟨sections, _, _, h⟩ := call_bind_eq_ok.mp h
  obtain ⟨_, _, hset, h⟩ := call_bind_eq_ok.mp h
  cases hset
  cases h
  exact UInt32.not_le.mp hafter

section Failed

variable {build : Build} {client client' : Client ε κ V} {bytes : List UInt8} {e : ApplyError ε}

/-- A frame that fails leaves the client as it was exactly when it is refused as a packet or as a
delta, or the part of the delta that was applied leaves no trace. -/
theorem apply_frame_unchanged_iff (h : applyFrame build bytes client = .error (.err e) client') :
    client.Unchanged client' ↔ ∀ packet decoded,
      Wire.decodePacket bytes client.replicator.wireLimits = .ok packet →
      decodeDeltaPacket build client.replicator.schema.schema packet client.replicator.limits
        = .ok decoded →
      LeavesNoTrace client.replicator.schema client.replica decoded.creates decoded.destroys
        decoded.updates := by
  rw [← after_of_error h]
  unfold applyFrame
  rw [after_bind, get_apply]
  dsimp only
  rw [after_bind]
  cases Wire.decodePacket bytes client.replicator.wireLimits with
  | error fault =>
      refine iff_of_true (Client.Unchanged.refl client) fun packet decoded hpacket => ?_
      cases hpacket
  | ok packet =>
      show client.Unchanged ((applyPacket build packet).after client) ↔ _
      rw [apply_packet_unchanged_iff]
      constructor
      · intro hdelta other decoded hother
        cases hother
        exact hdelta decoded
      · exact fun hdelta decoded => hdelta packet decoded rfl

variable {session session' : SessionState}

/-- A compact frame that the session refuses leaves the client as it was. -/
theorem compact_frame_refused {fault : Fault CodecError}
    (hsession : client.replicator.session = some session)
    (hrun : decodeSessionPacket build client.replicator.schema.schema bytes
      client.replicator.wireLimits session = .error fault session')
    (h : applyCompactFrame build bytes client = .error (.err e) client') :
    client.Unchanged client' := by
  unfold applyCompactFrame at h
  rw [bind_apply, get_apply] at h
  dsimp only at h
  rw [hsession] at h
  dsimp only at h
  rcases bind_eq_error.mp h with h | ⟨packet, next, hok, -⟩
  · obtain ⟨session'', hfault, rfl⟩ := focus_eq_error.mp h
    unfold Call.mapErr at hfault
    rw [hrun] at hfault
    cases fault with
    | panic => cases hfault
    | err error =>
        cases hfault
        -- The session is put back as it was.
        rw [decode_session_packet_atomic session _ _ hrun]
        exact ⟨rfl, rfl, hsession.symm⟩
  · obtain ⟨session'', hok, -⟩ := focus_eq_ok.mp hok
    unfold Call.mapErr at hok
    rw [hrun] at hok
    cases hok

/-- A packet that the session accepts moves it on, whatever becomes of the delta. -/
theorem compact_frame_moves {packet : Wire.WirePacket}
    (hsession : client.replicator.session = some session)
    (hrun : decodeSessionPacket build client.replicator.schema.schema bytes
      client.replicator.wireLimits session = .ok packet session')
    (h : applyCompactFrame build bytes client = .error (.err e) client') :
    ¬ client.Unchanged client' := by
  intro hunchanged
  unfold applyCompactFrame at h
  rw [bind_apply, get_apply] at h
  dsimp only at h
  rw [hsession] at h
  dsimp only at h
  have hmoved : client'.replicator.session = some session' := by
    rw [bind_apply, focus_of_ok (t := session') (a := packet)] at h
    · dsimp only at h
      rw [← after_of_error h, session_after_packet]
      rfl
    · unfold Call.mapErr
      rw [hrun]
  have hsame := hunchanged.session
  rw [hmoved, hsession] at hsame
  have hlt := decode_session_packet_advances hrun
  rw [Option.some.inj hsame] at hlt
  exact UInt32.lt_irrefl _ hlt

/-- A compact frame that fails leaves the client as it was exactly when there is no session, or the
session refuses the packet. -/
theorem apply_compact_frame_unchanged_iff
    (h : applyCompactFrame build bytes client = .error (.err e) client') :
    client.Unchanged client' ↔ ∀ session packet session',
      client.replicator.session = some session →
      decodeSessionPacket build client.replicator.schema.schema bytes client.replicator.wireLimits
        session ≠ .ok packet session' := by
  cases hsession : client.replicator.session with
  | none =>
      unfold applyCompactFrame at h
      rw [bind_apply, get_apply] at h
      dsimp only at h
      rw [hsession] at h
      cases h
      refine iff_of_true (Client.Unchanged.refl client) fun session packet session' hsome => ?_
      cases hsome
  | some session =>
      cases hrun : decodeSessionPacket build client.replicator.schema.schema bytes
          client.replicator.wireLimits session with
      | error fault session' =>
          refine iff_of_true (compact_frame_refused hsession hrun h)
            fun other packet other' hother => ?_
          cases hother
          rw [hrun]
          intro heq
          cases heq
      | ok packet session' =>
          exact iff_of_false (compact_frame_moves hsession hrun h) fun hno =>
            hno session packet session' rfl hrun

end Failed

/-- Neither function undoes what it has done. A frame that fails leaves the client as it was exactly
when it is refused as a packet or as a delta, or the part of the delta that was applied leaves no
trace. A compact frame that fails leaves the client as it was exactly when there is no session, or
the session refuses the packet: a packet that it accepts moves it on, whatever becomes of the
delta. -/
theorem failed_frame_unchanged_iff (build : Build) (client : Client ε κ V) (bytes : List UInt8) :
    (∀ e client', applyFrame build bytes client = .error (.err e) client' →
      (client.Unchanged client' ↔ ∀ packet decoded,
        Wire.decodePacket bytes client.replicator.wireLimits = .ok packet →
        decodeDeltaPacket build client.replicator.schema.schema packet client.replicator.limits
          = .ok decoded →
        LeavesNoTrace client.replicator.schema client.replica decoded.creates decoded.destroys
          decoded.updates))
    ∧ ∀ e client', applyCompactFrame build bytes client = .error (.err e) client' →
      (client.Unchanged client' ↔ ∀ session packet session',
        client.replicator.session = some session →
        decodeSessionPacket build client.replicator.schema.schema bytes client.replicator.wireLimits
          session ≠ .ok packet session') :=
  ⟨fun _ _ h => apply_frame_unchanged_iff h, fun _ _ h => apply_compact_frame_unchanged_iff h⟩

/-- A frame that creates the golden entities. -/
def goldenCreateFrame : List UInt8 :=
  [67, 69, 68, 83, 2, 0, 2, 0, 203, 95, 129, 138, 69, 190, 32, 147, 8, 0, 0, 0, 7, 0, 0, 0, 17, 0,
    0, 0, 1, 15] ++ [2, 3, 0, 0, 0, 255, 254, 227, 119, 0, 9, 0, 0, 0, 0]

/-- A client without entities, whose component type refuses all fields. -/
def refusingClient : Client Unit Unit (List FieldValue) where
  replicator := {
    schema := .sole { goldenAdapter with fromFields := fun _ => fail () }
    limits := goldenLimits
    wireLimits := .unlimited
    entities := .new
    session := none }
  world := .new

/-- The entity whose component could not be made is left in the world, without components. -/
theorem failed_create_leaves_entity :
    ¬ ∀ e client', applyFrame (goldenBuild false) goldenCreateFrame refusingClient
        = .error (.err e) client' → refusingClient.Unchanged client' := by
  intro h
  have hfails :
      (applyFrame (goldenBuild false) goldenCreateFrame).returnsErr refusingClient = true := by
    decide +kernel
  have hleft :
      (((applyFrame (goldenBuild false) goldenCreateFrame).after refusingClient).world.entities
      ⟨0⟩).isSome = true := by decide +kernel
  obtain ⟨e, hrun⟩ := exists_of_returns_err hfails
  rw [(h e _ hrun).world] at hleft
  cases hleft

end Sdec.Bevy
