import Sdec.Bevy.Replicator
import Sdec.Rust.Attempt

/-!
# The client of the Bevy demo

`apply_full_snapshot` and `apply_sdec_packet`, after `sdec-bevy-demo/src/main.rs`: what the client
does with a packet, which it tells apart by the magic number, and how it takes over a full snapshot
after a packet that it could not apply.
-/

namespace Sdec.BevyDemo

open Rust Codec Bevy

variable {ε κ V : Type} [DecidableEq κ]

/-! ## Full snapshots -/

/-- One iteration of the loop of `apply_full_snapshot` over the components of an entity. An update
that fails may have changed the component before it is made anew. -/
def syncComponent (bevy : BevySchema ε κ V) (entity : Entity) (component : ComponentSnapshot) :
    Call (ApplyError ε) (World κ V) Unit := do
  let fields := component.fields.zipIdx.map Prod.swap
  match ← Call.attempt (bevy.applyComponentFields entity component.id fields) with
  | some _ => return
  | none => bevy.insertComponentFields entity component.id component.fields

/-- `entities.entity(id).unwrap_or_else(..)`: the entity of an id, or a new one. -/
def mappedEntity (id : EntityId) : Call (ApplyError ε) (Replica κ V) Entity := do
  let replica ← get
  match replica.entities.entity id with
  | some entity => return entity
  | none =>
      let entity := replica.world.nextEntity
      set (Replica.mk replica.world.spawnEmpty (replica.entities.register id entity))
      return entity

/-- One iteration of the first loop of `apply_full_snapshot`. -/
def syncEntity (bevy : BevySchema ε κ V) (snapshot : EntitySnapshot) :
    Call (ApplyError ε) (Replica κ V) Unit := do
  let entity ← mappedEntity snapshot.id
  snapshot.components.forM fun component => onWorld (syncComponent bevy entity component)

/-- `EntityMap::ids`, which lists the ids of a map in the order of its hash map. -/
structure MapIds where
  ids : EntityMap → List EntityId
  mem_ids : ∀ map id, id ∈ ids map ↔ map.toEntity id ≠ none

/-- `apply_full_snapshot`. -/
def applyFullSnapshot (keys : MapIds) (bevy : BevySchema ε κ V) (snapshot : Snapshot) :
    Call (ApplyError ε) (Replica κ V) Unit := do
  snapshot.entities.forM (syncEntity bevy)
  let seen := snapshot.entities.map EntitySnapshot.id
  let replica ← get
  (keys.ids replica.entities).forM fun id => if id ∈ seen then return else applyDestroy id

/-! ## Packets -/

/-- `AppliedPacket`. -/
inductive AppliedPacket where
  | full (tick : SnapshotTick)
  | delta (tick : SnapshotTick)
  deriving DecidableEq, Repr

/-- `ClientState`, with the fields that applying a packet reads and writes. -/
structure ClientState (κ V : Type) where
  replica : Replica κ V
  session : Option SessionState

/-- A client with another world and entity map. -/
def ClientState.withReplica (replica : Replica κ V) (client : ClientState κ V) :
    ClientState κ V := ⟨replica, client.session⟩

/-- A client with another session. -/
def ClientState.withSession (session : SessionState) (client : ClientState κ V) :
    ClientState κ V := ⟨client.replica, some session⟩

/-- Whether bytes start with the magic number. -/
def startsWithMagic (bytes : List UInt8) : Bool :=
  decide (4 ≤ bytes.length) && UInt32.ofNat (leNat (bytes.take 4)) == Wire.MAGIC

/-- The branch of `apply_sdec_packet` for a packet with the magic number. -/
def applyFullPacket (build : Build) (keys : MapIds) (bevy : BevySchema ε κ V)
    (limits : CodecLimits) (bytes : List UInt8) :
    Call (ApplyError ε) (ClientState κ V) AppliedPacket := do
  let packet ← (Wire.decodePacket bytes .default).mapErr (ApplyError.wire (ε := ε))
  let snapshot ← (decodeFullSnapshotFromPacket build bevy.schema packet limits).mapErr
    (ApplyError.codec (ε := ε))
  Call.focus ClientState.replica ClientState.withReplica (applyFullSnapshot keys bevy snapshot)
  modify fun client => { client with
    session := client.session.map fun state => { state with lastTick := snapshot.tick } }
  return .full snapshot.tick

/-- The other branch, for a compact packet. -/
def applyCompactPacket (build : Build) (bevy : BevySchema ε κ V) (limits : CodecLimits)
    (bytes : List UInt8) : Call (ApplyError ε) (ClientState κ V) AppliedPacket := do
  let client ← get
  match client.session with
  | none => fail .sessionMissing
  | some session =>
      let (packet, session) ← Call.focus (fun _ => session) ClientState.withSession
        (Call.mapErr ApplyError.codec do
          let packet ← decodeSessionPacket build bevy.schema bytes .default
          let session ← get
          return (packet, session))
      let decoded ← (decodeDeltaPacket build bevy.schema packet limits).mapErr
        (ApplyError.codec (ε := ε))
      Call.focus ClientState.replica ClientState.withReplica
        (Bevy.applyChanges bevy decoded.creates decoded.destroys decoded.updates)
      return .delta session.lastTick

/-- `apply_sdec_packet`. -/
def applySdecPacket (build : Build) (keys : MapIds) (bevy : BevySchema ε κ V)
    (limits : CodecLimits) (bytes : List UInt8) :
    Call (ApplyError ε) (ClientState κ V) AppliedPacket :=
  if startsWithMagic bytes then applyFullPacket build keys bevy limits bytes
  else applyCompactPacket build bevy limits bytes

end Sdec.BevyDemo
