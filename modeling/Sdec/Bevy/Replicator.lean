import Sdec.Bevy.Apply
import Sdec.Codec.DeltaDecode
import Sdec.Codec.Session

/-!
# The replicator

`BevyReplicator::apply_frame` and `BevyReplicator::apply_compact_frame`, after
`sdec-bevy/src/replicator.rs`.
-/

namespace Sdec.Bevy

open Rust Codec

/-- `BevyReplicator`, with the fields that applying a frame reads and writes. -/
structure BevyReplicator (ε κ V : Type) where
  schema : BevySchema ε κ V
  limits : CodecLimits
  wireLimits : Wire.Limits
  entities : EntityMap
  session : Option SessionState

/-- A replicator and the world that it applies frames to. -/
structure Client (ε κ V : Type) where
  replicator : BevyReplicator ε κ V
  world : World κ V

variable {ε κ V : Type} [DecidableEq κ]

/-- The world and the entity map of a client. -/
def Client.replica (client : Client ε κ V) :
    Replica κ V := ⟨client.world, client.replicator.entities⟩

/-- A client with another world and entity map. -/
def Client.withReplica (replica : Replica κ V) (client : Client ε κ V) : Client ε κ V :=
  ⟨{ client.replicator with entities := replica.entities }, replica.world⟩

/-- A client with another session. -/
def Client.withSession (session : SessionState) (client : Client ε κ V) : Client ε κ V :=
  ⟨{ client.replicator with session := some session }, client.world⟩

/-- The end of both functions: the packet is decoded as a delta and applied. -/
def applyPacket (build : Build) (packet : Wire.WirePacket) :
    Call (ApplyError ε) (Client ε κ V) Unit := do
  let client ← get
  let bevy := client.replicator.schema
  let decoded ← (decodeDeltaPacket build bevy.schema packet client.replicator.limits).mapErr
    (ApplyError.codec (ε := ε))
  Call.focus Client.replica Client.withReplica
    (applyChanges bevy decoded.creates decoded.destroys decoded.updates)

/-- `BevyReplicator::apply_frame`. -/
def applyFrame (build : Build) (bytes : List UInt8) : Call (ApplyError ε) (Client ε κ V) Unit := do
  let client ← get
  let packet ← (Wire.decodePacket bytes client.replicator.wireLimits).mapErr
    (ApplyError.wire (ε := ε))
  applyPacket build packet

/-- `BevyReplicator::apply_compact_frame`. -/
def applyCompactFrame (build : Build) (bytes : List UInt8) :
    Call (ApplyError ε) (Client ε κ V) Unit := do
  let client ← get
  match client.replicator.session with
  | none => fail .sessionMissing
  | some session =>
      let packet ← Call.focus (fun _ => session) Client.withSession
        (Call.mapErr ApplyError.codec
          (decodeSessionPacket build client.replicator.schema.schema bytes
            client.replicator.wireLimits))
      applyPacket build packet

end Sdec.Bevy
