import Sdec.Codec.Session
import Sdec.Rust.Attempt

/-!
# A receiver of arbitrary frames

The fuzz target `fuzz/fuzz_targets/session_packet.rs`: a receiver without a session is fed frames
cut from arbitrary bytes, each of which may start a session, be a compact packet for the session it
has, or be neither.
-/

namespace Sdec.Fuzz

open Rust Codec Wire

theorem one_ne_zero : (1 : UInt16) ≠ 0 := by decide

/-- `schema_one_bool`. -/
def schemaOneBool : Schema where
  components := [{
    id := ⟨1, one_ne_zero⟩
    fields := [{ id := ⟨1, one_ne_zero⟩, codec := .bool, change := .always }] }]

/-- The session after a frame that may start one. -/
def startFrame (build : Build) (schema : Schema) (limits : CodecLimits) (wireLimits : Wire.Limits)
    (session : Option SessionState) (frame : List UInt8) :
    Outcome CodecError (Option SessionState) := do
  match ← (decodePacket frame wireLimits).attempt with
  | some packet =>
      if packet.header.flags.isSessionInit then
        match ← (decodeSessionInitPacket build schema packet limits).attempt with
        | some state => return some state
        | none => return session
      else
        return session
  | none => return session

/-- What the body of the loop does with a frame. -/
def receiveFrame (build : Build) (schema : Schema) (limits : CodecLimits) (wireLimits : Wire.Limits)
    (session : Option SessionState) (frame : List UInt8) :
    Outcome CodecError (Option SessionState) := do
  match ← startFrame build schema limits wireLimits session frame with
  | some state =>
      let (_, state) ← (decodeSessionPacket build schema frame wireLimits).attempt.runOn state
      return some state
  | none =>
      if frame.length ≠ 0 then
        let _ ← (decodeSessionHeader frame 0).attempt
        return none
      else
        return none

/-- The loop over the data, which cuts it into frames. -/
def receiveLoop (build : Build) (data : List UInt8) :
    Nat → Nat → Option SessionState → Outcome CodecError (Option SessionState)
  | 0, _, _ => fault .panic
  | fuel + 1, idx, session => do
      if idx < data.length ∧ idx < 4096 then
        let len := min ((← index data idx).toNat % 120 + 1) usizeMax
        let idx ← usizeAdd idx 1
        let stop := min (← usizeAdd idx len) data.length
        let frame ← slice data idx stop
        let session ← receiveFrame build schemaOneBool .forTesting .forTesting session frame
        receiveLoop build data fuel stop session
      else
        return session

/-- The fuzz target, which returns the session that it ends with. -/
def sessionPacketTarget (build : Build) (data : List UInt8) :
    Outcome CodecError (Option SessionState) := do
  match ← receiveLoop build data (data.length + 1) 0 none with
  | some state =>
      let _ ← (decodeSessionPacket build schemaOneBool data .forTesting).attempt.evalOn state
      return some state
  | none => return none

end Sdec.Fuzz
