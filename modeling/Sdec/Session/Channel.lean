import Sdec.Session.Compact
import Sdec.Runs.Throughout

/-!
# The compact channel

A sender and a receiver of compact packets with a channel between them that may lose, delay, repeat
and reorder what was sent. `Channel.step` is one call of the session encoder or one delivery, and
`Channel.sound_start` and `Channel.sound_step` what holds of the packets in every run.
-/

namespace Sdec

open Rust Codec Wire Runs

/-- The arguments of a call of the session encoder. -/
structure SessionCall where
  tick : SnapshotTick
  baselineTick : SnapshotTick
  baseline : Snapshot
  current : Snapshot
  limits : CodecLimits
  out : List UInt8
  deriving DecidableEq

/-- The compact encoder on the arguments, and the last tick of the sender. -/
def SessionCall.encode (call : SessionCall) (build : Build) (schema : Schema) :
    Call CodecError SnapshotTick (Nat × List UInt8) :=
  encodeDeltaSnapshotForClientSession build schema call.tick call.baselineTick call.baseline
    call.current call.limits call.out

/-- The standard encoder on the same arguments, and another buffer. -/
def SessionCall.encodeStandard (call : SessionCall) (build : Build) (schema : Schema)
    (out : List UInt8) : Outcome CodecError (Nat × List UInt8) :=
  encodeDeltaSnapshotForClient build schema call.tick call.baselineTick call.baseline call.current
    call.limits out

/-- A packet that was sent, with the call it was encoded by and the last tick of the sender
before. -/
structure SentPacket where
  call : SessionCall
  lastTick : SnapshotTick
  bytes : List UInt8
  deriving DecidableEq

/-- What happens on the channel. -/
inductive ChannelEvent where
  | encode (call : SessionCall)
  | deliver (i : Nat) (wireLimits : Wire.Limits)

/-- The last tick of the sender, the packets it has sent, and the receiver. `next` is the index
behind the packet that has arrived last, and `accepted` are the packets that the receiver has
accepted. -/
structure Channel where
  sender : SnapshotTick
  sent : List SentPacket
  receiver : SessionState
  next : Nat
  accepted : List SentPacket
  deriving DecidableEq

namespace Channel

/-- Nothing was sent yet. -/
def start (sender : SnapshotTick) (receiver : SessionState) :
    Channel := ⟨sender, [], receiver, 0, []⟩

/-- A call of the encoder sends a packet if it succeeds. Any packet that was sent may be delivered,
at any time and any number of times. -/
def step (build : Build) (schema : Schema) (channel : Channel) : ChannelEvent → Channel
  | .encode call =>
      match call.encode build schema channel.sender with
      | .ok (n, out) sender =>
          { channel with
            sender := sender
            sent := channel.sent ++ [⟨call, channel.sender, out.take n⟩] }
      | .error _ sender => { channel with sender := sender }
  | .deliver i wireLimits =>
      match channel.sent[i]? with
      | none => channel
      | some packet =>
          match decodeSessionPacket build schema packet.bytes wireLimits channel.receiver with
          | .ok _ receiver =>
              { channel with
                receiver := receiver
                next := i + 1
                accepted := channel.accepted ++ [packet] }
          | .error _ receiver => { channel with receiver := receiver, next := i + 1 }

end Channel

/-! ## The packets of a run -/

/-- The event is not a call of the encoder that violates `P`. -/
def ChannelEvent.Calls (P : SessionCall → Prop) : ChannelEvent → Prop
  | .encode call => P call
  | .deliver _ _ => True

/-- A packet is the compact packet of its call. -/
def SentPacket.Encoded (build : Build) (schema : Schema) (packet : SentPacket)
    (sections : List WireSection) : Prop :=
  EncodesCompact build schema packet.call.limits packet.call.tick packet.call.baselineTick
    packet.call.baseline packet.call.current packet.lastTick sections packet.bytes

namespace Channel

/-- The last ticks of the sender: the first one, and the tick of every packet. -/
def ticks (first : SnapshotTick) (channel : Channel) : List SnapshotTick :=
  first :: channel.sent.map fun packet => packet.call.tick

/-- What holds of the packets in every run. -/
structure Sound (build : Build) (schema : Schema) (P : SessionCall → Prop) (first : SnapshotTick)
    (channel : Channel) : Prop where
  encoded : ∀ packet ∈ channel.sent, ∃ sections, packet.Encoded build schema sections
  calls : ∀ packet ∈ channel.sent, P packet.call
  lastTick : ∀ (i : Nat) (packet : SentPacket), channel.sent[i]? = some packet →
    (channel.ticks first)[i]? = some packet.lastTick
  sender : (channel.ticks first)[channel.sent.length]? = some channel.sender

variable {build : Build} {schema : Schema} {P : SessionCall → Prop} {first : SnapshotTick}
  {channel : Channel} {event : ChannelEvent}

theorem sound_start (receiver : SessionState) :
    Sound build schema P first (start first receiver) where
  encoded := fun _ h => nomatch h
  calls := fun _ h => nomatch h
  lastTick := fun _ _ h => nomatch h
  sender := rfl

/-- The packet with an index moves the sender on from one tick to the next. -/
theorem ticks_of_sent {i : Nat} {packet : SentPacket} (h : channel.sent[i]? = some packet) :
    (channel.ticks first)[i + 1]? = some packet.call.tick := by
  rw [ticks, List.getElem?_cons_succ, List.getElem?_map, h]
  rfl

/-- A call of the encoder adds a packet, or changes nothing. -/
theorem step_encode (hschema : schema.Valid) {call : SessionCall}
    (hlen : call.out.length ≤ isizeMax) :
    step build schema channel (.encode call) = channel ∨
    ∃ packet sections, packet.call = call ∧ packet.lastTick = channel.sender
      ∧ packet.Encoded build schema sections
      ∧ step build schema channel (.encode call)
        = { channel with sender := call.tick, sent := channel.sent ++ [packet] } := by
  rcases @encode_session_cases build schema call.limits call.tick call.baselineTick channel.sender
    call.baseline call.current hschema call.out hlen with
    ⟨error, herror⟩ | ⟨n, out, sections, hok, -, hencodes⟩
  · left
    simp only [step, SessionCall.encode, herror]
  · right
    refine ⟨⟨call, channel.sender, out.take n⟩, sections, rfl, rfl, hencodes, ?_⟩
    simp only [step, SessionCall.encode, hok]

theorem step_deliver_none {i : Nat} {wireLimits : Wire.Limits} (hi : channel.sent[i]? = none) :
    step build schema channel (.deliver i wireLimits) = channel := by
  simp only [step, hi]

theorem step_deliver_ok {i : Nat} {wireLimits : Wire.Limits} {packet : SentPacket}
    {decoded : WirePacket} {receiver : SessionState} (hi : channel.sent[i]? = some packet)
    (h : decodeSessionPacket build schema packet.bytes wireLimits channel.receiver
      = .ok decoded receiver) :
    step build schema channel (.deliver i wireLimits)
      = { channel with
          receiver := receiver
          next := i + 1
          accepted := channel.accepted ++ [packet] } := by
  simp only [step, hi, h]

theorem step_deliver_error {i : Nat} {wireLimits : Wire.Limits} {packet : SentPacket}
    {e : Fault CodecError} {receiver : SessionState} (hi : channel.sent[i]? = some packet)
    (h : decodeSessionPacket build schema packet.bytes wireLimits channel.receiver
      = .error e receiver) :
    step build schema channel (.deliver i wireLimits)
      = { channel with receiver := receiver, next := i + 1 } := by
  simp only [step, hi, h]

/-- A delivery changes neither the sender nor what was sent. -/
theorem step_deliver_sent (i : Nat) (wireLimits : Wire.Limits) :
    (step build schema channel (.deliver i wireLimits)).sender = channel.sender
      ∧ (step build schema channel (.deliver i wireLimits)).sent = channel.sent := by
  cases hi : channel.sent[i]? with
  | none =>
      rw [step_deliver_none hi]
      exact ⟨rfl, rfl⟩
  | some packet =>
      cases hdecode : decodeSessionPacket build schema packet.bytes wireLimits channel.receiver with
      | ok _ _ =>
          rw [step_deliver_ok hi hdecode]
          exact ⟨rfl, rfl⟩
      | error _ _ =>
          rw [step_deliver_error hi hdecode]
          exact ⟨rfl, rfl⟩

/-- A step adds to the last ticks of the sender at their end. -/
theorem ticks_step (hschema : schema.Valid) (hP : ∀ call, P call → call.out.length ≤ isizeMax)
    (hevent : event.Calls P) {i : Nat} {tick : SnapshotTick}
    (hi : (channel.ticks first)[i]? = some tick) :
    ((step build schema channel event).ticks first)[i]? = some tick := by
  cases event with
  | deliver j wireLimits =>
      rw [ticks, (step_deliver_sent j wireLimits).2]
      exact hi
  | encode call =>
      rcases @step_encode build schema channel hschema call (hP call hevent) with
        hsame | ⟨packet, sections, hcall, hlast, hencoded, hstep⟩
      · rw [hsame]
        exact hi
      · rw [hstep, ticks, List.map_append, ← List.cons_append]
        exact (List.getElem?_append_left (List.getElem?_eq_some_iff.mp hi).1).trans hi

/-- A call of the encoder does not change the receiver. -/
theorem step_encode_receiver (call : SessionCall) :
    (step build schema channel (.encode call)).receiver = channel.receiver
      ∧ (step build schema channel (.encode call)).next = channel.next
      ∧ (step build schema channel (.encode call)).accepted = channel.accepted := by
  cases hencode : call.encode build schema channel.sender with
  | ok _ _ => simp only [step, hencode, and_self]
  | error _ _ => simp only [step, hencode, and_self]

/-- Every step keeps what holds of the packets. -/
theorem sound_step (hschema : schema.Valid) (hP : ∀ call, P call → call.out.length ≤ isizeMax)
    (hevent : event.Calls P) (h : Sound build schema P first channel) :
    Sound build schema P first (step build schema channel event) := by
  cases event with
  | deliver i wireLimits =>
      -- a delivery does not touch the sender
      obtain ⟨hsender, hsent⟩ := @step_deliver_sent build schema channel i wireLimits
      have hticks : (step build schema channel (.deliver i wireLimits)).ticks first
          = channel.ticks first := by
        rw [ticks, hsent]
        rfl
      exact {
        encoded := by rw [hsent]; exact h.encoded
        calls := by rw [hsent]; exact h.calls
        lastTick := by rw [hsent, hticks]; exact h.lastTick
        sender := by rw [hsent, hticks, hsender]; exact h.sender }
  | encode call =>
      rcases @step_encode build schema channel hschema call (hP call hevent) with
        hsame | ⟨packet, sections, hcall, hlast, hencoded, hstep⟩
      · rw [hsame]
        exact h
      · have hticks : (step build schema channel (.encode call)).ticks first
            = channel.ticks first ++ [call.tick] := by
          rw [hstep, ticks, ticks, List.map_append, List.map_singleton, hcall]
          rfl
        -- an encoded packet is sent behind the others, so what was known of these stays
        have hprefix {i : Nat} {tick : SnapshotTick} (hi : (channel.ticks first)[i]? = some tick) :
            (channel.ticks first ++ [call.tick])[i]? = some tick := by
          rw [List.getElem?_append_left (List.getElem?_eq_some_iff.mp hi).1, hi]
        have hsent :
            (step build schema channel (.encode call)).sent = channel.sent ++ [packet] := by
          rw [hstep]
        refine ⟨?_, ?_, ?_, ?_⟩
        · rw [hsent]
          exact List.forall_mem_append.mpr ⟨h.encoded, fun p hp => by
            rw [List.mem_singleton.mp hp]
            exact ⟨sections, hencoded⟩⟩
        · rw [hsent]
          exact List.forall_mem_append.mpr ⟨h.calls, fun p hp => by
            rw [List.mem_singleton.mp hp, hcall]
            exact hevent⟩
        · rw [hsent, hticks]
          intro i p hp
          -- the new packet is relative to the tick that was the last one so far
          by_cases hi : i < channel.sent.length
          · rw [List.getElem?_append_left hi] at hp
            exact hprefix (h.lastTick i p hp)
          · have hlen := (List.getElem?_eq_some_iff.mp hp).1
            rw [List.length_append, List.length_singleton] at hlen
            obtain rfl : i = channel.sent.length := by omega
            rw [List.getElem?_concat_length] at hp
            cases hp
            rw [hlast]
            exact hprefix h.sender
        · rw [hsent, hticks, List.length_append, List.length_singleton, hstep]
          have hlen : (channel.ticks first).length = channel.sent.length + 1 := by
            rw [ticks, List.length_cons, List.length_map]
          rw [← hlen, List.getElem?_concat_length]

/-- The last ticks of the sender ascend. -/
theorem Sound.ticks_le (h : Sound build schema P first channel) {i j : Nat} {a b : SnapshotTick}
    (hij : i ≤ j) (hi : (channel.ticks first)[i]? = some a)
    (hj : (channel.ticks first)[j]? = some b) :
    a.raw ≤ b.raw := by
  induction j, hij using Nat.le_induction generalizing b with
  | base =>
      rw [hi] at hj
      cases hj
      exact UInt32.le_refl _
  | succ j hij ih =>
      have hlen := (List.getElem?_eq_some_iff.mp hj).1
      rw [ticks, List.length_cons, List.length_map] at hlen
      obtain ⟨packet, hpacket⟩ : ∃ packet, channel.sent[j]? = some packet :=
        ⟨_, List.getElem?_eq_getElem (by omega)⟩
      obtain ⟨sections, hencoded⟩ := h.encoded packet (List.mem_of_getElem? hpacket)
      have hb := @ticks_of_sent first channel _ _ hpacket
      rw [hj] at hb
      cases hb
      exact UInt32.le_trans (ih (h.lastTick j packet hpacket)) (UInt32.le_of_lt hencoded.after)

end Channel

/-! ## Fixtures -/

/-- A call that encodes one snapshot of `goldenSchema` against another one. -/
def goldenCall (tick baselineTick : UInt32) (baseline current : List EntitySnapshot) :
    SessionCall where
  tick := ⟨tick⟩
  baselineTick := ⟨baselineTick⟩
  baseline := ⟨⟨baselineTick⟩, baseline⟩
  current := ⟨⟨tick⟩, current⟩
  limits := goldenLimits
  out := List.replicate 32 0

/-- A receiver for `goldenSchema`. -/
def goldenReceiver (lastTick : UInt32) : SessionState where
  schemaHash := schemaHash (goldenBuild false) goldenSchema
  sessionId := none
  lastTick := ⟨lastTick⟩
  compactMode := .sessionV1

/-- The deltas from `goldenEntities` to `goldenChanged` at tick 6 and back at tick 7, from a sender
whose last tick is 5. -/
def goldenSent : List SentPacket :=
  [⟨goldenCall 6 5 goldenEntities goldenChanged, ⟨5⟩,
    [2, 1, 1, 10, 5, 8, 1, 3, 10, 3, 8, 3, 236, 128]⟩,
      ⟨goldenCall 7 6 goldenChanged goldenEntities, ⟨6⟩,
      [2, 1, 1, 10, 5, 8, 1, 3, 10, 3, 47, 253, 247, 112]⟩]

end Sdec
