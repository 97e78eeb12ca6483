import Sdec.Fuzz.SessionPacket
import Sdec.Safety.Panics
import Sdec.Session.Compact
import Sdec.Session.Init

/-!
# Where a session comes from

What a receiver of arbitrary frames can end up with. Read `session_packet_target_returns` first. No
frames make the receiver panic, and the session that it has is what the compact packets behind the
last starting frame have made of the one that this frame announced, each with a later tick.
-/

namespace Sdec.Fuzz

open Rust Codec Wire

variable {build : Build} {schema : Schema} {limits : CodecLimits} {wireLimits : Wire.Limits}

/-! ## One frame -/

/-- The frame starts a session. -/
def Starts (build : Build) (schema : Schema) (limits : CodecLimits) (wireLimits : Wire.Limits)
    (frame : List UInt8) : Prop :=
  ∃ sessionId tick mode, StartsSession build schema wireLimits limits sessionId tick mode frame

/-- What a frame does to the session of a receiver. -/
inductive FrameStep (build : Build) (schema : Schema) (limits : CodecLimits)
    (wireLimits : Wire.Limits) (frame : List UInt8) :
    Option SessionState → Option SessionState → Prop where
  | start {session : Option SessionState} {sessionId : UInt64} {tick : SnapshotTick}
      {mode : CompactHeaderMode}
      (starts : StartsSession build schema wireLimits limits sessionId tick mode frame) :
      FrameStep build schema limits wireLimits frame session
        (some ⟨schemaHash build schema, receivedId sessionId, tick, mode⟩)
  | advance {state : SessionState} {header : SessionHeader} {sections : List WireSection}
      (other : ¬ Starts build schema limits wireLimits frame)
      (receives : Receives build schema wireLimits state frame header sections)
      (later : state.lastTick.raw < header.tick) :
      FrameStep build schema limits wireLimits frame (some state)
        (some { state with lastTick := ⟨header.tick⟩ })
  | ignore {session : Option SessionState}
      (other : ¬ Starts build schema limits wireLimits frame)
      (refused : ∀ state, session = some state →
        ¬ ∃ header sections, Receives build schema wireLimits state frame header sections) :
      FrameStep build schema limits wireLimits frame session session

/-- The tick of an accepted header is later than the last one. -/
theorem decode_session_header_later {bytes : List UInt8} {lastTick : UInt32}
    {header : SessionHeader} (hlen : bytes.length ≤ isizeMax)
    (h : decodeSessionHeader bytes lastTick = .ok header) : lastTick < header.tick := by
  obtain ⟨_, _, _, -, -, -, hticks, htick, -, -⟩ := (decode_session_header_iff hlen).mp h
  have := hticks.forward
  rw [UInt32.lt_iff_toNat_lt, htick]
  omega

/-- A frame that starts a session is no compact packet: its magic number is not the flags of one. -/
theorem starts_session_not_compact {sessionId : UInt64} {tick : SnapshotTick}
    {mode : CompactHeaderMode} {frame : List UInt8} (hlen : frame.length ≤ isizeMax)
    (h : StartsSession build schema wireLimits limits sessionId tick mode frame)
    (lastTick : UInt32) (header : SessionHeader) :
    decodeSessionHeader frame lastTick ≠ .ok header := by
  intro hdecode
  obtain ⟨_, _, _, hfirst, hvalid, -⟩ := (decode_session_header_iff hlen).mp hdecode
  obtain ⟨_, -, rfl⟩ := h.bytes_eq
  have hmagic : some header.flags.raw = some 67 := hfirst.symm
  have hraw : header.flags = ⟨67⟩ := congrArg SessionFlags.mk (Option.some.inj hmagic)
  rw [hraw] at hvalid
  exact absurd hvalid (by decide)

theorem starts_iff {frame : List UInt8} (hlen : frame.length ≤ isizeMax) :
    Starts build schema limits wireLimits frame ↔ ∃ packet session,
      decodePacket frame wireLimits = .ok packet
        ∧ decodeSessionInitPacket build schema packet limits = .ok session := by
  constructor
  · rintro ⟨sessionId, tick, mode, hstarts⟩
    obtain ⟨packet, hpacket, hinit⟩ := init_of_starts_session hlen hstarts
    exact ⟨packet, _, hpacket, hinit⟩
  · rintro ⟨packet, session, hpacket, hinit⟩
    obtain ⟨sessionId, tick, mode, hstarts, -⟩ := starts_session_of_init hlen hpacket hinit
    exact ⟨sessionId, tick, mode, hstarts⟩

/-- The session after a frame that may start one. -/
theorem start_frame_cases {frame : List UInt8} (hlen : frame.length ≤ isizeMax)
    (session : Option SessionState) :
    (∃ sessionId tick mode, StartsSession build schema wireLimits limits sessionId tick mode frame
      ∧ startFrame build schema limits wireLimits session frame
        = .ok (some ⟨schemaHash build schema, receivedId sessionId, tick, mode⟩)) ∨
    (¬ Starts build schema limits wireLimits frame
      ∧ startFrame build schema limits wireLimits session frame = .ok session) := by
  have hpacket := @attempt_cases DecodeError CodecError _ (decodePacket frame wireLimits)
    (ne_panic_of_ensures (decode_packet_ensures hlen))
  rw [startFrame, starts_iff hlen]
  rcases hpacket with ⟨packet, hpacket, hattempt⟩ | ⟨hrefused, hattempt⟩
  · have hinit := @attempt_cases CodecError CodecError _
      (decodeSessionInitPacket build schema packet limits)
      (ne_panic_of_ensures (decode_session_init_packet_ensures packet))
    simp only [hattempt, ok_bind]
    by_cases hflags : packet.header.flags.isSessionInit
    · rw [if_pos hflags]
      rcases hinit with ⟨state, hinit, hattempt⟩ | ⟨hrefused, hattempt⟩
      · obtain ⟨sessionId, tick, mode, hstarts, rfl⟩ := starts_session_of_init hlen hpacket hinit
        exact .inl ⟨sessionId, tick, mode, hstarts, by rw [hattempt]; rfl⟩
      · refine .inr ⟨?_, by rw [hattempt]; rfl⟩
        rintro ⟨other, state, hother, hinit⟩
        rw [hpacket] at hother
        cases hother
        exact hrefused state hinit
    · rw [if_neg hflags]
      refine .inr ⟨?_, rfl⟩
      rintro ⟨other, state, hother, hinit⟩
      rw [hpacket] at hother
      cases hother
      rw [decodeSessionInitPacket, check_fail_eq_ok] at hinit
      exact absurd hflags (by simpa using hinit.1)
  · refine .inr ⟨?_, by rw [hattempt]; rfl⟩
    rintro ⟨packet, _, hpacket, -⟩
    exact hrefused packet hpacket

/-- What the receiver does with a compact packet. -/
theorem attempt_session_packet {frame : List UInt8} (hlen : frame.length ≤ isizeMax)
    (state : SessionState) :
    (∃ header sections, Receives build schema wireLimits state frame header sections
      ∧ ∃ packet, (decodeSessionPacket build schema frame wireLimits).attempt.runOn state
        = (.ok (packet, { state with lastTick := ⟨header.tick⟩ }) : Outcome CodecError _)) ∨
    ((¬ ∃ header sections, Receives build schema wireLimits state frame header sections)
      ∧ (decodeSessionPacket build schema frame wireLimits).attempt.runOn state
        = (.ok (none, state) : Outcome CodecError _)) := by
  rcases @decode_session_packet_cases build schema frame wireLimits state hlen with
    ⟨e, herror, -, hrefused⟩ | ⟨header, sections, hreceives, hok⟩
  · refine .inr ⟨hrefused, ?_⟩
    cases e with
    | err error => simp only [Call.runOn, Call.attempt, herror]
    | panic => exact absurd herror (decode_session_packet_returns hlen)
  · refine .inl ⟨header, sections, hreceives, ?_⟩
    simp only [Call.runOn, Call.attempt, hok]
    exact ⟨_, rfl⟩

/-- Every frame is received, and does one of the three things to the session. -/
theorem receive_frame_step {frame : List UInt8} (hlen : frame.length ≤ isizeMax)
    (session : Option SessionState) :
    ∃ session', receiveFrame build schema limits wireLimits session frame = .ok session'
      ∧ FrameStep build schema limits wireLimits frame session session' := by
  rcases @start_frame_cases build schema limits wireLimits frame hlen session with
    ⟨sessionId, tick, mode, hstarts, hstart⟩ | ⟨hother, hstart⟩
  · -- a frame that starts a session is no compact packet
    refine ⟨_, ?_, .start hstarts⟩
    rcases @attempt_session_packet build schema wireLimits frame hlen
        ⟨schemaHash build schema, receivedId sessionId, tick, mode⟩ with
      ⟨header, sections, hreceives, -⟩ | ⟨-, hattempt⟩
    · exact absurd hreceives.header_eq (starts_session_not_compact hlen hstarts _ header)
    · rw [receiveFrame, hstart, ok_bind]
      dsimp only
      rw [hattempt]
      rfl
  · rw [receiveFrame, hstart, ok_bind]
    cases session with
    | none =>
        refine ⟨none, ?_, .ignore hother fun _ h => nomatch h⟩
        dsimp only
        by_cases hempty : frame.length ≠ 0
        · rw [if_pos hempty]
          rcases attempt_cases (x := decodeSessionHeader frame 0)
              (ne_panic_of_ensures (decode_session_header_ensures hlen)) with
            ⟨header, -, hattempt⟩ | ⟨-, hattempt⟩
          all_goals
            rw [hattempt]
            rfl
        · rw [if_neg hempty]
          rfl
    | some state =>
        dsimp only
        rcases @attempt_session_packet build schema wireLimits frame hlen state with
          ⟨header, sections, hreceives, packet, hattempt⟩ | ⟨hrefused, hattempt⟩
        · rw [hattempt]
          exact ⟨_, rfl, .advance hother hreceives
            (decode_session_header_later hlen hreceives.header_eq)⟩
        · rw [hattempt]
          refine ⟨some state, rfl, .ignore hother fun other h => ?_⟩
          cases h
          exact hrefused

/-! ## Any number of frames -/

/-- What frames that start no session make of one: those that the receiver takes are compact packets
with a later tick than its last one, and the others leave the session alone. -/
inductive Advances (build : Build) (schema : Schema) (wireLimits : Wire.Limits) :
    SessionState → List (List UInt8) → SessionState → Prop where
  | nil (state : SessionState) : Advances build schema wireLimits state [] state
  | received {state final : SessionState} {frame : List UInt8} {rest : List (List UInt8)}
      {header : SessionHeader} {sections : List WireSection}
      (receives : Receives build schema wireLimits state frame header sections)
      (later : state.lastTick.raw < header.tick)
      (tail : Advances build schema wireLimits { state with lastTick := ⟨header.tick⟩ } rest
        final) :
      Advances build schema wireLimits state (frame :: rest) final
  | ignored {state final : SessionState} {frame : List UInt8} {rest : List (List UInt8)}
      (refused : ¬ ∃ header sections, Receives build schema wireLimits state frame header sections)
      (tail : Advances build schema wireLimits state rest final) :
      Advances build schema wireLimits state (frame :: rest) final

theorem Advances.append {state next final : SessionState} {frames rest : List (List UInt8)}
    (h : Advances build schema wireLimits state frames next)
    (hrest : Advances build schema wireLimits next rest final) :
    Advances build schema wireLimits state (frames ++ rest) final := by
  induction h with
  | nil state => exact hrest
  | received receives later _ ih => exact .received receives later (ih hrest)
  | ignored refused _ ih => exact .ignored refused (ih hrest)

/-- The session that a receiver has after the frames. Without one, none of the frames has started a
session. Otherwise it is what the frames behind the last starting frame have made of the session
that this one announces. -/
def SessionFrom (build : Build) (schema : Schema) (limits : CodecLimits) (wireLimits : Wire.Limits)
    (frames : List (List UInt8)) : Option SessionState → Prop
  | none => ∀ frame ∈ frames, ¬ Starts build schema limits wireLimits frame
  | some state => ∃ before init after sessionId tick mode, frames = before ++ init :: after
      ∧ StartsSession build schema wireLimits limits sessionId tick mode init
      ∧ (∀ frame ∈ after, ¬ Starts build schema limits wireLimits frame)
      ∧ Advances build schema wireLimits
        ⟨schemaHash build schema, receivedId sessionId, tick, mode⟩ after state

theorem SessionFrom.step {frames : List (List UInt8)} {frame : List UInt8}
    {session session' : Option SessionState}
    (h : SessionFrom build schema limits wireLimits frames session)
    (hstep : FrameStep build schema limits wireLimits frame session session') :
    SessionFrom build schema limits wireLimits (frames ++ [frame]) session' := by
  have hforall {others : List (List UInt8)}
      (hothers : ∀ frame ∈ others, ¬ Starts build schema limits wireLimits frame)
      (hother : ¬ Starts build schema limits wireLimits frame) :
      ∀ other ∈ others ++ [frame], ¬ Starts build schema limits wireLimits other := by
    intro other hmem
    rcases List.mem_append.mp hmem with hmem | hmem
    · exact hothers other hmem
    · rwa [List.mem_singleton.mp hmem]
  cases hstep with
  | @start _ sessionId tick mode hstarts =>
      exact ⟨frames, frame, [], sessionId, tick, mode, rfl, hstarts, List.forall_mem_nil _, .nil _⟩
  | advance hother hreceives hlater =>
      obtain ⟨before, init, after, sessionId, tick, mode, rfl, hinit, hafter, hadvances⟩ := h
      exact ⟨before, init, after ++ [frame], sessionId, tick, mode, by simp, hinit,
        hforall hafter hother, hadvances.append (.received hreceives hlater (.nil _))⟩
  | ignore hother hrefused =>
      cases session with
      | none => exact hforall h hother
      | some state =>
          obtain ⟨before, init, after, sessionId, tick, mode, rfl, hinit, hafter, hadvances⟩ := h
          exact ⟨before, init, after ++ [frame], sessionId, tick, mode, by simp, hinit,
            hforall hafter hother, hadvances.append (.ignored (hrefused state rfl) (.nil _))⟩

/-- Any frames are received. -/
theorem receive_frames_from (frames : List (List UInt8))
    (hframes : ∀ frame ∈ frames, frame.length ≤ isizeMax) {before : List (List UInt8)}
    {session : Option SessionState}
    (h : SessionFrom build schema limits wireLimits before session) :
    ∃ session', frames.foldlM (receiveFrame build schema limits wireLimits) session = .ok session'
      ∧ SessionFrom build schema limits wireLimits (before ++ frames) session' := by
  induction frames generalizing before session with
  | nil => exact ⟨session, rfl, by rwa [List.append_nil]⟩
  | cons frame rest ih =>
      obtain ⟨next, hreceive, hstep⟩ := @receive_frame_step build schema limits wireLimits frame
        (hframes frame List.mem_cons_self) session
      obtain ⟨session', hrest, hfrom⟩ := ih (fun other hmem =>
        hframes other (List.mem_cons_of_mem _ hmem)) (h.step hstep)
      refine ⟨session', ?_, by simpa using hfrom⟩
      rw [List.foldlM_cons, hreceive]
      exact hrest

/-! ## The loop -/

/-- The frames that the loop cuts from the data. -/
def cutFrames (data : List UInt8) : Nat → Nat → List (List UInt8)
  | 0, _ => []
  | fuel + 1, idx =>
      if idx < data.length ∧ idx < 4096 then
        let stop := min (idx + 1 + ((data.getD idx 0).toNat % 120 + 1)) data.length
        (data.take stop).drop (idx + 1) :: cutFrames data fuel stop
      else []

theorem length_cut_frames {data frame : List UInt8} {fuel idx : Nat}
    (h : frame ∈ cutFrames data fuel idx) : frame.length ≤ data.length := by
  induction fuel generalizing idx with
  | zero => cases h
  | succ fuel ih =>
      rw [cutFrames] at h
      split at h
      · rcases List.mem_cons.mp h with rfl | h
        · rw [List.length_drop, List.length_take]
          omega
        · exact ih h
      · cases h

/-- The loop receives the frames that it cuts, one after another. -/
theorem receive_loop_eq {data : List UInt8} (hlen : data.length ≤ isizeMax) (fuel idx : Nat)
    (hidx : idx ≤ data.length) (hfuel : data.length < idx + fuel) (session : Option SessionState) :
    receiveLoop build data fuel idx session = (cutFrames data fuel idx).foldlM
      (receiveFrame build schemaOneBool .forTesting .forTesting) session := by
  induction fuel generalizing idx session with
  | zero => omega
  | succ fuel ih =>
      rw [receiveLoop, cutFrames]
      by_cases hinside : idx < data.length ∧ idx < 4096
      · rw [if_pos hinside, if_pos hinside]
        have hbyte : data[idx]? = some (data.getD idx 0) := by
          rw [List.getD_eq_getElem?_getD, List.getElem?_eq_getElem hinside.1]
          rfl
        have hsmall : (data.getD idx 0).toNat % 120 < 120 := Nat.mod_lt _ (by decide)
        have hmax : isizeMax + 121 ≤ usizeMax := by decide
        obtain ⟨stop, hstop⟩ : ∃ stop,
            stop = min (idx + 1 + ((data.getD idx 0).toNat % 120 + 1)) data.length := ⟨_, rfl⟩
        have hslice : slice (m := Outcome CodecError) data (idx + 1) stop
            = pure ((data.take stop).drop (idx + 1)) := slice_of_le (by omega) (by omega)
        rw [index_of_some hbyte, pure_bind, Nat.min_eq_left (by omega),
          usize_add_of_le (by omega), pure_bind, usize_add_of_le (by omega), pure_bind, ← hstop,
          List.foldlM_cons]
        dsimp only
        rw [hslice, pure_bind]
        exact congrArg _ (funext fun next => ih stop (by omega) (by omega) next)
      · rw [if_neg hinside, if_neg hinside]
        rfl

/-- The fuzz target returns on every input, and the session that it ends with comes from the frames
of the input. -/
theorem session_packet_target_returns (build : Build) {data : List UInt8}
    (hlen : data.length ≤ isizeMax) :
    ∃ session, sessionPacketTarget build data = .ok session
      ∧ SessionFrom build schemaOneBool .forTesting .forTesting
        (cutFrames data (data.length + 1) 0) session := by
  have hnone : SessionFrom build schemaOneBool .forTesting .forTesting [] none :=
    List.forall_mem_nil _
  obtain ⟨session, hframes, hfrom⟩ := receive_frames_from (cutFrames data (data.length + 1) 0)
    (fun frame hmem => Nat.le_trans (length_cut_frames hmem) hlen) hnone
  rw [List.nil_append] at hfrom
  refine ⟨session, ?_, hfrom⟩
  rw [sessionPacketTarget, receive_loop_eq hlen _ _ (Nat.zero_le _) (by omega), hframes, ok_bind]
  cases session with
  | none => rfl
  | some state =>
      -- the packet that is decoded last has no effect on the session
      have hlast : ∃ packet, (decodeSessionPacket build schemaOneBool data
          .forTesting).attempt.evalOn state = (.ok packet : Outcome CodecError _) := by
        rcases @attempt_session_packet build schemaOneBool .forTesting data hlen state with
          ⟨_, _, -, packet, hattempt⟩ | ⟨-, hattempt⟩
        · exact ⟨packet, eval_on_of_run_on hattempt⟩
        · exact ⟨none, eval_on_of_run_on hattempt⟩
      obtain ⟨packet, hlast⟩ := hlast
      dsimp only
      rw [hlast]
      rfl

theorem session_packet_target_returns_start :
    ∃ session, sessionPacketTarget (goldenBuild true) (38 :: goldenInit) = .ok session
      ∧ SessionFrom (goldenBuild true) schemaOneBool .forTesting .forTesting
        (cutFrames (38 :: goldenInit) 41 0) session :=
  session_packet_target_returns (goldenBuild true) (by decide)

end Sdec.Fuzz
