import Sdec.Wire.Varint

/-!
# Session headers

The compact header of session packets, after `wire/src/session.rs`. It carries the tick as the
distance from the last tick of the receiver, and the baseline tick as the distance from the tick.
`decode_session_header_eq_ok` says what the receiver makes of the header a sender wrote.
-/

namespace Sdec.Wire

open Rust Bits

/-- `SESSION_MAX_HEADER_SIZE`. -/
def SESSION_MAX_HEADER_SIZE : Nat := 1 + 5 + 5 + 5

/-- `SessionFlags`. -/
structure SessionFlags where
  raw : UInt8
  deriving DecidableEq, Repr

namespace SessionFlags

/-- `SessionFlags::FULL_SNAPSHOT`. -/
def FULL_SNAPSHOT : UInt8 := (1 : UInt8) <<< 0

/-- `SessionFlags::DELTA_SNAPSHOT`. -/
def DELTA_SNAPSHOT : UInt8 := (1 : UInt8) <<< 1

/-- `SessionFlags::RESERVED_MASK`. -/
def RESERVED_MASK : UInt8 := ~~~0b11

/-- `SessionFlags::is_full_snapshot`. -/
def isFullSnapshot (flags : SessionFlags) : Bool := flags.raw &&& FULL_SNAPSHOT != 0

/-- `SessionFlags::is_delta_snapshot`. -/
def isDeltaSnapshot (flags : SessionFlags) : Bool := flags.raw &&& DELTA_SNAPSHOT != 0

/-- `SessionFlags::is_valid`. -/
def isValid (flags : SessionFlags) : Bool :=
  (flags.isFullSnapshot ^^ flags.isDeltaSnapshot) && !(flags.raw &&& RESERVED_MASK != 0)

/-- `SessionFlags::full_snapshot`. -/
def fullSnapshot : SessionFlags := ⟨FULL_SNAPSHOT⟩

/-- `SessionFlags::delta_snapshot`. -/
def deltaSnapshot : SessionFlags := ⟨DELTA_SNAPSHOT⟩

end SessionFlags

/-- `SessionHeader`. -/
structure SessionHeader where
  flags : SessionFlags
  tick : UInt32
  baselineTick : UInt32
  payloadLen : UInt32
  headerLen : Nat
  deriving DecidableEq, Repr

/-- `encode_session_header`. -/
def encodeSessionHeader (out : List UInt8) (flags : SessionFlags)
    (tickDelta baselineDelta payloadLen : UInt32) : Outcome EncodeError (Nat × List UInt8) := do
  if out.length < SESSION_MAX_HEADER_SIZE then
    fail (.bufferTooSmall SESSION_MAX_HEADER_SIZE out.length)
  if !flags.isValid then
    fail (.lengthOverflow 0)
  let out ← store out 0 flags.raw
  let (n, out) ← withTail out 1 (Session.writeVaru32 tickDelta)
  let offset ← usizeAdd 1 n
  let (n, out) ← withTail out offset (Session.writeVaru32 baselineDelta)
  let offset ← usizeAdd offset n
  let (n, out) ← withTail out offset (Session.writeVaru32 payloadLen)
  let offset ← usizeAdd offset n
  return (offset, out)

/-- `u32::checked_add`. -/
def checkedAdd (a b : UInt32) : Option UInt32 :=
  if a.toNat + b.toNat < 2 ^ 32 then some (a + b) else none

/-- `u32::checked_sub`. -/
def checkedSub (a b : UInt32) : Option UInt32 := if b ≤ a then some (a - b) else none

/-- `decode_session_header`. -/
def decodeSessionHeader (buf : List UInt8) (lastTick : UInt32) :
    Outcome DecodeError SessionHeader := do
  if buf.isEmpty then
    fail (.packetTooSmall buf.length 1)
  let flags : SessionFlags := ⟨← index buf 0⟩
  if !flags.isValid then
    fail (.invalidFlags flags.raw.toUInt16)
  let (tickDelta, offset) ← Session.readVaru32 buf 1
  if tickDelta = 0 then
    fail (.invalidFlags flags.raw.toUInt16)
  let some tick := checkedAdd lastTick tickDelta
    | fail (.invalidFlags flags.raw.toUInt16)
  let (baselineDelta, offset) ← Session.readVaru32 buf offset
  let some baselineTick := checkedSub tick baselineDelta
    | fail (.invalidBaselineTick baselineDelta flags.raw.toUInt16)
  if flags.isFullSnapshot && baselineDelta ≠ 0 then
    fail (.invalidBaselineTick baselineTick flags.raw.toUInt16)
  if flags.isDeltaSnapshot && baselineTick = 0 then
    fail (.invalidBaselineTick baselineTick flags.raw.toUInt16)
  let (payloadLen, offset) ← Session.readVaru32 buf offset
  return ⟨flags, tick, baselineTick, payloadLen, offset⟩

/-! ## Encoding -/

/-- The bytes of a session header. -/
def sessionHeaderBytes (flags : SessionFlags) (tickDelta baselineDelta payloadLen : UInt32) :
    List UInt8 :=
  flags.raw :: (varu32 tickDelta ++ varu32 baselineDelta ++ varu32 payloadLen)

variable {flags : SessionFlags} {tickDelta baselineDelta payloadLen : UInt32}

theorem length_session_header_bytes_le :
    (sessionHeaderBytes flags tickDelta baselineDelta payloadLen).length
      ≤ SESSION_MAX_HEADER_SIZE := by
  have htick := length_varu32_le tickDelta
  have hbaseline := length_varu32_le baselineDelta
  have hlen := length_varu32_le payloadLen
  simp only [sessionHeaderBytes, List.length_cons, List.length_append, SESSION_MAX_HEADER_SIZE]
  omega

/-- Writing a varint behind the bytes written so far. -/
theorem with_tail_write_varu32 {done out : List UInt8} {value : UInt32} {offset : Nat}
    (hoffset : offset = done.length) (hlen : out.length ≤ isizeMax) (hfits : 5 ≤ out.length) :
    withTail (done ++ out) offset (Session.writeVaru32 value)
      = .ok ((varu32 value).length, done ++ varu32 value ++ out.drop (varu32 value).length) := by
  subst hoffset
  have hvarint := length_varu32_le value
  rw [withTail, if_pos (by rw [List.length_append]; omega), List.drop_left, List.take_left,
    Session.write_varu32_eq hlen (by omega), ok_bind, List.append_assoc]
  rfl

/-- `encode_session_header` puts the bytes of the header at the front of a buffer that has room
for the longest header. -/
theorem encode_session_header_eq (hflags : flags.isValid) {out : List UInt8}
    (hlen : out.length ≤ isizeMax) (hfits : SESSION_MAX_HEADER_SIZE ≤ out.length) :
    encodeSessionHeader out flags tickDelta baselineDelta payloadLen
      = .ok ((sessionHeaderBytes flags tickDelta baselineDelta payloadLen).length,
          sessionHeaderBytes flags tickDelta baselineDelta payloadLen
            ++ out.drop (sessionHeaderBytes flags tickDelta baselineDelta payloadLen).length) := by
  have htick := length_varu32_le tickDelta
  have hbaseline := length_varu32_le baselineDelta
  have hsize : SESSION_MAX_HEADER_SIZE = 16 := rfl
  have hadd {a b : Nat} (h : a + b ≤ 16) : a + b ≤ usizeMax := Nat.le_trans h (by decide)
  have hpayload := length_varu32_le payloadLen
  obtain ⟨first, rest, rfl⟩ : ∃ first rest, out = first :: rest := by
    cases out with
    | nil => exact absurd hfits (by decide)
    | cons first rest => exact ⟨first, rest, rfl⟩
  rw [List.length_cons] at hlen hfits
  have hstore : store (m := Outcome EncodeError) (first :: rest) 0 flags.raw
      = pure ([flags.raw] ++ rest) := store_of_lt (Nat.succ_pos _)
  rw [encodeSessionHeader, List.length_cons, if_neg (by omega), hflags]
  simp only [Bool.not_true, Bool.false_eq_true, if_false, hstore, pure_bind]
  rw [with_tail_write_varu32 (by simp) (by omega) (by omega), ok_bind,
    usize_add_of_le (hadd (by omega)), pure_bind,
    with_tail_write_varu32 (by simp; omega) (by simp; omega) (by simp; omega), ok_bind,
    usize_add_of_le (hadd (by omega)), pure_bind,
    with_tail_write_varu32 (by simp; omega) (by simp; omega) (by simp; omega), ok_bind,
    usize_add_of_le (hadd (by omega)), pure_bind]
  simp only [sessionHeaderBytes, List.drop_drop, List.length_cons, List.length_append,
    List.cons_append, List.nil_append, List.append_assoc, Nat.add_assoc]
  congr 2
  omega

/-! ## Decoding -/

/-- The three varints of a session header. -/
theorem read_session_varints {rest buf : List UInt8} (hlen : buf.length ≤ isizeMax)
    (hbuf : buf = sessionHeaderBytes flags tickDelta baselineDelta payloadLen ++ rest) :
    Session.readVaru32 buf 1 = .ok (tickDelta, 1 + (varu32 tickDelta).length)
      ∧ Session.readVaru32 buf (1 + (varu32 tickDelta).length)
        = .ok (baselineDelta, 1 + (varu32 tickDelta).length + (varu32 baselineDelta).length)
      ∧ Session.readVaru32 buf (1 + (varu32 tickDelta).length + (varu32 baselineDelta).length)
        = .ok (payloadLen,
          (sessionHeaderBytes flags tickDelta baselineDelta payloadLen).length) := by
  have hdrop : buf.drop 1
      = varu32 tickDelta ++ (varu32 baselineDelta ++ (varu32 payloadLen ++ rest)) := by
    simp [hbuf, sessionHeaderBytes]
  have hdrop' : buf.drop (1 + (varu32 tickDelta).length)
      = varu32 baselineDelta ++ (varu32 payloadLen ++ rest) := by
    rw [← List.drop_drop, hdrop, List.drop_left]
  have hdrop'' : buf.drop (1 + (varu32 tickDelta).length + (varu32 baselineDelta).length)
      = varu32 payloadLen ++ rest := by
    rw [← List.drop_drop, hdrop', List.drop_left]
  have hstop : (sessionHeaderBytes flags tickDelta baselineDelta payloadLen).length
      = 1 + (varu32 tickDelta).length + (varu32 baselineDelta).length
        + (varu32 payloadLen).length := by
    simp [sessionHeaderBytes]
    omega
  rw [hstop]
  exact ⟨Session.read_varu32_varu32 hlen hdrop, Session.read_varu32_varu32 hlen hdrop',
    Session.read_varu32_varu32 hlen hdrop''⟩

/-- What the receiver makes of a header that a sender wrote: it adds the tick distance to its own
last tick, and takes the baseline tick from there. -/
theorem decode_session_header_eq_ok {rest : List UInt8} {lastTick : UInt32} {header : SessionHeader}
    (hlen : (sessionHeaderBytes flags tickDelta baselineDelta payloadLen ++ rest).length
      ≤ isizeMax) :
    decodeSessionHeader
      (sessionHeaderBytes flags tickDelta baselineDelta payloadLen ++ rest) lastTick
        = .ok header ↔
      flags.isValid ∧ tickDelta ≠ 0 ∧ lastTick.toNat + tickDelta.toNat < 2 ^ 32
        ∧ baselineDelta ≤ lastTick + tickDelta
        ∧ (flags.isFullSnapshot → baselineDelta = 0)
        ∧ (flags.isDeltaSnapshot → lastTick + tickDelta - baselineDelta ≠ 0)
        ∧ header = ⟨flags, lastTick + tickDelta, lastTick + tickDelta - baselineDelta, payloadLen,
          (sessionHeaderBytes flags tickDelta baselineDelta payloadLen).length⟩ := by
  obtain ⟨buf, hbuf⟩ :
      ∃ buf, buf = sessionHeaderBytes flags tickDelta baselineDelta payloadLen ++ rest := ⟨_, rfl⟩
  rw [← hbuf] at hlen ⊢
  obtain ⟨htick, hbaseline, hpayload⟩ := read_session_varints hlen hbuf
  have hempty : buf.isEmpty = false := by rw [hbuf]; rfl
  have hflags : buf[0]? = some flags.raw := by rw [hbuf]; rfl
  rw [decodeSessionHeader, hempty]
  simp only [Bool.false_eq_true, if_false, index_of_some hflags, pure_bind, htick, ok_bind,
    hbaseline, hpayload, checkedAdd, checkedSub, check_fail_eq_ok]
  have heta : (⟨flags.raw⟩ : SessionFlags) = flags := rfl
  by_cases hsum : lastTick.toNat + tickDelta.toNat < 2 ^ 32
  · by_cases hsub : baselineDelta ≤ lastTick + tickDelta
    · simp only [if_pos hsum, if_pos hsub, check_fail_eq_ok, pure_eq_ok, heta, Bool.and_eq_true,
        decide_eq_true_eq, Bool.not_eq_true', Bool.not_eq_false, not_and, not_not]
      exact ⟨fun h => ⟨h.1, h.2.1, hsum, hsub, h.2.2.1, h.2.2.2.1, h.2.2.2.2.symm⟩,
        fun h => ⟨h.1, h.2.1, h.2.2.2.2.1, h.2.2.2.2.2.1, h.2.2.2.2.2.2.symm⟩⟩
    · simp only [if_pos hsum, if_neg hsub, fail_eq_ok, and_false]
      exact ⟨False.elim, fun h => hsub h.2.2.2.1⟩
  · simp only [if_neg hsum, fail_eq_ok, and_false]
    exact ⟨False.elim, fun h => hsum h.2.2.1⟩

/-- A tick that is decoded comes after the last tick, and a full snapshot has its own tick as
baseline tick. -/
theorem decode_session_header_after {bytes : List UInt8} {lastTick : UInt32}
    {header : SessionHeader} (h : decodeSessionHeader bytes lastTick = .ok header) :
    lastTick < header.tick ∧ (header.flags.isFullSnapshot → header.baselineTick = header.tick) := by
  unfold decodeSessionHeader at h
  obtain ⟨-, h⟩ := check_fail_eq_ok.mp h
  obtain ⟨raw, -, h⟩ := bind_eq_ok.mp h
  obtain ⟨-, h⟩ := check_fail_eq_ok.mp h
  obtain ⟨⟨tickDelta, offset⟩, -, h⟩ := bind_eq_ok.mp h
  obtain ⟨hsome, h⟩ := check_fail_eq_ok.mp h
  cases hadd : checkedAdd lastTick tickDelta with
  | none =>
      simp only [hadd] at h
      cases h
  | some tick =>
      have htick : lastTick < tick := by
        unfold checkedAdd at hadd
        split at hadd
        · rename_i hsum
          cases hadd
          rw [UInt32.lt_iff_toNat_lt, UInt32.toNat_add, Nat.mod_eq_of_lt hsum]
          have := mt (fun h : tickDelta.toNat = 0 => UInt32.toNat_inj.mp h) hsome
          omega
        · cases hadd
      simp only [hadd] at h
      obtain ⟨⟨baselineDelta, offset'⟩, -, h⟩ := bind_eq_ok.mp h
      cases hsub : checkedSub tick baselineDelta with
      | none =>
          simp only [hsub] at h
          cases h
      | some baselineTick =>
          simp only [hsub] at h
          obtain ⟨hfull, h⟩ := check_fail_eq_ok.mp h
          obtain ⟨-, h⟩ := check_fail_eq_ok.mp h
          obtain ⟨⟨payloadLen, offset''⟩, -, h⟩ := bind_eq_ok.mp h
          cases h
          refine ⟨htick, fun hflags => ?_⟩
          have hzero : baselineDelta = 0 := by
            simp only [Bool.and_eq_true, decide_eq_true_eq, not_and, not_not] at hfull
            exact hfull hflags
          unfold checkedSub at hsub
          split at hsub
          · cases hsub
            show tick - baselineDelta = tick
            rw [hzero, UInt32.sub_zero]
          · cases hsub

end Sdec.Wire
