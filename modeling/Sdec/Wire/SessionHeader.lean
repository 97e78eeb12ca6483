import Sdec.Wire.Framing
import Sdec.Wire.Session

/-!
# The language of session headers

The compact header as the wire format describes it, over numbers without a machine width, and what
`decode_session_header` accepts. The decoder keeps the low 32 bits of a number, and it tests the
baseline tick of a delta where the format speaks of the distance to it.
-/

namespace Sdec.Wire

open Rust Bits

/-- The varint at an offset denotes the number in at most five bytes and ends at `stop`. -/
def VarintFound (bytes : List UInt8) (offset number stop : Nat) : Prop :=
  ∃ length, scan 5 (bytes.drop offset) = .value number length ∧ stop = offset + length

/-- The numbers that the three varints behind the flags denote, and where the last varint ends. -/
def HeaderNumbers (bytes : List UInt8) (tickDelta baselineDelta payloadLen stop : Nat) : Prop :=
  ∃ i j, VarintFound bytes 1 tickDelta i ∧ VarintFound bytes i baselineDelta j
    ∧ VarintFound bytes j payloadLen stop

/-- The tick moves forward within the range of a `u32`, a full snapshot has no baseline distance,
and the baseline tick of a delta is not zero. -/
structure HeaderTicks (flags : SessionFlags) (lastTick tickDelta baselineDelta : Nat) : Prop where
  forward : 0 < tickDelta
  range : lastTick + tickDelta < 2 ^ 32
  full : flags.isFullSnapshot → baselineDelta = 0
  delta : flags.isDeltaSnapshot → baselineDelta < lastTick + tickDelta

/-- The header that the wire format gives to the bytes, for a receiver with the given last tick. -/
def SpecifiedHeader (bytes : List UInt8) (lastTick : UInt32) (header : SessionHeader) : Prop :=
  ∃ tickDelta baselineDelta payloadLen,
    bytes[0]? = some header.flags.raw
    ∧ (header.flags.raw = SessionFlags.FULL_SNAPSHOT
      ∨ header.flags.raw = SessionFlags.DELTA_SNAPSHOT)
    ∧ HeaderNumbers bytes tickDelta baselineDelta payloadLen header.headerLen
    ∧ tickDelta < 2 ^ 32 ∧ baselineDelta < 2 ^ 32 ∧ payloadLen < 2 ^ 32
    ∧ HeaderTicks header.flags lastTick.toNat tickDelta baselineDelta
    ∧ (header.flags.isDeltaSnapshot → 0 < baselineDelta)
    ∧ header.tick.toNat = lastTick.toNat + tickDelta
    ∧ header.baselineTick.toNat = lastTick.toNat + tickDelta - baselineDelta
    ∧ header.payloadLen.toNat = payloadLen

theorem VarintFound.unique {bytes : List UInt8} {offset number number' stop stop' : Nat}
    (h : VarintFound bytes offset number stop) (h' : VarintFound bytes offset number' stop') :
    number = number' ∧ stop = stop' := by
  obtain ⟨length, hscan, rfl⟩ := h
  obtain ⟨length', hscan', rfl⟩ := h'
  rw [hscan] at hscan'
  cases hscan'
  exact ⟨rfl, rfl⟩

theorem HeaderNumbers.unique {bytes : List UInt8} {t b p stop t' b' p' stop' : Nat}
    (h : HeaderNumbers bytes t b p stop) (h' : HeaderNumbers bytes t' b' p' stop') :
    t = t' ∧ b = b' ∧ p = p' := by
  obtain ⟨i, j, ht, hb, hp⟩ := h
  obtain ⟨i', j', ht', hb', hp'⟩ := h'
  obtain ⟨htick, rfl⟩ := ht.unique ht'
  obtain ⟨hbaseline, rfl⟩ := hb.unique hb'
  exact ⟨htick, hbaseline, (hp.unique hp').1⟩

/-- Valid flags are the one bit or the other. -/
theorem SessionFlags.is_valid_iff (flags : SessionFlags) :
    flags.isValid ↔ flags.raw = FULL_SNAPSHOT ∨ flags.raw = DELTA_SNAPSHOT := by
  obtain ⟨raw⟩ := flags
  obtain ⟨bits⟩ := raw
  revert bits
  decide +kernel

theorem SessionFlags.full_or_delta {flags : SessionFlags} (h : flags.isValid) :
    flags.isFullSnapshot ∨ flags.isDeltaSnapshot := by
  unfold isValid at h
  cases hfull : flags.isFullSnapshot
  · rw [hfull] at h
    simp only [Bool.false_xor, Bool.and_eq_true] at h
    exact Or.inr h.1
  · exact Or.inl rfl

theorem Session.read_varu32_eq_ok {bytes : List UInt8} {offset stop : Nat} {value : UInt32}
    (hlen : bytes.length ≤ isizeMax) (hoffset : offset ≤ bytes.length) :
    Session.readVaru32 bytes offset = .ok (value, stop) ↔
      ∃ number, VarintFound bytes offset number stop ∧ value = UInt32.ofNat number := by
  have hread := Session.read_varu32_eq hlen hoffset
  constructor
  · intro hok
    obtain ⟨number, length, hscan, heq, -⟩ :=
      (@Session.read_varu32_ensures _ _ False hlen hoffset).of_ok hok
    cases heq
    exact ⟨number, ⟨length, hscan, rfl⟩, rfl⟩
  · intro ⟨number, ⟨length, hscan, hstop⟩, hvalue⟩
    rw [hscan] at hread
    rw [hread, hstop, hvalue]

theorem VarintFound.le_length {bytes : List UInt8} {offset number stop : Nat}
    (h : VarintFound bytes offset number stop) (hoffset : offset ≤ bytes.length) :
    stop ≤ bytes.length := by
  obtain ⟨length, hscan, rfl⟩ := h
  have := (scan_length hscan).2
  rw [List.length_drop] at this
  omega

/-- No bytes make the decoder of session headers panic, and the header lies within them. -/
theorem decode_session_header_ensures {bytes : List UInt8} {lastTick : UInt32} {risk : Prop}
    (hlen : bytes.length ≤ isizeMax) :
    Ensures (decodeSessionHeader bytes lastTick) (fun header => header.headerLen ≤ bytes.length)
      (PanicsOnlyIf risk) := by
  have hstop {offset : Nat} {read : UInt32 × Nat} (h : VarintAt bytes offset read) :
      read.2 ≤ bytes.length := by
    obtain ⟨number, length, _, hread, hle⟩ := h
    rw [hread]
    exact hle
  unfold decodeSessionHeader
  cases bytes with
  | nil => exact panics_only_if_err _
  | cons first rest =>
      rw [List.isEmpty_cons, if_neg Bool.false_ne_true,
        index_of_some (show (first :: rest)[0]? = some first from rfl), pure_bind]
      refine Ensures.check (fun _ => panics_only_if_err _) fun _ => ?_
      refine (Session.read_varu32_ensures hlen (by simp)).bind fun ⟨tickDelta, i⟩ hi => ?_
      refine Ensures.check (fun _ => panics_only_if_err _) fun _ => ?_
      dsimp only
      cases checkedAdd lastTick tickDelta with
      | none => exact panics_only_if_err _
      | some tick =>
          refine (Session.read_varu32_ensures hlen (hstop hi)).bind fun ⟨baselineDelta, j⟩ hj => ?_
          dsimp only
          cases checkedSub tick baselineDelta with
          | none => exact panics_only_if_err _
          | some baselineTick =>
              refine Ensures.check (fun _ => panics_only_if_err _) fun _ => ?_
              refine Ensures.check (fun _ => panics_only_if_err _) fun _ => ?_
              refine (Session.read_varu32_ensures hlen (hstop hj)).bind
                fun ⟨payloadLen, stop⟩ h => ?_
              exact Ensures.pure (hstop h)

theorem checked_add_eq_some {a b sum : UInt32} :
    checkedAdd a b = some sum ↔ a.toNat + b.toNat < 2 ^ 32 ∧ sum.toNat = a.toNat + b.toNat := by
  unfold checkedAdd
  by_cases h : a.toNat + b.toNat < 2 ^ 32
  · rw [if_pos h, Option.some.injEq, ← UInt32.toNat_inj, UInt32.toNat_add, Nat.mod_eq_of_lt h]
    exact ⟨fun heq => ⟨h, heq.symm⟩, fun heq => heq.2.symm⟩
  · rw [if_neg h]
    exact ⟨fun heq => (nomatch heq), fun heq => absurd heq.1 h⟩

theorem checked_sub_eq_some {a b difference : UInt32} :
    checkedSub a b = some difference ↔
      b.toNat ≤ a.toNat ∧ difference.toNat = a.toNat - b.toNat := by
  unfold checkedSub
  by_cases h : b ≤ a
  · rw [if_pos h, Option.some.injEq, ← UInt32.toNat_inj, UInt32.toNat_sub_of_le _ _ h]
    exact ⟨fun heq => ⟨UInt32.le_iff_toNat_le.mp h, heq.symm⟩, fun heq => heq.2.symm⟩
  · rw [if_neg h]
    exact ⟨fun heq => (nomatch heq), fun heq => absurd (UInt32.le_iff_toNat_le.mpr heq.1) h⟩

/-- The checks on the ticks of a header, as the decoder makes them. -/
theorem header_ticks_iff {flags : SessionFlags}
    {lastTick tick baselineTick tickDelta baselineDelta : UInt32} (hvalid : flags.isValid) :
    (HeaderTicks flags lastTick.toNat tickDelta.toNat baselineDelta.toNat
        ∧ tick.toNat = lastTick.toNat + tickDelta.toNat
        ∧ baselineTick.toNat = lastTick.toNat + tickDelta.toNat - baselineDelta.toNat)
      ↔ ¬ tickDelta = 0 ∧ checkedAdd lastTick tickDelta = some tick
        ∧ checkedSub tick baselineDelta = some baselineTick
        ∧ ¬ (flags.isFullSnapshot && decide (baselineDelta ≠ 0)) = true
        ∧ ¬ (flags.isDeltaSnapshot && decide (baselineTick = 0)) = true := by
  simp only [checked_add_eq_some, checked_sub_eq_some, Bool.and_eq_true, decide_eq_true_eq, not_and,
    not_not, ← UInt32.toNat_inj, UInt32.toNat_zero]
  constructor
  · intro h
    obtain ⟨hticks, htick, hbaseline⟩ := h
    refine ⟨Nat.ne_of_gt hticks.forward, ⟨hticks.range, htick⟩, ⟨?_, by rw [htick, hbaseline]⟩,
      hticks.full, fun hdelta => ?_⟩
    · rw [htick]
      rcases SessionFlags.full_or_delta hvalid with hfull | hdelta
      · rw [hticks.full hfull]
        exact Nat.zero_le _
      · exact Nat.le_of_lt (hticks.delta hdelta)
    · have hlt := hticks.delta hdelta
      omega
  · intro h
    obtain ⟨hforward, ⟨hrange, htick⟩, ⟨hle, hbaseline⟩, hfull, hdelta⟩ := h
    rw [htick] at hle hbaseline
    refine ⟨⟨Nat.pos_of_ne_zero hforward, hrange, hfull, fun h => ?_⟩, htick, hbaseline⟩
    have hne := hdelta h
    omega

/-- The steps of a decoder of session headers that succeeds. -/
theorem decode_session_header_cons_iff {first : UInt8} {rest : List UInt8} {lastTick : UInt32}
    {header : SessionHeader} :
    decodeSessionHeader (first :: rest) lastTick = .ok header
      ↔ header.flags.raw = first ∧ header.flags.isValid
        ∧ ∃ tickDelta i baselineDelta j,
          Session.readVaru32 (first :: rest) 1 = .ok (tickDelta, i)
          ∧ Session.readVaru32 (first :: rest) i = .ok (baselineDelta, j)
          ∧ Session.readVaru32 (first :: rest) j = .ok (header.payloadLen, header.headerLen)
          ∧ ¬ tickDelta = 0 ∧ checkedAdd lastTick tickDelta = some header.tick
          ∧ checkedSub header.tick baselineDelta = some header.baselineTick
          ∧ ¬ (header.flags.isFullSnapshot && decide (baselineDelta ≠ 0)) = true
          ∧ ¬ (header.flags.isDeltaSnapshot && decide (header.baselineTick = 0)) = true := by
  unfold decodeSessionHeader
  simp only [List.isEmpty_cons, Bool.false_eq_true, if_false]
  rw [index_of_some (List.getElem?_cons_zero), pure_bind, check_fail_eq_ok]
  constructor
  -- one check or read after the other
  · intro h
    obtain ⟨hvalid, h⟩ := h
    rw [Bool.not_eq_true', Bool.not_eq_false] at hvalid
    obtain ⟨⟨tickDelta, i⟩, htick, h⟩ := bind_eq_ok.mp h
    obtain ⟨hforward, h⟩ := check_fail_eq_ok.mp h
    cases hadd : checkedAdd lastTick tickDelta with
    | none =>
        simp only [hadd] at h
        cases h
    | some tick =>
        simp only [hadd] at h
        obtain ⟨⟨baselineDelta, j⟩, hbaseline, h⟩ := bind_eq_ok.mp h
        cases hsub : checkedSub tick baselineDelta with
        | none =>
            simp only [hsub] at h
            cases h
        | some baselineTick =>
            simp only [hsub] at h
            obtain ⟨hfull, h⟩ := check_fail_eq_ok.mp h
            obtain ⟨hdelta, h⟩ := check_fail_eq_ok.mp h
            obtain ⟨⟨payloadLen, stop⟩, hpayload, h⟩ := bind_eq_ok.mp h
            cases h
            exact ⟨rfl, hvalid, tickDelta, i, baselineDelta, j, htick, hbaseline, hpayload,
              hforward, hadd, hsub, hfull, hdelta⟩
  · intro h
    obtain ⟨rfl, hvalid, tickDelta, i, baselineDelta, j, htick, hbaseline, hpayload, hforward, hadd,
      hsub, hfull, hdelta⟩ := h
    refine ⟨by rw [hvalid]; exact Bool.false_ne_true, ?_⟩
    rw [htick, ok_bind]
    dsimp only
    rw [if_neg hforward, hadd]
    dsimp only
    rw [hbaseline, ok_bind]
    dsimp only
    rw [hsub]
    dsimp only
    rw [if_neg hfull, if_neg hdelta, hpayload, ok_bind]
    rfl

/-- The decoder accepts a header when the low 32 bits of its numbers make sense as ticks. -/
theorem decode_session_header_iff {bytes : List UInt8} {lastTick : UInt32} {header : SessionHeader}
    (hlen : bytes.length ≤ isizeMax) :
    decodeSessionHeader bytes lastTick = .ok header ↔
      ∃ tickDelta baselineDelta payloadLen,
        bytes[0]? = some header.flags.raw ∧ header.flags.isValid
        ∧ HeaderNumbers bytes tickDelta baselineDelta payloadLen header.headerLen
        ∧ HeaderTicks header.flags lastTick.toNat (tickDelta % 2 ^ 32) (baselineDelta % 2 ^ 32)
        ∧ header.tick.toNat = lastTick.toNat + tickDelta % 2 ^ 32
        ∧ header.baselineTick.toNat
          = lastTick.toNat + tickDelta % 2 ^ 32 - baselineDelta % 2 ^ 32
        ∧ header.payloadLen.toNat = payloadLen % 2 ^ 32 := by
  cases bytes with
  | nil =>
      refine ⟨fun h => ?_, fun h => ?_⟩
      · cases h
      · obtain ⟨_, _, _, h, _⟩ := h
        cases h
  | cons first rest =>
      have hzero : (1 : Nat) ≤ (first :: rest).length := Nat.succ_pos _
      have htoNat (number : Nat) : (UInt32.ofNat number).toNat = number % 2 ^ 32 :=
        UInt32.toNat_ofNat'
      rw [decode_session_header_cons_iff, List.getElem?_cons_zero, Option.some.injEq]
      constructor
      · intro h
        obtain ⟨hfirst, hvalid, tickDelta, i, baselineDelta, j, htick, hbaseline, hpayload,
          hchecks⟩ := h
        obtain ⟨t, hfoundt, rfl⟩ := (Session.read_varu32_eq_ok hlen hzero).mp htick
        have hi := hfoundt.le_length hzero
        obtain ⟨b, hfoundb, rfl⟩ := (Session.read_varu32_eq_ok hlen hi).mp hbaseline
        have hj := hfoundb.le_length hi
        obtain ⟨p, hfoundp, hvalue⟩ := (Session.read_varu32_eq_ok hlen hj).mp hpayload
        obtain ⟨hticks, hsum, hdifference⟩ := (header_ticks_iff hvalid).mpr hchecks
        rw [htoNat] at hticks hsum hdifference
        rw [htoNat] at hticks hdifference
        exact ⟨t, b, p, hfirst.symm, hvalid, ⟨i, j, hfoundt, hfoundb, hfoundp⟩, hticks, hsum,
          hdifference, by rw [hvalue, htoNat]⟩
      · intro h
        obtain ⟨t, b, p, hfirst, hvalid, ⟨i, j, hfoundt, hfoundb, hfoundp⟩, hticks, hsum,
          hdifference, hvalue⟩ := h
        have hi := hfoundt.le_length hzero
        have hj := hfoundb.le_length hi
        rw [← htoNat t] at hticks hsum hdifference
        rw [← htoNat b] at hticks hdifference
        refine ⟨hfirst.symm, hvalid, _, i, _, j,
          (Session.read_varu32_eq_ok hlen hzero).mpr ⟨t, hfoundt, rfl⟩,
          (Session.read_varu32_eq_ok hlen hi).mpr ⟨b, hfoundb, rfl⟩,
          (Session.read_varu32_eq_ok hlen hj).mpr ⟨p, hfoundp, ?_⟩,
          (header_ticks_iff hvalid).mp ⟨hticks, hsum, hdifference⟩⟩
        rw [← UInt32.toNat_inj, htoNat, hvalue]

/-- The decoder accepts exactly the headers of the wire format, unless the bytes are flags and three
varints that it accepts although one of the numbers does not fit a `u32` or a delta has no baseline
distance. -/
theorem decode_session_header_specified_iff (bytes : List UInt8) (hlen : bytes.length ≤ isizeMax)
    (lastTick : UInt32) :
    (∀ header, decodeSessionHeader bytes lastTick = .ok header
        ↔ SpecifiedHeader bytes lastTick header)
      ↔ ∀ flags tickDelta baselineDelta payloadLen stop,
          bytes[0]? = some (SessionFlags.raw flags) → flags.isValid →
          HeaderNumbers bytes tickDelta baselineDelta payloadLen stop →
          HeaderTicks flags lastTick.toNat (tickDelta % 2 ^ 32) (baselineDelta % 2 ^ 32) →
            tickDelta < 2 ^ 32 ∧ baselineDelta < 2 ^ 32 ∧ payloadLen < 2 ^ 32
              ∧ (flags.isDeltaSnapshot → 0 < baselineDelta) := by
  constructor
  · intro hspec flags t b p stop hfirst hvalid hnumbers hticks
    -- The header that the decoder returns for these numbers is a specified one.
    have hrange := hticks.range
    obtain ⟨header, hheader⟩ : ∃ header : SessionHeader, header = ⟨flags,
        UInt32.ofNat (lastTick.toNat + t % 2 ^ 32),
        UInt32.ofNat (lastTick.toNat + t % 2 ^ 32 - b % 2 ^ 32), UInt32.ofNat p, stop⟩ := ⟨_, rfl⟩
    have hok : decodeSessionHeader bytes lastTick = .ok header := by
      rw [decode_session_header_iff hlen, hheader]
      refine ⟨t, b, p, hfirst, hvalid, hnumbers, hticks, ?_, ?_, UInt32.toNat_ofNat'⟩
      · rw [UInt32.toNat_ofNat', Nat.mod_eq_of_lt hrange]
      · rw [UInt32.toNat_ofNat', Nat.mod_eq_of_lt (by omega)]
    obtain ⟨t', b', p', -, -, hnumbers', ht, hb, hp, -, hpositive, -⟩ := (hspec header).mp hok
    obtain ⟨rfl, rfl, rfl⟩ := hnumbers.unique hnumbers'
    rw [hheader] at hpositive
    exact ⟨ht, hb, hp, hpositive⟩
  · intro hcondition header
    rw [decode_session_header_iff hlen]
    constructor
    · intro ⟨t, b, p, hfirst, hvalid, hnumbers, hticks, htick, hbaseline, hpayload⟩
      obtain ⟨ht, hb, hp, hpositive⟩ := hcondition _ t b p _ hfirst hvalid hnumbers hticks
      rw [Nat.mod_eq_of_lt ht, Nat.mod_eq_of_lt hb] at hticks hbaseline
      rw [Nat.mod_eq_of_lt ht] at htick
      rw [Nat.mod_eq_of_lt hp] at hpayload
      exact ⟨t, b, p, hfirst, header.flags.is_valid_iff.mp hvalid, hnumbers, ht, hb, hp, hticks,
        hpositive, htick, hbaseline, hpayload⟩
    · intro ⟨t, b, p, hfirst, hflags, hnumbers, ht, hb, hp, hticks, _, htick, hbaseline, hpayload⟩
      refine ⟨t, b, p, hfirst, header.flags.is_valid_iff.mpr hflags, hnumbers, ?_⟩
      rw [Nat.mod_eq_of_lt ht, Nat.mod_eq_of_lt hb, Nat.mod_eq_of_lt hp]
      exact ⟨hticks, htick, hbaseline, hpayload⟩

/-- A full header that is not padded is decoded to the header that the wire format gives it. -/
theorem decode_session_header_specified_full :
    decodeSessionHeader [1, 3, 0, 9] 5 = .ok ⟨.fullSnapshot, 8, 8, 9, 4⟩
      ∧ SpecifiedHeader [1, 3, 0, 9] 5 ⟨.fullSnapshot, 8, 8, 9, 4⟩ := by
  have hdecode : decodeSessionHeader [1, 3, 0, 9] 5 = .ok ⟨.fullSnapshot, 8, 8, 9, 4⟩ := rfl
  refine ⟨hdecode, ((decode_session_header_specified_iff [1, 3, 0, 9] (by decide) 5).mpr ?_ _).mp
    hdecode⟩
  intro flags t b p stop hfirst _ hnumbers _
  have hfound : HeaderNumbers [1, 3, 0, 9] 3 0 9 4 :=
    ⟨2, 3, ⟨1, rfl, rfl⟩, ⟨1, rfl, rfl⟩, 1, rfl, rfl⟩
  obtain ⟨rfl, rfl, rfl⟩ := hnumbers.unique hfound
  have hflags : flags = .fullSnapshot := by
    cases flags
    cases hfirst
    rfl
  rw [hflags]
  decide

/-- A delta whose baseline is its own tick is accepted, and so is a full header whose tick distance
is beyond the range of a `u32`. The wire format refuses both. -/
theorem decode_session_header_out_of_language :
    (decodeSessionHeader [2, 1, 0, 0] 5 = .ok ⟨.deltaSnapshot, 6, 6, 0, 4⟩
      ∧ ¬ SpecifiedHeader [2, 1, 0, 0] 5 ⟨.deltaSnapshot, 6, 6, 0, 4⟩)
    ∧ decodeSessionHeader [1, 0x81, 0x80, 0x80, 0x80, 0x10, 0, 0] 5
        = .ok ⟨.fullSnapshot, 6, 6, 0, 8⟩
      ∧ ¬ SpecifiedHeader [1, 0x81, 0x80, 0x80, 0x80, 0x10, 0, 0] 5
        ⟨.fullSnapshot, 6, 6, 0, 8⟩ := by
  refine ⟨⟨rfl, ?_⟩, rfl, ?_⟩
  · intro ⟨t, b, p, _, _, hnumbers, _, _, _, _, hpositive, _⟩
    have hfound : HeaderNumbers [2, 1, 0, 0] 1 0 0 4 :=
      ⟨2, 3, ⟨1, rfl, rfl⟩, ⟨1, rfl, rfl⟩, 1, rfl, rfl⟩
    obtain ⟨-, rfl, -⟩ := hnumbers.unique hfound
    exact absurd (hpositive rfl) (Nat.lt_irrefl 0)
  · intro ⟨t, b, p, _, _, hnumbers, ht, _⟩
    have hfound : HeaderNumbers [1, 0x81, 0x80, 0x80, 0x80, 0x10, 0, 0] (1 + 2 ^ 32) 0 0 8 :=
      ⟨6, 7, ⟨5, rfl, rfl⟩, ⟨1, rfl, rfl⟩, 1, rfl, rfl⟩
    obtain ⟨rfl, -, -⟩ := hnumbers.unique hfound
    omega

end Sdec.Wire
