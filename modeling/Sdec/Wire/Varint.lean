import Sdec.Bits.Varint
import Sdec.Wire.Types

/-!
# Varints of the wire format

The varint helpers of `wire/src/packet.rs` and `wire/src/session.rs`, which work on byte slices. The
two writers are the same function; the readers differ in their accumulator and in their errors.
`Packet.read_varu32_eq` and `Session.read_varu32_eq` say that both return the number the bytes
denote, modulo the width of a `u32`.
-/

namespace Sdec.Wire

open Rust Bits

/-- The loop of the `write_varu32` functions. A `u32` has at most five groups of seven bits, so five
iterations are enough. -/
def writeVaru32Loop {ε : Type} :
    Nat → Nat → UInt32 → List UInt8 → Outcome ε (Nat × List UInt8)
  | 0, offset, _, out => return (offset, out)
  | fuel + 1, offset, value, out => do
      let byte := (value &&& 0x7F).toUInt8
      let value := value >>> 7
      let out ← store out offset (if value ≠ 0 then byte ||| 0x80 else byte)
      let offset ← usizeAdd offset 1
      if value = 0 then
        return (offset, out)
      writeVaru32Loop fuel offset value out

namespace Packet

/-- `read_varu32` of `packet.rs`, with the iterations left, the shift and the value so far. -/
def readVaru32Loop (buf : List UInt8) :
    Nat → Nat → UInt32 → UInt32 → Outcome DecodeError (UInt32 × Nat)
  | 0, _, _, _ => fail (.sectionFraming .invalidVarint)
  | fuel + 1, offset, shift, value => do
      if offset ≥ buf.length then
        let needed ← usizeAdd offset 1
        fail (.sectionFraming (.truncated needed buf.length))
      let byte ← index buf offset
      let offset ← usizeAdd offset 1
      let value := value ||| ((byte &&& 0x7F).toUInt32 <<< shift)
      if byte &&& 0x80 = 0 then
        return (value, offset)
      readVaru32Loop buf fuel offset (shift + 7) value

/-- `read_varu32` of `packet.rs`. -/
def readVaru32 (buf : List UInt8) (offset : Nat) : Outcome DecodeError (UInt32 × Nat) :=
  readVaru32Loop buf 5 offset 0 0

/-- `write_varu32` of `packet.rs`. -/
def writeVaru32 (value : UInt32) (out : List UInt8) : Outcome EncodeError (Nat × List UInt8) :=
  writeVaru32Loop 5 0 value out

/-- The loop of `varu32_len`. -/
def varu32LenLoop : Nat → UInt32 → Nat → Nat
  | 0, _, len => len
  | fuel + 1, value, len => if value ≥ 0x80 then varu32LenLoop fuel (value >>> 7) (len + 1) else len

/-- `varu32_len` of `packet.rs`. -/
def varu32Len (value : UInt32) : Nat := varu32LenLoop 5 value 1

end Packet

namespace Session

/-- `read_varu32` of `session.rs`, with a bound on the iterations. The count of bytes read ends the
loop, so the bound is never reached. -/
def readVaru32Loop (buf : List UInt8) :
    Nat → Nat → Nat → UInt64 → UInt64 → Outcome DecodeError (UInt32 × Nat)
  | 0, _, _, _, _ => fault .panic
  | fuel + 1, offset, count, shift, value => do
      if offset ≥ buf.length then
        fail (.sectionFraming (.truncated 1 (buf.length - offset)))
      let byte ← index buf offset
      let offset ← usizeAdd offset 1
      let count := count + 1
      let value := value ||| ((byte &&& 0x7F).toUInt64 <<< shift)
      if byte &&& 0x80 = 0 then
        return (value.toUInt32, offset)
      let shift := shift + 7
      if count ≥ 5 then
        fail (.sectionFraming .invalidVarint)
      readVaru32Loop buf fuel offset count shift value

/-- `read_varu32` of `session.rs`. -/
def readVaru32 (buf : List UInt8) (offset : Nat) : Outcome DecodeError (UInt32 × Nat) :=
  readVaru32Loop buf 5 offset 0 0 0

/-- `write_varu32` of `session.rs`. -/
def writeVaru32 (value : UInt32) (out : List UInt8) : Outcome EncodeError (Nat × List UInt8) :=
  writeVaru32Loop 5 0 value out

end Session

/-! ## Reading -/

variable {buf : List UInt8} {offset low : Nat}

/-- What is returned by a reader that has the number `low` from `j` groups of seven bits, where the
bytes from `offset` on are scanned for the others. -/
def Completes (low j offset : Nat) : Scan → Outcome DecodeError (UInt32 × Nat) → Prop
  | .value number length, outcome =>
      outcome = .ok (UInt32.ofNat (low + number * 2 ^ (7 * j)), offset + length)
  | _, outcome => ∃ error, outcome = .error (.err error)

/-- A loop that takes a group of seven bits from each byte, at most five, and returns behind the
first byte without the high bit. It is given the number of groups read, that of the iterations left,
the offset, and the number that the groups make up. -/
structure ReadsGroups (buf : List UInt8)
    (loop : Nat → Nat → Nat → Nat → Outcome DecodeError (UInt32 × Nat)) : Prop where
  truncated {j n offset low : Nat} : j + n = 4 → offset = buf.length →
    ∃ error, loop j (n + 1) offset low = .error (.err error)
  last {j n offset low : Nat} {byte : UInt8} : j + n = 4 → low < 2 ^ (7 * j) →
    offset < buf.length → buf[offset]? = some byte → byte.toNat < 128 →
    loop j (n + 1) offset low = .ok (UInt32.ofNat (low + byte.toNat * 2 ^ (7 * j)), offset + 1)
  more {j n offset low : Nat} {byte : UInt8} : j + (n + 1) = 4 → low < 2 ^ (7 * j) →
    offset < buf.length → buf[offset]? = some byte → ¬ byte.toNat < 128 →
    loop j (n + 2) offset low
      = loop (j + 1) (n + 1) (offset + 1) (low + byte.toNat % 128 * 2 ^ (7 * j))
  overlong {offset low : Nat} {byte : UInt8} : low < 2 ^ (7 * 4) → offset < buf.length →
    buf[offset]? = some byte → ¬ byte.toNat < 128 →
    ∃ error, loop 4 1 offset low = .error (.err error)

/-- Such a loop returns what a scan of the bytes finds. -/
theorem ReadsGroups.completes {loop : Nat → Nat → Nat → Nat → Outcome DecodeError (UInt32 × Nat)}
    (h : ReadsGroups buf loop) (j n : Nat) (hn : j + n = 4) (hlow : low < 2 ^ (7 * j))
    (hoffset : offset ≤ buf.length) :
    Completes low j offset (scan (n + 1) (buf.drop offset)) (loop j (n + 1) offset low) := by
  induction n generalizing offset j low with
  | zero =>
      cases hdrop : buf.drop offset with
      | nil => exact h.truncated hn (Nat.le_antisymm hoffset (List.drop_eq_nil_iff.mp hdrop))
      | cons byte rest =>
          obtain ⟨hlt, hsome, -⟩ := drop_eq_cons hdrop
          rw [scan]
          by_cases hlast : byte.toNat < 128
          · rw [if_pos hlast]
            exact h.last hn hlow hlt hsome hlast
          · -- the fifth byte must be the last one
            obtain rfl : j = 4 := hn
            rw [if_neg hlast]
            exact h.overlong hlow hlt hsome hlast
  | succ n ih =>
      cases hdrop : buf.drop offset with
      | nil => exact h.truncated hn (Nat.le_antisymm hoffset (List.drop_eq_nil_iff.mp hdrop))
      | cons byte rest =>
          obtain ⟨hlt, hsome, hrest⟩ := drop_eq_cons hdrop
          rw [scan]
          by_cases hlast : byte.toNat < 128
          · rw [if_pos hlast]
            exact h.last hn hlow hlt hsome hlast
          · have hnext := @ih (offset + 1) _ (j + 1) (by omega) (add_group_lt byte.toNat hlow) hlt
            rw [if_neg hlast, h.more hn hlow hlt hsome hlast]
            rw [hrest] at hnext
            cases hscan : scan (n + 1) rest with
            | value number length =>
                rw [hscan, Completes] at hnext
                rw [Scan.prepend, Completes, hnext, add_group_mul, Nat.add_assoc offset 1,
                  Nat.add_comm 1]
            | truncated | overlong => rwa [hscan] at hnext

/-- The readers start with no group. -/
theorem ReadsGroups.read {loop : Nat → Nat → Nat → Nat → Outcome DecodeError (UInt32 × Nat)}
    (h : ReadsGroups buf loop) (hoffset : offset ≤ buf.length) :
    match scan 5 (buf.drop offset) with
      | .value number length => loop 0 5 offset 0 = .ok (UInt32.ofNat number, offset + length)
      | _ => ∃ error, loop 0 5 offset 0 = .error (.err error) := by
  have hread := @ReadsGroups.completes buf offset 0 loop h 0 4 rfl (by decide) hoffset
  cases hscan : scan 5 (buf.drop offset) with
  | value number length =>
      rw [hscan, Completes, Nat.zero_add, Nat.mul_zero, Nat.pow_zero, Nat.mul_one] at hread
      exact hread
  | truncated | overlong => rwa [hscan] at hread

section Groups

variable {j : Nat} (byte : UInt8) (hj : j ≤ 4) (hlow : low < 2 ^ (7 * j))

include hj hlow

theorem low_lt_pow : low < 2 ^ 28 :=
  Nat.lt_of_lt_of_le hlow (Nat.pow_le_pow_right (by decide) (by omega))

/-- A group is put above the others in a `u32`. -/
theorem put_group : UInt32.ofNat low ||| ((byte &&& 0x7F).toUInt32 <<< UInt32.ofNat (7 * j))
    = UInt32.ofNat (low + byte.toNat % 128 * 2 ^ (7 * j)) := by
  have hsame : (UInt32.ofNat low).toNat = low :=
    UInt32.toNat_ofNat_of_lt' (Nat.lt_trans (low_lt_pow hj hlow) (by decide))
  apply UInt32.toNat_inj.mp
  rw [or_group_toNat byte hj (by rwa [hsame]), hsame, UInt32.toNat_ofNat']

/-- A group is put above the others in a `u64`. -/
theorem put_group_wide : UInt64.ofNat low ||| ((byte &&& 0x7F).toUInt64 <<< UInt64.ofNat (7 * j))
    = UInt64.ofNat (low + byte.toNat % 128 * 2 ^ (7 * j)) := by
  have hsame : (UInt64.ofNat low).toNat = low :=
    UInt64.toNat_ofNat_of_lt' (Nat.lt_trans (low_lt_pow hj hlow) (by decide))
  have hor := or_group_toNat_wide byte hj (by rwa [hsame])
  rw [hsame] at hor
  rw [← hor, UInt64.ofNat_toNat]

end Groups

/-- One iteration of the loop of `read_varu32` in `packet.rs`. -/
theorem Packet.read_varu32_loop_step (hlen : buf.length ≤ isizeMax) {n j : Nat} {byte : UInt8}
    (hj : j ≤ 4) (hlow : low < 2 ^ (7 * j)) (hlt : offset < buf.length)
    (hsome : buf[offset]? = some byte) :
    readVaru32Loop buf (n + 1) offset (UInt32.ofNat (7 * j)) (UInt32.ofNat low)
      = if byte.toNat < 128 then
          .ok (UInt32.ofNat (low + byte.toNat % 128 * 2 ^ (7 * j)), offset + 1)
        else readVaru32Loop buf n (offset + 1) (UInt32.ofNat (7 * (j + 1)))
          (UInt32.ofNat (low + byte.toNat % 128 * 2 ^ (7 * j))) := by
  have hshift : UInt32.ofNat (7 * j) + 7 = UInt32.ofNat (7 * (j + 1)) :=
    (UInt32.ofNat_add _ _).symm
  rw [readVaru32Loop, if_neg (Nat.not_le.mpr hlt), index_of_some hsome]
  dsimp only
  rw [pure_bind, usize_add_of_le (by simp only [isizeMax, usizeMax] at *; omega), pure_bind]
  simp only [put_group byte hj hlow, hshift, high_bit_eq_zero]
  rfl

/-- One iteration of the loop of `read_varu32` in `session.rs`. -/
theorem Session.read_varu32_loop_step (hlen : buf.length ≤ isizeMax) {n j : Nat} {byte : UInt8}
    (hj : j ≤ 4) (hlow : low < 2 ^ (7 * j)) (hlt : offset < buf.length)
    (hsome : buf[offset]? = some byte) :
    readVaru32Loop buf (n + 1) offset j (UInt64.ofNat (7 * j)) (UInt64.ofNat low)
      = if byte.toNat < 128 then
          .ok (UInt32.ofNat (low + byte.toNat % 128 * 2 ^ (7 * j)), offset + 1)
        else if j + 1 ≥ 5 then .error (.err (.sectionFraming .invalidVarint))
        else readVaru32Loop buf n (offset + 1) (j + 1) (UInt64.ofNat (7 * (j + 1)))
          (UInt64.ofNat (low + byte.toNat % 128 * 2 ^ (7 * j))) := by
  have hshift : UInt64.ofNat (7 * j) + 7 = UInt64.ofNat (7 * (j + 1)) :=
    (UInt64.ofNat_add _ _).symm
  rw [readVaru32Loop, if_neg (Nat.not_le.mpr hlt), index_of_some hsome]
  dsimp only
  rw [pure_bind, usize_add_of_le (by simp only [isizeMax, usizeMax] at *; omega), pure_bind]
  simp only [put_group_wide byte hj hlow, hshift, high_bit_eq_zero, UInt64.toUInt32_ofNat']
  rfl

/-- The loop of `read_varu32` in `packet.rs`. -/
theorem Packet.reads_groups (hlen : buf.length ≤ isizeMax) : ReadsGroups buf fun j n offset low =>
    readVaru32Loop buf n offset (UInt32.ofNat (7 * j)) (UInt32.ofNat low) where
  truncated hn hend := by
    rw [readVaru32Loop, if_pos (Nat.le_of_eq hend.symm),
      usize_add_of_le (by simp only [isizeMax, usizeMax] at *; omega)]
    exact ⟨_, rfl⟩
  last hn hlow hlt hsome hlast := by
    rw [read_varu32_loop_step hlen (by omega) hlow hlt hsome, if_pos hlast,
      Nat.mod_eq_of_lt hlast]
  more hn hlow hlt hsome hmore := by
    rw [read_varu32_loop_step hlen (by omega) hlow hlt hsome, if_neg hmore]
  overlong hlow hlt hsome hmore := by
    rw [read_varu32_loop_step hlen (by omega) hlow hlt hsome, if_neg hmore]
    exact ⟨_, rfl⟩

/-- The loop of `read_varu32` in `session.rs`. -/
theorem Session.reads_groups (hlen : buf.length ≤ isizeMax) : ReadsGroups buf fun j n offset low =>
    readVaru32Loop buf n offset j (UInt64.ofNat (7 * j)) (UInt64.ofNat low) where
  truncated hn hend := by
    rw [readVaru32Loop, if_pos (Nat.le_of_eq hend.symm)]
    exact ⟨_, rfl⟩
  last hn hlow hlt hsome hlast := by
    rw [read_varu32_loop_step hlen (by omega) hlow hlt hsome, if_pos hlast,
      Nat.mod_eq_of_lt hlast]
  more hn hlow hlt hsome hmore := by
    rw [read_varu32_loop_step hlen (by omega) hlow hlt hsome, if_neg hmore, if_neg (by omega)]
  overlong hlow hlt hsome hmore := by
    rw [read_varu32_loop_step hlen (by omega) hlow hlt hsome, if_neg hmore, if_pos (by decide)]
    exact ⟨_, rfl⟩

/-- `read_varu32` of `packet.rs` returns the number that the bytes denote, modulo the width of a
`u32`, with the offset behind them. -/
theorem Packet.read_varu32_eq (hlen : buf.length ≤ isizeMax) (hoffset : offset ≤ buf.length) :
    match scan 5 (buf.drop offset) with
      | .value number length =>
          readVaru32 buf offset = .ok (UInt32.ofNat number, offset + length)
      | _ => ∃ error, readVaru32 buf offset = .error (.err error) :=
  (reads_groups hlen).read hoffset

/-- `read_varu32` of `session.rs` returns the number that the bytes denote, modulo the width of a
`u32`, with the offset behind them. -/
theorem Session.read_varu32_eq (hlen : buf.length ≤ isizeMax) (hoffset : offset ≤ buf.length) :
    match scan 5 (buf.drop offset) with
      | .value number length =>
          readVaru32 buf offset = .ok (UInt32.ofNat number, offset + length)
      | _ => ∃ error, readVaru32 buf offset = .error (.err error) :=
  (reads_groups hlen).read hoffset

/-- A varint at an offset is what a scan from there finds. -/
theorem scan_varu32 {value : UInt32} {rest : List UInt8}
    (h : buf.drop offset = varu32 value ++ rest) :
    scan 5 (buf.drop offset) = .value value.toNat (varu32 value).length ∧ offset ≤ buf.length := by
  have hscan : scan 5 (buf.drop offset) = .value value.toNat (varu32 value).length := by
    rw [h]
    exact scan_leb128 (Nat.lt_of_lt_of_le value.toNat_lt (by decide)) rest
  have hlength := scan_length hscan
  rw [List.length_drop] at hlength
  exact ⟨hscan, by omega⟩

theorem Packet.read_varu32_varu32 {value : UInt32} {rest : List UInt8}
    (hlen : buf.length ≤ isizeMax) (h : buf.drop offset = varu32 value ++ rest) :
    Packet.readVaru32 buf offset = .ok (value, offset + (varu32 value).length) := by
  obtain ⟨hscan, hoffset⟩ := scan_varu32 h
  have hread := Packet.read_varu32_eq hlen hoffset
  rw [hscan] at hread
  simpa only [UInt32.ofNat_toNat] using hread

theorem Session.read_varu32_varu32 {value : UInt32} {rest : List UInt8}
    (hlen : buf.length ≤ isizeMax) (h : buf.drop offset = varu32 value ++ rest) :
    Session.readVaru32 buf offset = .ok (value, offset + (varu32 value).length) := by
  obtain ⟨hscan, hoffset⟩ := scan_varu32 h
  have hread := Session.read_varu32_eq hlen hoffset
  rw [hscan] at hread
  simpa only [UInt32.ofNat_toNat] using hread

/-! ## Writing -/

/-- The loop of the writers puts the bytes of the varint at the offset. -/
theorem write_varu32_loop_eq {ε : Type} (offset fuel : Nat) {value : UInt32} {out : List UInt8}
    (hlen : out.length ≤ isizeMax)
    (hfits : offset + (leb128 fuel value.toNat).length ≤ out.length) :
    writeVaru32Loop (ε := ε) fuel offset value out
      = .ok (offset + (leb128 fuel value.toNat).length, out.take offset ++ leb128 fuel value.toNat
          ++ out.drop (offset + (leb128 fuel value.toNat).length)) := by
  induction fuel generalizing offset value out with
  | zero =>
      simp only [writeVaru32Loop, leb128, List.length_nil, Nat.add_zero, List.append_nil,
        List.take_append_drop]
      rfl
  | succ fuel ih =>
      have hpos := length_leb128_pos fuel value.toNat
      have hlt : offset < out.length := by omega
      have hadd : offset + 1 ≤ usizeMax := by
        simp only [isizeMax, usizeMax] at *
        omega
      have htake (byte : UInt8) :
          (out.set offset byte).take (offset + 1) = out.take offset ++ [byte] := by
        rw [List.take_succ_eq_append_getElem (by simpa using hlt), List.getElem_set_self,
          List.take_set_of_le (Nat.le_refl _)]
      have hdrop (byte : UInt8) (n : Nat) :
          (out.set offset byte).drop (offset + 1 + n) = out.drop (offset + 1 + n) :=
        List.drop_set_of_lt (by omega)
      rw [writeVaru32Loop]
      simp only [varint_byte_eq, store_of_lt hlt, pure_bind, usize_add_of_le hadd]
      by_cases h : value.toNat < 128
      · rw [if_pos ((shiftRight_seven_eq_zero value).mpr h), leb128_of_lt h, if_pos h,
          ← htake, List.length_singleton]
        have := hdrop (UInt8.ofNat value.toNat) 0
        rw [Nat.add_zero] at this
        rw [← this, List.take_append_drop]
        rfl
      · rw [leb128_of_le (Nat.le_of_not_lt h), List.length_cons, ← shiftRight_seven_toNat] at *
        rw [if_neg (mt (shiftRight_seven_eq_zero value).mp h), if_neg h,
          ih _ (by rwa [List.length_set]) (by rw [List.length_set]; omega), htake, hdrop,
          List.append_assoc _ [_], List.singleton_append, Nat.add_assoc offset 1, Nat.add_comm 1]

/-- The writers put the bytes of the varint at the front of the slice. -/
theorem Packet.write_varu32_eq {value : UInt32} {out : List UInt8} (hlen : out.length ≤ isizeMax)
    (hfits : (varu32 value).length ≤ out.length) :
    Packet.writeVaru32 value out
      = .ok ((varu32 value).length, varu32 value ++ out.drop (varu32 value).length) := by
  have hloop := write_varu32_loop_eq (ε := EncodeError) 0 5 hlen (by rwa [Nat.zero_add])
  rwa [Nat.zero_add, List.take_zero, List.nil_append] at hloop

theorem Session.write_varu32_eq {value : UInt32} {out : List UInt8} (hlen : out.length ≤ isizeMax)
    (hfits : (varu32 value).length ≤ out.length) :
    Session.writeVaru32 value out
      = .ok ((varu32 value).length, varu32 value ++ out.drop (varu32 value).length) :=
  Packet.write_varu32_eq hlen hfits

/-- The loop of `varu32_len` counts the bytes of the varint. -/
theorem Packet.varu32_len_loop_eq (fuel len : Nat) {value : UInt32}
    (hvalue : value.toNat < 128 ^ (fuel + 1)) :
    Packet.varu32LenLoop (fuel + 1) value (len + 1)
      = len + (leb128 (fuel + 1) value.toNat).length := by
  have hge : value ≥ 0x80 ↔ 128 ≤ value.toNat := UInt32.le_iff_toNat_le
  induction fuel generalizing value len with
  | zero =>
      have hlt : value.toNat < 128 := by omega
      rw [Packet.varu32LenLoop, if_neg (by rw [hge]; omega), leb128_of_lt hlt]
      rfl
  | succ fuel ih =>
      rw [Packet.varu32LenLoop]
      by_cases hlt : value.toNat < 128
      · rw [if_neg (by rw [hge]; omega), leb128_of_lt hlt]
        rfl
      · have hshift := shiftRight_seven_toNat value
        rw [if_pos (by rw [hge]; omega), leb128_of_le (Nat.le_of_not_lt hlt), List.length_cons,
          ← hshift,
          ih (len + 1) (by rwa [hshift, Nat.div_lt_iff_lt_mul (by decide), ← Nat.pow_succ])
            UInt32.le_iff_toNat_le]
        omega

theorem Packet.varu32_len_eq (value : UInt32) :
    Packet.varu32Len value = (varu32 value).length :=
  (Packet.varu32_len_loop_eq 4 0 (Nat.lt_of_lt_of_le value.toNat_lt (by decide))).trans
    (Nat.zero_add _)

end Sdec.Wire
