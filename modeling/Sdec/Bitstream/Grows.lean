import Sdec.Bitstream.Emits
import Sdec.Bitstream.VecWriter

/-!
# What the growable writer writes

`Grows pos write items` says that the call `write`, on any vector at bit `pos` within it, puts the
layout `items` behind the bits that are there. Between its checks a method of `BitVecWriter` does
what the one of `BitWriter` does, so what the latter emits is known of it too: `Grows.of_emits`
makes room first and then uses that.
-/

namespace Sdec.Bitstream

open Rust Bits

variable {α : Type} {pos : Nat} {items more : Layout}

/-- On a vector at bit `pos`, the call succeeds and puts `items` behind the first `pos` bits. -/
def Grows (pos : Nat) (write : Call BitError BitVecWriter Unit) (items : Layout) : Prop :=
  ∀ buf, pos ≤ 8 * buf.length → stop pos items ≤ usizeMax → ∃ buf',
    write ⟨buf, pos⟩ = .ok () ⟨buf', stop pos items⟩ ∧ stop pos items ≤ 8 * buf'.length
      ∧ (ofBytes buf').take (stop pos items) = (ofBytes buf).take pos ++ render pos items

theorem Grows.pure : Grows pos (pure () : Call BitError BitVecWriter Unit) [] := by
  intro buf hpos _
  exact ⟨buf, rfl, hpos, by simp⟩

theorem Grows.bind {write : Call BitError BitVecWriter Unit}
    {next : Unit → Call BitError BitVecWriter Unit} (h : Grows pos write items)
    (hnext : Grows (stop pos items) (next ()) more) :
    Grows pos (write >>= next) (items ++ more) := by
  intro buf hpos hmax
  rw [stop_append] at hmax
  have hle := le_stop (stop pos items) more
  obtain ⟨buf', hrun, hfits, hbits⟩ := h buf hpos (by omega)
  obtain ⟨buf'', hrun', hfits', hbits'⟩ := hnext buf' hfits hmax
  rw [stop_append, render_append]
  refine ⟨buf'', ?_, hfits', ?_⟩
  · rw [bind_apply, hrun]
    exact hrun'
  · rw [hbits', hbits, List.append_assoc]

/-- Only the bits of a layout matter, not how it is divided into items. -/
theorem Grows.of_render_eq {write : Call BitError BitVecWriter Unit} (h : Grows pos write items)
    (hrender : render pos items = render pos more) : Grows pos write more := by
  have hstop : stop pos items = stop pos more := by rw [stop, stop, hrender]
  intro buf hpos hmax
  rw [← hstop] at hmax ⊢
  rw [← hrender]
  exact h buf hpos hmax

/-! ## The methods of the fixed writer -/

/-- A call of the fixed writer on the buffer of the growable one. -/
def asFixed (write : Call BitError BitWriter α) : Call BitError BitVecWriter α := fun writer =>
  match write ⟨writer.buf, writer.bitPos⟩ with
  | .ok a after => .ok a ⟨after.buf, after.bitPos⟩
  | .error e after => .error e ⟨after.buf, after.bitPos⟩

theorem as_fixed_apply (write : Call BitError BitWriter α) (writer : BitVecWriter) :
    asFixed write writer = match write ⟨writer.buf, writer.bitPos⟩ with
      | .ok a after => .ok a ⟨after.buf, after.bitPos⟩
      | .error e after => .error e ⟨after.buf, after.bitPos⟩ := rfl

theorem as_fixed_bind {β : Type} (write : Call BitError BitWriter α)
    (next : α → Call BitError BitWriter β) :
    asFixed (write >>= next) = asFixed write >>= fun a => asFixed (next a) := by
  funext writer
  rw [bind_apply, as_fixed_apply, as_fixed_apply, bind_apply]
  cases write ⟨writer.buf, writer.bitPos⟩ with
  | ok a after => rfl
  | error e after => rfl

theorem write_bit_unchecked_eq (value : Bool) :
    BitVecWriter.writeBitUnchecked value = asFixed (BitWriter.writeBitUnchecked value) := by
  funext writer
  rw [as_fixed_apply]
  unfold BitVecWriter.writeBitUnchecked BitWriter.writeBitUnchecked
  simp only [bind_apply, get_apply, index, store, usizeAdd]
  cases writer.buf[writer.bitPos / 8]? with
  | none => rfl
  | some byte =>
      by_cases hlt : writer.bitPos / 8 < writer.buf.length
      · by_cases hadd : writer.bitPos + 1 ≤ usizeMax
        · simp only [pure_apply, if_pos hlt, if_pos hadd, set_apply]
        · simp only [pure_apply, if_pos hlt, if_neg hadd, fault_apply]
      · simp only [pure_apply, if_neg hlt, fault_apply]

theorem write_bits_loop_eq (n : Nat) (value : UInt64) :
    BitVecWriter.writeBitsLoop n value = asFixed (BitWriter.writeBitsLoop n value) := by
  induction n with
  | zero => rfl
  | succ n ih =>
      rw [BitVecWriter.writeBitsLoop, BitWriter.writeBitsLoop, as_fixed_bind, ih,
        write_bit_unchecked_eq]

theorem write_zeros_eq (n : Nat) :
    BitVecWriter.writeZeros n = asFixed (BitWriter.writeZeros n) := by
  induction n with
  | zero => rfl
  | succ n ih =>
      rw [BitVecWriter.writeZeros, BitWriter.writeZeros, as_fixed_bind, ih, write_bit_unchecked_eq]

/-- The part of `write_bytes_aligned` behind its checks. -/
theorem copy_bytes_eq (bytes : List UInt8) :
    (do
      let writer ← get
      let buf ← copyFromSlice writer.buf (writer.bitPos / 8) bytes
      let bitPos ← usizeAdd writer.bitPos (bytes.length * 8)
      set (BitVecWriter.mk buf bitPos) : Call BitError BitVecWriter Unit)
    = asFixed (do
      let writer ← get
      let buf ← copyFromSlice writer.buf (writer.bitPos / 8) bytes
      let bitPos ← usizeAdd writer.bitPos (bytes.length * 8)
      set (BitWriter.mk buf bitPos)) := by
  funext writer
  rw [as_fixed_apply]
  simp only [bind_apply, get_apply, copyFromSlice, usizeAdd]
  by_cases hlt : writer.bitPos / 8 + bytes.length ≤ writer.buf.length
  · by_cases hadd : writer.bitPos + bytes.length * 8 ≤ usizeMax
    · simp only [pure_apply, if_pos hlt, if_pos hadd, set_apply]
    · simp only [pure_apply, if_pos hlt, if_neg hadd, fault_apply]
  · simp only [if_neg hlt, fault_apply]

/-- After making room, a call that the fixed writer emits is a call of the growable one. -/
theorem Grows.of_emits {write : Call BitError BitWriter Unit} {n : Nat}
    (h : Emits pos write True items ()) (hn : stop pos items = pos + n) :
    Grows pos (do BitVecWriter.ensureCapacityBits n; asFixed write) items := by
  intro buf hpos hmax
  obtain ⟨grown, hgrown⟩ : ∃ grown, grown = if (pos + n + 7) / 8 > buf.length then
      BitVecWriter.grow buf ((pos + n + 7) / 8) else buf := ⟨_, rfl⟩
  have hensure : BitVecWriter.ensureCapacityBits n ⟨buf, pos⟩ = .ok () ⟨grown, pos⟩ := by
    rw [hn] at hmax
    simp only [BitVecWriter.ensureCapacityBits, bind_apply, get_apply, usize_add_of_le hmax,
      pure_apply]
    rw [hgrown]
    by_cases hshort : (pos + n + 7) / 8 > buf.length
    · rw [if_pos hshort, if_pos hshort]
      rfl
    · rw [if_neg hshort, if_neg hshort]
      rfl
  -- The bytes that are added stand behind the bits that are there.
  have hprefix : ∃ zeros, grown = buf ++ zeros ∧ pos + n ≤ 8 * grown.length := by
    by_cases hshort : (pos + n + 7) / 8 > buf.length
    · rw [hgrown, if_pos hshort, BitVecWriter.grow]
      refine ⟨_, rfl, ?_⟩
      rw [List.length_append, List.length_replicate]
      omega
    · rw [hgrown, if_neg hshort]
      exact ⟨[], (List.append_nil buf).symm, by omega⟩
  obtain ⟨zeros, hzeros, hroom⟩ := hprefix
  have hcap : stop pos items ≤ capacity grown := by
    rw [capacity, saturatingMul]
    omega
  obtain ⟨buf', hrun, hbits⟩ := (h grown (Nat.le_trans (le_stop pos items) hcap)).1 trivial hcap
  have hlength := length_eq_of_overwrite hbits hcap
  refine ⟨buf', ?_, by omega, ?_⟩
  · rw [bind_apply, hensure]
    simp only [as_fixed_apply, hrun]
  · have hkept : ((ofBytes grown).take pos).length = pos := by
      rw [List.length_take, length_ofBytes]
      omega
    have htaken : ((ofBytes grown).take pos ++ render pos items).length = stop pos items := by
      rw [List.length_append, hkept, stop]
    rw [hbits, overwrite, List.take_left' htaken, hzeros, ofBytes_append,
      List.take_append_of_le_length (by rw [length_ofBytes]; exact hpos)]

/-! ## The methods -/

theorem grows_write_bit (value : Bool) : Grows pos (BitVecWriter.writeBit value) [.bit value] := by
  rw [BitVecWriter.writeBit, write_bit_unchecked_eq]
  exact Grows.of_emits (emits_write_bit_unchecked value) (stop_bit pos value)

theorem grows_write_bits {value : UInt64} {bits : UInt8} (hbits : bits.toNat ≤ 64)
    (hvalue : value.toNat < 2 ^ bits.toNat) :
    Grows pos (BitVecWriter.writeBits value bits) [.number bits.toNat value.toNat] := by
  have hmax : ¬ bits > 64 := by
    rw [gt_iff_lt, UInt8.lt_iff_toNat_lt]
    exact Nat.not_lt.mpr hbits
  have hrender : render pos (flags (ofNat bits.toNat value.toNat))
      = render pos [.number bits.toNat value.toNat] := by
    rw [render_flags, render_cons, render_nil, List.append_nil]
    rfl
  unfold BitVecWriter.writeBits
  rw [if_neg hmax]
  by_cases hzero : bits = 0
  · rw [if_pos hzero]
    refine Grows.of_render_eq Grows.pure ?_
    rw [← hrender, hzero]
    rfl
  · have hrange : ¬ (bits < 64 ∧ value ≥ 1 <<< bits.toUInt64) := by
      intro hout
      have hlt : bits.toNat < 64 := UInt8.lt_iff_toNat_lt.mp hout.1
      have := (one_shiftLeft_le_iff hlt).mp hout.2
      omega
    rw [if_neg hzero, if_neg hrange, write_bits_loop_eq]
    refine (Grows.of_emits (emits_write_bits_loop bits.toNat value hbits) ?_).of_render_eq hrender
    rw [stop, hrender, ← stop, stop_number]

theorem grows_align_to_byte : Grows pos BitVecWriter.alignToByte [.align] := by
  intro buf
  by_cases haligned : pos % 8 = 0
  · have hrun : BitVecWriter.alignToByte ⟨buf, pos⟩ = .ok () ⟨buf, pos⟩ := by
      simp only [BitVecWriter.alignToByte, bind_apply, get_apply, if_pos haligned, pure_apply]
    have hpure := @Grows.of_render_eq pos [] [.align] _ Grows.pure
      (by rw [render_align_of_aligned haligned])
    rw [hrun]
    exact hpure buf
  · have hpad : padding pos = 8 - pos % 8 := by
      rw [padding]
      omega
    have hzeros :
        render pos (flags (List.replicate (8 - pos % 8) false)) = render pos [.align] := by
      rw [render_flags, render_cons, render_nil, List.append_nil, Item.render, hpad]
    have hgrows := (Grows.of_emits (emits_write_zeros (8 - pos % 8))
      (by rw [stop, render_flags, List.length_replicate])).of_render_eq hzeros
    rw [← write_zeros_eq] at hgrows
    have hrun : BitVecWriter.alignToByte ⟨buf, pos⟩ = (do
        BitVecWriter.ensureCapacityBits (8 - pos % 8)
        BitVecWriter.writeZeros (8 - pos % 8)) ⟨buf, pos⟩ := by
      conv_lhs => unfold BitVecWriter.alignToByte
      rw [bind_apply, get_apply]
      dsimp only
      rw [if_neg haligned]
    rw [hrun]
    exact hgrows buf

/-- The check of the position passes at a byte boundary. -/
theorem Grows.ensure_aligned {write : Call BitError BitVecWriter Unit} (hpos : pos % 8 = 0)
    (h : Grows pos write items) : Grows pos (do BitVecWriter.ensureAligned; write) items := by
  intro buf
  have haligned : ¬ pos % 8 ≠ 0 := not_not.mpr hpos
  have hrun : BitVecWriter.ensureAligned ⟨buf, pos⟩ = .ok () ⟨buf, pos⟩ := by
    simp only [BitVecWriter.ensureAligned, bind_apply, get_apply, if_neg haligned, pure_apply]
  rw [bind_apply, hrun]
  exact h buf

theorem grows_write_bytes_aligned (hpos : pos % 8 = 0) (values : List UInt8) :
    Grows pos (BitVecWriter.writeBytesAligned values) (bytes values) := by
  refine Grows.ensure_aligned hpos ?_
  rw [copy_bytes_eq]
  exact Grows.of_emits (emits_copy_bytes hpos values) (by rw [stop_bytes, Nat.mul_comm])

theorem vec_write_u8_aligned_eq (value : UInt8) :
    BitVecWriter.writeU8Aligned value = BitVecWriter.writeBytesAligned [value] := by
  simp only [BitVecWriter.writeU8Aligned, BitVecWriter.writeBytesAligned, store_eq_copy_from_slice,
    List.length_singleton, Nat.one_mul]

theorem grows_write_u8_aligned (hpos : pos % 8 = 0) (value : UInt8) :
    Grows pos (BitVecWriter.writeU8Aligned value) [.byte value] := by
  rw [vec_write_u8_aligned_eq]
  exact grows_write_bytes_aligned hpos [value]

theorem grows_write_varu32_loop (fuel : Nat) (value : UInt32) (hpos : pos % 8 = 0) :
    Grows pos (BitVecWriter.writeVaru32Loop fuel value) (bytes (leb128 fuel value.toNat)) := by
  induction fuel generalizing pos value with
  | zero => exact Grows.pure
  | succ fuel ih =>
      rw [BitVecWriter.writeVaru32Loop]
      simp only [varint_byte_eq]
      by_cases h : value.toNat < 128
      · rw [leb128_of_lt h, if_pos h]
        refine (grows_write_u8_aligned hpos _).bind ?_
        rw [if_pos ((shiftRight_seven_eq_zero value).mpr h)]
        exact Grows.pure
      · rw [leb128_of_le (Nat.le_of_not_lt h), if_neg h]
        refine (grows_write_u8_aligned hpos _).bind ?_
        rw [if_neg (mt (shiftRight_seven_eq_zero value).mp h), ← shiftRight_seven_toNat]
        exact ih _ (by rw [stop_byte]; omega)

theorem grows_write_varu32 (hpos : pos % 8 = 0) (value : UInt32) :
    Grows pos (BitVecWriter.writeVaru32 value) (bytes (varu32 value)) :=
  Grows.ensure_aligned hpos (grows_write_varu32_loop 5 value hpos)

end Sdec.Bitstream
