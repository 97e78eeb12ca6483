import Sdec.Bitstream.Emits
import Sdec.Rust.Ensures

/-!
# Writers inside their buffers

A writer is `Within` a size if its buffer has that size and its position is inside the buffer. Every
method of `BitWriter` keeps it there, and none of them panics: behind the check that enough bits
remain, each index is in bounds and no position overflows.
-/

namespace Sdec.Bitstream

open Rust Bits

variable {α : Type} {size : Nat} {risk : Prop}

/-- The writer has a buffer of the given size, and its position is inside. -/
def Within (size : Nat) (writer : BitWriter) : Prop :=
  writer.buf.length = size ∧ writer.bitPos ≤ capacity writer.buf

theorem within_new (buf : List UInt8) : Within buf.length (BitWriter.new buf) :=
  ⟨rfl, Nat.zero_le _⟩

/-- The bytes that a writer has used are bytes of its buffer. -/
theorem Within.finish_le {writer : BitWriter} (h : Within size writer) : writer.finish ≤ size := by
  have hcap := capacity_le writer.buf
  have hpos := h.2
  rw [length_ofBytes, h.1] at hcap
  rw [BitWriter.finish]
  omega

/-- Behind the check that there is room for a layout, writing the layout does not fail. -/
theorem Within.ensure_bits {writer : BitWriter} {write : Call BitError BitWriter α} {items : Layout}
    {a : α} {bits : Nat} (hwriter : Within size writer) (h : Emits writer.bitPos write True items a)
    (hbits : stop writer.bitPos items = writer.bitPos + bits) :
    EndsIn writer (do BitWriter.ensureBits bits; write) (fun _ w => True ∧ Within size w)
      (PanicsOnlyIf risk) := by
  have hrem : writer.bitsRemaining = capacity writer.buf - writer.bitPos := rfl
  by_cases hfits : bits > writer.bitsRemaining
  · have hshort : BitWriter.ensureBits bits writer
        = .error (.err (.writeOverflow bits writer.bitsRemaining)) writer := by
      simp only [BitWriter.ensureBits, bind_apply, get_apply, if_pos hfits, fail_apply]
    exact EndsIn.bind_error hshort (panics_only_if_err _)
  · have henough : BitWriter.ensureBits bits writer = .ok () writer := by
      simp only [BitWriter.ensureBits, bind_apply, get_apply, if_neg hfits, pure_apply]
    refine EndsIn.bind_same henough ?_
    have hpos := hwriter.2
    have hstop : stop writer.bitPos items ≤ capacity writer.buf := by omega
    obtain ⟨buf, hrun, hbuf⟩ := (h writer.buf hpos).1 trivial hstop
    have hroom : writer.bitPos + (render writer.bitPos items).length ≤ capacity writer.buf := hstop
    have hlen := length_eq_of_overwrite hbuf hroom
    refine EndsIn.of_ok hrun ⟨trivial, hlen.trans hwriter.1, ?_⟩
    rwa [capacity_eq_of_overwrite hbuf hroom]

/-! ## Bits -/

theorem keeps_write_bit (value : Bool) :
    Keeps (Within size) (BitWriter.writeBit value) (fun _ => True) (PanicsOnlyIf risk) :=
  Keeps.of_ends_in fun _ hwriter =>
    hwriter.ensure_bits (emits_write_bit_unchecked value) (stop_bit _ value)

theorem keeps_write_bits (value : UInt64) (bits : UInt8) :
    Keeps (Within size) (BitWriter.writeBits value bits) (fun _ => True) (PanicsOnlyIf risk) := by
  unfold BitWriter.writeBits
  refine Keeps.check (fun _ => panics_only_if_err _) fun hwide => ?_
  have hle : bits.toNat ≤ 64 := UInt8.le_iff_toNat_le.mp (UInt8.not_lt.mp hwide)
  refine Keeps.ite (fun _ => Keeps.pure trivial) fun _ => ?_
  refine Keeps.check (fun _ => panics_only_if_err _) fun _ =>
    Keeps.of_ends_in fun writer hwriter => ?_
  refine hwriter.ensure_bits (emits_write_bits_loop bits.toNat value hle) ?_
  rw [stop, render_flags, length_ofNat]

theorem keeps_align_to_byte :
    Keeps (Within size) BitWriter.alignToByte (fun _ => True) (PanicsOnlyIf risk) := by
  refine Keeps.of_ends_in fun writer hwriter => ?_
  unfold BitWriter.alignToByte
  refine EndsIn.bind_same (get_apply writer) ?_
  by_cases haligned : writer.bitPos % 8 = 0
  · rw [if_pos haligned]
    exact EndsIn.of_ok rfl ⟨trivial, hwriter⟩
  · rw [if_neg haligned]
    refine hwriter.ensure_bits (emits_write_zeros _) ?_
    rw [stop, render_flags, List.length_replicate]

/-! ## Bytes -/

theorem keeps_ensure_aligned {next : Call BitError BitWriter α}
    (h : ∀ writer, Within size writer → writer.bitPos % 8 = 0 →
      EndsIn writer next (fun _ w => True ∧ Within size w) (PanicsOnlyIf risk)) :
    Keeps (Within size) (do BitWriter.ensureAligned; next) (fun _ => True) (PanicsOnlyIf risk) := by
  refine Keeps.of_ends_in fun writer hwriter => ?_
  by_cases haligned : writer.bitPos % 8 = 0
  · have hpass : BitWriter.ensureAligned writer = .ok () writer := by
      simp only [BitWriter.ensureAligned, bind_apply, get_apply, if_neg (not_not.mpr haligned),
        pure_apply]
    exact EndsIn.bind_same hpass (h writer hwriter haligned)
  · have hfail : BitWriter.ensureAligned writer
        = .error (.err (.misalignedAccess writer.bitPos)) writer := by
      simp only [BitWriter.ensureAligned, bind_apply, get_apply, if_pos haligned, fail_apply]
    exact EndsIn.bind_error hfail (panics_only_if_err _)

theorem keeps_write_bytes_aligned (values : List UInt8) :
    Keeps (Within size) (BitWriter.writeBytesAligned values) (fun _ => True)
      (PanicsOnlyIf risk) := by
  refine keeps_ensure_aligned fun writer hwriter haligned => ?_
  exact hwriter.ensure_bits (emits_copy_bytes haligned values) (by rw [stop_bytes, Nat.mul_comm])

theorem keeps_write_u8_aligned (value : UInt8) :
    Keeps (Within size) (BitWriter.writeU8Aligned value) (fun _ => True) (PanicsOnlyIf risk) := by
  rw [write_u8_aligned_eq]
  exact keeps_write_bytes_aligned [value]

theorem keeps_write_varu32 (value : UInt32) :
    Keeps (Within size) (BitWriter.writeVaru32 value) (fun _ => True) (PanicsOnlyIf risk) := by
  have hloop (fuel : Nat) (value : UInt32) : Keeps (Within size)
      (BitWriter.writeVaru32Loop fuel value) (fun _ => True) (PanicsOnlyIf risk) := by
    induction fuel generalizing value with
    | zero => exact Keeps.pure trivial
    | succ fuel ih =>
        unfold BitWriter.writeVaru32Loop
        refine (keeps_write_u8_aligned _).bind fun _ _ => ?_
        exact Keeps.ite (fun _ => Keeps.pure trivial) fun _ => ih _
  exact keeps_ensure_aligned fun writer hwriter _ => hloop 5 value writer hwriter

end Sdec.Bitstream
