import Sdec.Bitstream.Error

/-!
# The bit writer

`BitWriter`, after `bitstream/src/writer.rs`. A writer is a fixed buffer and a bit position, and
each method overwrites bits from the position on and advances it. The buffer never grows: writing
past its end is an error.
-/

namespace Sdec.Bitstream

open Rust

/-- `BitWriter`. -/
structure BitWriter where
  buf : List UInt8
  bitPos : Nat
  deriving DecidableEq, Repr

namespace BitWriter

/-- `BitWriter::new`. -/
def new (buf : List UInt8) : BitWriter := ⟨buf, 0⟩

/-- `BitWriter::bits_remaining`. -/
def bitsRemaining (writer : BitWriter) : Nat :=
  saturatingMul writer.buf.length 8 - writer.bitPos

/-- `BitWriter::finish`, the number of bytes used. -/
def finish (writer : BitWriter) : Nat := (writer.bitPos + 7) / 8

/-- `BitWriter::ensure_bits`. -/
def ensureBits (bits : Nat) : Call BitError BitWriter Unit := do
  let writer ← get
  let available := writer.bitsRemaining
  if bits > available then
    fail (.writeOverflow bits available)

/-- `BitWriter::ensure_aligned`. -/
def ensureAligned : Call BitError BitWriter Unit := do
  let writer ← get
  if writer.bitPos % 8 ≠ 0 then
    fail (.misalignedAccess writer.bitPos)

/-- `BitWriter::write_bit_unchecked`. -/
def writeBitUnchecked (value : Bool) : Call BitError BitWriter Unit := do
  let writer ← get
  let byteIdx := writer.bitPos / 8
  let bitIdx := writer.bitPos % 8
  let mask : UInt8 := 1 <<< UInt8.ofNat (7 - bitIdx)
  let byte ← index writer.buf byteIdx
  let buf ← store writer.buf byteIdx (if value then byte ||| mask else byte &&& ~~~mask)
  let bitPos ← usizeAdd writer.bitPos 1
  set (BitWriter.mk buf bitPos)

/-- `BitWriter::write_bit`. -/
def writeBit (value : Bool) : Call BitError BitWriter Unit := do
  ensureBits 1
  writeBitUnchecked value

/-- The loop of `BitWriter::write_bits`, over the bit numbers below its first argument, from the
highest down. -/
def writeBitsLoop : Nat → UInt64 → Call BitError BitWriter Unit
  | 0, _ => return
  | i + 1, value => do
      writeBitUnchecked ((value >>> UInt64.ofNat i) &&& 1 == 1)
      writeBitsLoop i value

/-- `BitWriter::write_bits`. -/
def writeBits (value : UInt64) (bits : UInt8) : Call BitError BitWriter Unit := do
  if bits > 64 then
    fail (.invalidBitCount bits 64)
  if bits = 0 then
    return
  if bits < 64 ∧ value ≥ 1 <<< bits.toUInt64 then
    fail (.valueOutOfRange value bits)
  ensureBits bits.toNat
  writeBitsLoop bits.toNat value

/-- The loop of `BitWriter::align_to_byte`. -/
def writeZeros : Nat → Call BitError BitWriter Unit
  | 0 => return
  | n + 1 => do
      writeBitUnchecked false
      writeZeros n

/-- `BitWriter::align_to_byte`. -/
def alignToByte : Call BitError BitWriter Unit := do
  let writer ← get
  let rem := writer.bitPos % 8
  if rem = 0 then
    return
  let padding := 8 - rem
  ensureBits padding
  writeZeros padding

/-- `BitWriter::write_u8_aligned`. -/
def writeU8Aligned (value : UInt8) : Call BitError BitWriter Unit := do
  ensureAligned
  ensureBits 8
  let writer ← get
  let idx := writer.bitPos / 8
  let buf ← store writer.buf idx value
  let bitPos ← usizeAdd writer.bitPos 8
  set (BitWriter.mk buf bitPos)

/-- `BitWriter::write_bytes_aligned`. -/
def writeBytesAligned (bytes : List UInt8) : Call BitError BitWriter Unit := do
  ensureAligned
  ensureBits (bytes.length * 8)
  let writer ← get
  let idx := writer.bitPos / 8
  let buf ← copyFromSlice writer.buf idx bytes
  let bitPos ← usizeAdd writer.bitPos (bytes.length * 8)
  set (BitWriter.mk buf bitPos)

/-- `BitWriter::write_u16_aligned`. -/
def writeU16Aligned (value : UInt16) : Call BitError BitWriter Unit :=
  writeBytesAligned (leBytes 2 value.toNat)

/-- `BitWriter::write_u32_aligned`. -/
def writeU32Aligned (value : UInt32) : Call BitError BitWriter Unit :=
  writeBytesAligned (leBytes 4 value.toNat)

/-- `BitWriter::write_u64_aligned`. -/
def writeU64Aligned (value : UInt64) : Call BitError BitWriter Unit :=
  writeBytesAligned (leBytes 8 value.toNat)

/-- The loop of `BitWriter::write_varu32`. Its first argument bounds the iterations: a `u32` has at
most five groups of seven bits, so five are enough. -/
def writeVaru32Loop : Nat → UInt32 → Call BitError BitWriter Unit
  | 0, _ => return
  | fuel + 1, value => do
      let byte := (value &&& 0x7F).toUInt8
      let value := value >>> 7
      writeU8Aligned (if value ≠ 0 then byte ||| 0x80 else byte)
      if value = 0 then
        return
      writeVaru32Loop fuel value

/-- `BitWriter::write_varu32`. -/
def writeVaru32 (value : UInt32) : Call BitError BitWriter Unit := do
  ensureAligned
  writeVaru32Loop 5 value

/-- `BitWriter::write_vars32`. -/
def writeVars32 (value : Int32) : Call BitError BitWriter Unit :=
  writeVaru32 ((value <<< 1) ^^^ (value >>> 31)).toUInt32

end BitWriter

end Sdec.Bitstream
