import Sdec.Bitstream.Error

/-!
# The growable bit writer

`BitVecWriter`, after `bitstream/src/writer.rs`. Its methods are those of `BitWriter`, except that a
method makes room where the other one checks for it. A vector of bytes is a list, and growing it
cannot fail here.
-/

namespace Sdec.Bitstream

open Rust

/-- `BitVecWriter`. -/
structure BitVecWriter where
  buf : List UInt8
  bitPos : Nat
  deriving DecidableEq, Repr

namespace BitVecWriter

/-- `BitVecWriter::new`. -/
def new : BitVecWriter := ⟨[], 0⟩

/-- `BitVecWriter::finish`. -/
def finish (writer : BitVecWriter) : List UInt8 := writer.buf.take ((writer.bitPos + 7) / 8)

/-- `Vec::resize` with zero bytes, to a length that is not smaller. -/
def grow (buf : List UInt8) (length : Nat) : List UInt8 :=
  buf ++ List.replicate (length - buf.length) 0

/-- `BitVecWriter::ensure_capacity_bits`. -/
def ensureCapacityBits (bits : Nat) : Call BitError BitVecWriter Unit := do
  let writer ← get
  let requiredBits ← usizeAdd writer.bitPos bits
  let requiredBytes := (requiredBits + 7) / 8
  if requiredBytes > writer.buf.length then
    set { writer with buf := grow writer.buf requiredBytes }

/-- `BitVecWriter::ensure_aligned`. -/
def ensureAligned : Call BitError BitVecWriter Unit := do
  let writer ← get
  if writer.bitPos % 8 ≠ 0 then
    fail (.misalignedAccess writer.bitPos)

/-- `BitVecWriter::write_bit_unchecked`. -/
def writeBitUnchecked (value : Bool) : Call BitError BitVecWriter Unit := do
  let writer ← get
  let byteIdx := writer.bitPos / 8
  let bitIdx := writer.bitPos % 8
  let mask : UInt8 := 1 <<< UInt8.ofNat (7 - bitIdx)
  let byte ← index writer.buf byteIdx
  let buf ← store writer.buf byteIdx (if value then byte ||| mask else byte &&& ~~~mask)
  let bitPos ← usizeAdd writer.bitPos 1
  set (BitVecWriter.mk buf bitPos)

/-- `BitVecWriter::write_bit`. -/
def writeBit (value : Bool) : Call BitError BitVecWriter Unit := do
  ensureCapacityBits 1
  writeBitUnchecked value

/-- The loop of `BitVecWriter::write_bits`, over the bit numbers below its first argument, from the
highest down. -/
def writeBitsLoop : Nat → UInt64 → Call BitError BitVecWriter Unit
  | 0, _ => return
  | i + 1, value => do
      writeBitUnchecked ((value >>> UInt64.ofNat i) &&& 1 == 1)
      writeBitsLoop i value

/-- `BitVecWriter::write_bits`. -/
def writeBits (value : UInt64) (bits : UInt8) : Call BitError BitVecWriter Unit := do
  if bits > 64 then
    fail (.invalidBitCount bits 64)
  if bits = 0 then
    return
  if bits < 64 ∧ value ≥ 1 <<< bits.toUInt64 then
    fail (.valueOutOfRange value bits)
  ensureCapacityBits bits.toNat
  writeBitsLoop bits.toNat value

/-- The loop of `BitVecWriter::align_to_byte`. -/
def writeZeros : Nat → Call BitError BitVecWriter Unit
  | 0 => return
  | n + 1 => do
      writeBitUnchecked false
      writeZeros n

/-- `BitVecWriter::align_to_byte`. -/
def alignToByte : Call BitError BitVecWriter Unit := do
  let writer ← get
  let rem := writer.bitPos % 8
  if rem = 0 then
    return
  let padding := 8 - rem
  ensureCapacityBits padding
  writeZeros padding

/-- `BitVecWriter::write_u8_aligned`. -/
def writeU8Aligned (value : UInt8) : Call BitError BitVecWriter Unit := do
  ensureAligned
  ensureCapacityBits 8
  let writer ← get
  let idx := writer.bitPos / 8
  let buf ← store writer.buf idx value
  let bitPos ← usizeAdd writer.bitPos 8
  set (BitVecWriter.mk buf bitPos)

/-- `BitVecWriter::write_bytes_aligned`. -/
def writeBytesAligned (bytes : List UInt8) : Call BitError BitVecWriter Unit := do
  ensureAligned
  ensureCapacityBits (bytes.length * 8)
  let writer ← get
  let idx := writer.bitPos / 8
  let buf ← copyFromSlice writer.buf idx bytes
  let bitPos ← usizeAdd writer.bitPos (bytes.length * 8)
  set (BitVecWriter.mk buf bitPos)

/-- `BitVecWriter::write_u16_aligned`. -/
def writeU16Aligned (value : UInt16) : Call BitError BitVecWriter Unit :=
  writeBytesAligned (leBytes 2 value.toNat)

/-- `BitVecWriter::write_u32_aligned`. -/
def writeU32Aligned (value : UInt32) : Call BitError BitVecWriter Unit :=
  writeBytesAligned (leBytes 4 value.toNat)

/-- `BitVecWriter::write_u64_aligned`. -/
def writeU64Aligned (value : UInt64) : Call BitError BitVecWriter Unit :=
  writeBytesAligned (leBytes 8 value.toNat)

/-- The loop of `BitVecWriter::write_varu32`. Five iterations are enough, as for `BitWriter`. -/
def writeVaru32Loop : Nat → UInt32 → Call BitError BitVecWriter Unit
  | 0, _ => return
  | fuel + 1, value => do
      let byte := (value &&& 0x7F).toUInt8
      let value := value >>> 7
      writeU8Aligned (if value ≠ 0 then byte ||| 0x80 else byte)
      if value = 0 then
        return
      writeVaru32Loop fuel value

/-- `BitVecWriter::write_varu32`. -/
def writeVaru32 (value : UInt32) : Call BitError BitVecWriter Unit := do
  ensureAligned
  writeVaru32Loop 5 value

/-- `BitVecWriter::write_vars32`. -/
def writeVars32 (value : Int32) : Call BitError BitVecWriter Unit :=
  writeVaru32 ((value <<< 1) ^^^ (value >>> 31)).toUInt32

end BitVecWriter

end Sdec.Bitstream
