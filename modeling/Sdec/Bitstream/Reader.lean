import Sdec.Bitstream.Error

/-!
# The bit reader

`BitReader`, after `bitstream/src/reader.rs`. A reader is a byte slice and a bit position, and each
method advances the position. Bits are read from the most significant end of each byte.
-/

namespace Sdec.Bitstream

open Rust

/-- `BitReader`. -/
structure BitReader where
  data : List UInt8
  bitPos : Nat
  deriving DecidableEq, Repr

namespace BitReader

/-- `BitReader::new`. -/
def new (data : List UInt8) : BitReader := ⟨data, 0⟩

/-- `BitReader::bits_remaining`. -/
def bitsRemaining (reader : BitReader) : Nat :=
  saturatingMul reader.data.length 8 - reader.bitPos

/-- `BitReader::read_bit`. -/
def readBit : Call BitError BitReader Bool := do
  let reader ← get
  if reader.bitsRemaining = 0 then
    fail (.unexpectedEof 1 0)
  let byteIdx := reader.bitPos / 8
  let bitIdx := reader.bitPos % 8
  let byte ← index reader.data byteIdx
  let bit := (byte >>> UInt8.ofNat (7 - bitIdx)) &&& 1
  let bitPos ← usizeAdd reader.bitPos 1
  set { reader with bitPos }
  return bit == 1

/-- The loop of `BitReader::read_bits`. -/
def readBitsLoop : Nat → UInt64 → Call BitError BitReader UInt64
  | 0, value => return value
  | bits + 1, value => do
      let bit ← readBit
      readBitsLoop bits ((value <<< 1) ||| bit.toUInt64)

/-- `BitReader::read_bits`. -/
def readBits (bits : UInt8) : Call BitError BitReader UInt64 := do
  if bits > 64 then
    fail (.invalidBitCount bits 64)
  if bits = 0 then
    return 0
  let reader ← get
  if bits.toNat > reader.bitsRemaining then
    fail (.unexpectedEof bits.toNat reader.bitsRemaining)
  readBitsLoop bits.toNat 0

/-- `BitReader::align_to_byte`. -/
def alignToByte : Call BitError BitReader Unit := do
  let reader ← get
  let rem := reader.bitPos % 8
  if rem = 0 then
    return
  let skip := 8 - rem
  if skip > reader.bitsRemaining then
    fail (.unexpectedEof skip reader.bitsRemaining)
  let bitPos ← usizeAdd reader.bitPos skip
  set { reader with bitPos }

/-- `BitReader::ensure_aligned`. -/
def ensureAligned : Call BitError BitReader Unit := do
  let reader ← get
  if reader.bitPos % 8 ≠ 0 then
    fail (.misalignedAccess reader.bitPos)

/-- `BitReader::ensure_bits`. -/
def ensureBits (bits : Nat) : Call BitError BitReader Unit := do
  let reader ← get
  let available := reader.bitsRemaining
  if bits > available then
    fail (.unexpectedEof bits available)

/-- `BitReader::read_u8_aligned`. -/
def readU8Aligned : Call BitError BitReader UInt8 := do
  ensureAligned
  ensureBits 8
  let reader ← get
  let idx := reader.bitPos / 8
  let value ← index reader.data idx
  let bitPos ← usizeAdd reader.bitPos 8
  set { reader with bitPos }
  return value

/-- `BitReader::read_aligned_bytes`, with the array length `N` as an argument. -/
def readAlignedBytes (n : Nat) : Call BitError BitReader (List UInt8) := do
  ensureAligned
  ensureBits (n * 8)
  let reader ← get
  let idx := reader.bitPos / 8
  let out ← slice reader.data idx (idx + n)
  let bitPos ← usizeAdd reader.bitPos (n * 8)
  set { reader with bitPos }
  return out

/-- `BitReader::read_u16_aligned`. -/
def readU16Aligned : Call BitError BitReader UInt16 := do
  let bytes ← readAlignedBytes 2
  return UInt16.ofNat (leNat bytes)

/-- `BitReader::read_u32_aligned`. -/
def readU32Aligned : Call BitError BitReader UInt32 := do
  let bytes ← readAlignedBytes 4
  return UInt32.ofNat (leNat bytes)

/-- `BitReader::read_u64_aligned`. -/
def readU64Aligned : Call BitError BitReader UInt64 := do
  let bytes ← readAlignedBytes 8
  return UInt64.ofNat (leNat bytes)

/-- The loop of `BitReader::read_varu32`, over the shifts `0, 7, .., 28`. -/
def readVaru32Loop : List UInt32 → UInt32 → Call BitError BitReader UInt32
  | [], _ => fail .invalidVarint
  | shift :: shifts, result => do
      let byte ← readU8Aligned
      let result := result ||| ((byte &&& 0x7F).toUInt32 <<< shift)
      if byte &&& 0x80 = 0 then
        return result
      readVaru32Loop shifts result

/-- `BitReader::read_varu32`. -/
def readVaru32 : Call BitError BitReader UInt32 := do
  ensureAligned
  readVaru32Loop [0, 7, 14, 21, 28] 0

/-- `BitReader::read_vars32`. -/
def readVars32 : Call BitError BitReader Int32 := do
  let value ← readVaru32
  return (value >>> 1).toInt32 ^^^ (-(value &&& 1).toInt32)

end BitReader

end Sdec.Bitstream
