import Sdec.Bitstream.Writer
import Sdec.Codec.Field

/-!
# Writing sections

`write_section`, after `codec/src/snapshot.rs`. The body is written behind the room of the longest
length varint, and moved to the front once its length is known.
-/

namespace Sdec.Codec

open Rust Bitstream Wire

/-- `VARINT_MAX_BYTES`. -/
def VARINT_MAX_BYTES : Nat := 5

/-- The loop of `varu32_len` in `snapshot.rs`. -/
def varu32LenLoop : Nat → UInt32 → Nat → Nat
  | 0, _, len => len
  | fuel + 1, value, len => if value ≥ 0x80 then varu32LenLoop fuel (value >>> 7) (len + 1) else len

/-- `varu32_len` of `snapshot.rs`. -/
def varu32Len (value : UInt32) : Nat := varu32LenLoop 5 value 1

/-- `write_varu32` of `snapshot.rs`. -/
def writeVaru32 (value : UInt32) (out : List UInt8) : Outcome CodecError (List UInt8) := do
  let (_, out) ← writeVaru32Loop 5 0 value out
  return out

/-- `write_section`. Besides the number of bytes written it returns what `write_body` returns, for
the bodies that also fill scratch buffers. -/
def writeSection {α : Type} (tag : SectionTag) (limits : CodecLimits)
    (writeBody : Call CodecError BitWriter α) (out : List UInt8) :
    Outcome CodecError ((α × Nat) × List UInt8) := do
  if out.length < 1 + VARINT_MAX_BYTES then
    fail (.outputTooSmall (1 + VARINT_MAX_BYTES) out.length)
  let bodyStart := 1 + VARINT_MAX_BYTES
  let body ← slice out bodyStart out.length
  let (a, writer) ← writeBody.runOn (BitWriter.new body)
  let out := out.take bodyStart ++ writer.buf
  let bodyLen := writer.finish
  if bodyLen > limits.maxSectionBytes then
    fail (.limitsExceeded .sectionBytes limits.maxSectionBytes bodyLen)
  if bodyLen ≥ 2 ^ 32 then
    fail (.outputTooSmall bodyLen out.length)
  let lenU32 := UInt32.ofNat bodyLen
  let lenBytes := varu32Len lenU32
  let totalNeeded := 1 + lenBytes + bodyLen
  if out.length < totalNeeded then
    fail (.outputTooSmall totalNeeded out.length)
  let out ← store out 0 tag.toU8
  let varint ← slice out 1 (1 + lenBytes)
  let varint ← writeVaru32 lenU32 varint
  let out ← copyFromSlice out 1 varint
  let shift ← usizeSub VARINT_MAX_BYTES lenBytes
  if shift > 0 then
    let out ← copyWithin out bodyStart (bodyStart + bodyLen) (1 + lenBytes)
    return ((a, totalNeeded), out)
  else
    return ((a, totalNeeded), out)

/-- `if c { offset += write_section(tag, &mut out[offset..], limits, body)?; }`, with the value that
the body returns, or `a` where there is no section. -/
def appendSection {α : Type} (c : Bool) (tag : SectionTag) (limits : CodecLimits)
    (writeBody : Call CodecError BitWriter α) (a : α) (offset : Nat) (out : List UInt8) :
    Outcome CodecError ((α × Nat) × List UInt8) := do
  if c then
    let ((a, written), out) ← withTail out offset (writeSection tag limits writeBody)
    let offset ← usizeAdd offset written
    return ((a, offset), out)
  else
    return ((a, offset), out)

end Sdec.Codec
