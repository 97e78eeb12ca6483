import Sdec.Bitstream.Reader
import Sdec.Bitstream.Writer
import Sdec.Codec.Types
import Sdec.Schema.Hash

/-!
# Field values

Reading and writing one field value, after the field functions of `codec/src/snapshot.rs`. The
source has each function twice, for dense and for sparse sections; both copies are here. `i64`
arithmetic panics on overflow or wraps, as the build says.
-/

namespace Sdec

open Rust Bitstream

section Arithmetic

variable {ε : Type} {m : Type → Type} [Monad m] [MonadFault ε m]

/-- The outcome of `i64` arithmetic with the exact result `exact` and the wrapped one `wrapped`. -/
def Build.i64 (build : Build) (exact : Int) (wrapped : Int64) : m Int64 :=
  if build.overflowChecks ∧ wrapped.toInt ≠ exact then fault .panic else pure wrapped

/-- An `i64` sum. -/
def Build.add (build : Build) (a b : Int64) : m Int64 := build.i64 (a.toInt + b.toInt) (a + b)

/-- An `i64` difference. -/
def Build.sub (build : Build) (a b : Int64) : m Int64 := build.i64 (a.toInt - b.toInt) (a - b)

end Arithmetic

/-- `u64::leading_zeros`. -/
def leadingZeros (value : UInt64) : Nat := if value = 0 then 64 else 63 - value.toNat.log2

namespace Codec

/-- The `?` on a call of the bit reader or writer. -/
def stream {σ α : Type} (x : Call BitError σ α) : Call CodecError σ α := x.mapErr .bitstream

/-- `codec_name`. -/
def codecName : FieldCodec → String
  | .bool => "bool"
  | .uint _ => "uint"
  | .sint _ => "sint"
  | .varUInt => "varuint"
  | .varSInt => "varsint"
  | .fixedPoint _ => "fixed-point"

/-- `value_name`. -/
def valueName : FieldValue → String
  | .bool _ => "bool"
  | .uint _ => "uint"
  | .sint _ => "sint"
  | .varUInt _ => "varuint"
  | .varSInt _ => "varsint"
  | .fixedPoint _ => "fixed-point"

/-- `validate_uint`. The bound is a `u128` in the source. -/
def validateUint (componentId : ComponentId) (fieldId : FieldId) (bits : UInt8) (value : UInt64) :
    Outcome CodecError Unit :=
  if bits = 64 then return
  else if value.toNat ≥ 2 ^ bits.toNat then
    fail (.invalidValue componentId fieldId (.unsignedOutOfRange bits value))
  else return

/-- `encode_sint`. The bounds are `i128`s in the source. -/
def encodeSint (componentId : ComponentId) (fieldId : FieldId) (bits : UInt8) (value : Int64) :
    Outcome CodecError UInt64 :=
  if bits = 64 then return value.toUInt64
  else if value.toInt < -(2 ^ (bits.toNat - 1)) ∨ value.toInt > 2 ^ (bits.toNat - 1) - 1 then
    fail (.invalidValue componentId fieldId (.signedOutOfRange bits value))
  else
    let mask : UInt64 := (1 <<< bits.toUInt64) - 1
    return value.toUInt64 &&& mask

/-- `decode_sint`. -/
def decodeSint (build : Build) (bits : UInt8) (raw : UInt64) : Outcome CodecError Int64 :=
  if bits = 64 then return raw.toInt64
  else if bits = 0 then return 0
  else
    let signBit : UInt64 := 1 <<< (bits - 1).toUInt64
    if raw &&& signBit = 0 then return raw.toInt64
    else
      let mask : UInt64 := (1 <<< bits.toUInt64) - 1
      let value := (raw &&& mask).toInt64
      build.sub value (1 <<< bits.toUInt64.toInt64)

/-- `required_bits`. -/
def requiredBits (range : UInt64) : UInt8 :=
  if range = 0 then 0 else UInt8.ofNat (64 - leadingZeros range)

/-- `write_field_value`. -/
def writeFieldValue (build : Build) (componentId : ComponentId) (field : FieldDef)
    (value : FieldValue) : Call CodecError BitWriter Unit :=
  match field.codec, value with
  | .bool, .bool v => stream (BitWriter.writeBit v)
  | .uint bits, .uint v => do
      validateUint componentId field.id bits v
      stream (BitWriter.writeBits v bits)
  | .sint bits, .sint v => do
      let encoded ← encodeSint componentId field.id bits v
      stream (BitWriter.writeBits encoded bits)
  | .varUInt, .varUInt v => do
      if v.toNat > 2 ^ 32 - 1 then
        fail (.invalidValue componentId field.id (.varUIntOutOfRange v))
      stream BitWriter.alignToByte
      stream (BitWriter.writeVaru32 v.toUInt32)
  | .varSInt, .varSInt v => do
      if v.toInt < -2 ^ 31 ∨ v.toInt > 2 ^ 31 - 1 then
        fail (.invalidValue componentId field.id (.varSIntOutOfRange v))
      stream BitWriter.alignToByte
      stream (BitWriter.writeVars32 v.toInt32)
  | .fixedPoint fp, .fixedPoint v => do
      if v < fp.minQ ∨ v > fp.maxQ then
        fail (.invalidValue componentId field.id (.fixedPointOutOfRange fp.minQ fp.maxQ v))
      let offset := (← build.sub v fp.minQ).toUInt64
      let range := (← build.sub fp.maxQ fp.minQ).toUInt64
      let bits := requiredBits range
      if bits > 0 then
        stream (BitWriter.writeBits offset bits)
  | codec, value =>
      fail (.invalidValue componentId field.id (.typeMismatch (codecName codec) (valueName value)))

/-- `write_field_value_sparse`, a second copy of `write_field_value`. -/
def writeFieldValueSparse (build : Build) (componentId : ComponentId) (field : FieldDef)
    (value : FieldValue) : Call CodecError BitWriter Unit :=
  match field.codec, value with
  | .bool, .bool v => stream (BitWriter.writeBit v)
  | .uint bits, .uint v => do
      validateUint componentId field.id bits v
      stream (BitWriter.writeBits v bits)
  | .sint bits, .sint v => do
      let encoded ← encodeSint componentId field.id bits v
      stream (BitWriter.writeBits encoded bits)
  | .varUInt, .varUInt v => do
      if v.toNat > 2 ^ 32 - 1 then
        fail (.invalidValue componentId field.id (.varUIntOutOfRange v))
      stream BitWriter.alignToByte
      stream (BitWriter.writeVaru32 v.toUInt32)
  | .varSInt, .varSInt v => do
      if v.toInt < -2 ^ 31 ∨ v.toInt > 2 ^ 31 - 1 then
        fail (.invalidValue componentId field.id (.varSIntOutOfRange v))
      stream BitWriter.alignToByte
      stream (BitWriter.writeVars32 v.toInt32)
  | .fixedPoint fp, .fixedPoint v => do
      if v < fp.minQ ∨ v > fp.maxQ then
        fail (.invalidValue componentId field.id (.fixedPointOutOfRange fp.minQ fp.maxQ v))
      let offset := (← build.sub v fp.minQ).toUInt64
      let range := (← build.sub fp.maxQ fp.minQ).toUInt64
      let bits := requiredBits range
      if bits > 0 then
        stream (BitWriter.writeBits offset bits)
  | codec, value =>
      fail (.invalidValue componentId field.id (.typeMismatch (codecName codec) (valueName value)))

/-- `read_field_value`. -/
def readFieldValue (build : Build) (componentId : ComponentId) (field : FieldDef) :
    Call CodecError BitReader FieldValue :=
  match field.codec with
  | .bool => do
      return .bool (← stream BitReader.readBit)
  | .uint bits => do
      let value ← stream (BitReader.readBits bits)
      validateUint componentId field.id bits value
      return .uint value
  | .sint bits => do
      let raw ← stream (BitReader.readBits bits)
      let value ← decodeSint build bits raw
      return .sint value
  | .varUInt => do
      stream BitReader.alignToByte
      let value ← stream BitReader.readVaru32
      return .varUInt value.toUInt64
  | .varSInt => do
      stream BitReader.alignToByte
      let value ← stream BitReader.readVars32
      return .varSInt value.toInt64
  | .fixedPoint fp => do
      let range := (← build.sub fp.maxQ fp.minQ).toUInt64
      let bits := requiredBits range
      let offset ← if bits = 0 then pure 0 else stream (BitReader.readBits bits)
      let value ← build.add fp.minQ offset.toInt64
      if value < fp.minQ ∨ value > fp.maxQ then
        fail (.invalidValue componentId field.id (.fixedPointOutOfRange fp.minQ fp.maxQ value))
      return .fixedPoint value

/-- `read_field_value_sparse`, a second copy of `read_field_value`. -/
def readFieldValueSparse (build : Build) (componentId : ComponentId) (field : FieldDef) :
    Call CodecError BitReader FieldValue :=
  match field.codec with
  | .bool => do
      return .bool (← stream BitReader.readBit)
  | .uint bits => do
      let value ← stream (BitReader.readBits bits)
      validateUint componentId field.id bits value
      return .uint value
  | .sint bits => do
      let raw ← stream (BitReader.readBits bits)
      let value ← decodeSint build bits raw
      return .sint value
  | .varUInt => do
      stream BitReader.alignToByte
      let value ← stream BitReader.readVaru32
      return .varUInt value.toUInt64
  | .varSInt => do
      stream BitReader.alignToByte
      let value ← stream BitReader.readVars32
      return .varSInt value.toInt64
  | .fixedPoint fp => do
      let range := (← build.sub fp.maxQ fp.minQ).toUInt64
      let bits := requiredBits range
      let offset ← if bits = 0 then pure 0 else stream (BitReader.readBits bits)
      let value ← build.add fp.minQ offset.toInt64
      if value < fp.minQ ∨ value > fp.maxQ then
        fail (.invalidValue componentId field.id (.fixedPointOutOfRange fp.minQ fp.maxQ value))
      return .fixedPoint value

/-- The copies agree. -/
theorem read_field_value_sparse_eq : readFieldValueSparse = readFieldValue := rfl

/-- `read_mask`. -/
def readMask (expectedBits : Nat) (kind : MaskKind) : Call CodecError BitReader (List Bool) := do
  let reader ← get
  if reader.bitsRemaining < expectedBits then
    fail (.invalidMask kind (.notEnoughBits expectedBits reader.bitsRemaining))
  readMaskLoop expectedBits
where
  /-- The loop of `read_mask`. -/
  readMaskLoop : Nat → Call CodecError BitReader (List Bool)
    | 0 => return []
    | n + 1 => do
        let bit ← stream BitReader.readBit
        let mask ← readMaskLoop n
        return bit :: mask

end Codec

end Sdec
