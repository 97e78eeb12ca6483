import Sdec.Rust.Outcome

/-!
# Wire types

Errors, limits, packet flags and packet headers of the wire format, after `wire/src/error.rs`,
`wire/src/limits.rs` and `wire/src/header.rs`.
-/

namespace Sdec.Wire

/-- `LimitKind`. -/
inductive LimitKind where
  | packetBytes
  | sectionCount
  | sectionLength
  deriving DecidableEq, Repr

/-- `SectionFramingError`. -/
inductive SectionFramingError where
  | invalidVarint
  | lengthOverflow (value : UInt64)
  | truncated (needed available : Nat)
  deriving DecidableEq, Repr

/-- `DecodeError`. -/
inductive DecodeError where
  | packetTooSmall (actual required : Nat)
  | invalidMagic (found : UInt32)
  | unsupportedVersion (found : UInt16)
  | invalidFlags (flags : UInt16)
  | invalidBaselineTick (baselineTick : UInt32) (flags : UInt16)
  | payloadLengthMismatch (headerLen : UInt32) (actualLen : Nat)
  | unknownSectionTag (tag : UInt8)
  | limitsExceeded (kind : LimitKind) (limit actual : Nat)
  | sectionFraming (error : SectionFramingError)
  deriving DecidableEq, Repr

/-- `EncodeError`. -/
inductive EncodeError where
  | bufferTooSmall (needed available : Nat)
  | lengthOverflow (length : Nat)
  deriving DecidableEq, Repr

/-- `Limits`. -/
structure Limits where
  maxPacketBytes : Nat
  maxSections : Nat
  maxSectionLen : Nat
  deriving DecidableEq, Repr

/-- `Limits::unlimited`. -/
def Limits.unlimited : Limits := ⟨Rust.usizeMax, Rust.usizeMax, Rust.usizeMax⟩

/-- `Limits::default`. -/
def Limits.default : Limits := ⟨64 * 1024, 16, 32 * 1024⟩

/-- `Limits::for_testing`. -/
def Limits.forTesting : Limits := ⟨4096, 8, 1024⟩

/-- `MAGIC`. -/
def MAGIC : UInt32 := 0x53444543

/-- `VERSION`. -/
def VERSION : UInt16 := 2

/-- `HEADER_SIZE`. -/
def HEADER_SIZE : Nat := 4 + 2 + 2 + 8 + 4 + 4 + 4

/-- `PacketFlags`. -/
structure PacketFlags where
  raw : UInt16
  deriving DecidableEq, Repr

namespace PacketFlags

/-- `PacketFlags::FULL_SNAPSHOT`. -/
def FULL_SNAPSHOT : UInt16 := (1 : UInt16) <<< 0

/-- `PacketFlags::DELTA_SNAPSHOT`. -/
def DELTA_SNAPSHOT : UInt16 := (1 : UInt16) <<< 1

/-- `PacketFlags::SESSION_INIT`. -/
def SESSION_INIT : UInt16 := (1 : UInt16) <<< 2

/-- `PacketFlags::RESERVED_MASK`. -/
def RESERVED_MASK : UInt16 := ~~~0b111

/-- `PacketFlags::is_full_snapshot`. -/
def isFullSnapshot (flags : PacketFlags) : Bool := flags.raw &&& FULL_SNAPSHOT != 0

/-- `PacketFlags::is_delta_snapshot`. -/
def isDeltaSnapshot (flags : PacketFlags) : Bool := flags.raw &&& DELTA_SNAPSHOT != 0

/-- `PacketFlags::is_session_init`. -/
def isSessionInit (flags : PacketFlags) : Bool := flags.raw &&& SESSION_INIT != 0

/-- `PacketFlags::is_valid_v2`. -/
def isValidV2 (flags : PacketFlags) : Bool :=
  if flags.raw &&& RESERVED_MASK != 0 then false
  else if flags.isSessionInit then !flags.isFullSnapshot && !flags.isDeltaSnapshot
  else flags.isFullSnapshot ^^ flags.isDeltaSnapshot

/-- `PacketFlags::full_snapshot`. -/
def fullSnapshot : PacketFlags := ⟨FULL_SNAPSHOT⟩

/-- `PacketFlags::delta_snapshot`. -/
def deltaSnapshot : PacketFlags := ⟨DELTA_SNAPSHOT⟩

/-- `PacketFlags::session_init`. -/
def sessionInit : PacketFlags := ⟨SESSION_INIT⟩

end PacketFlags

/-- `PacketHeader`. -/
structure PacketHeader where
  version : UInt16
  flags : PacketFlags
  schemaHash : UInt64
  tick : UInt32
  baselineTick : UInt32
  payloadLen : UInt32
  deriving DecidableEq, Repr

/-- `PacketHeader::full_snapshot`. -/
def PacketHeader.fullSnapshot (schemaHash : UInt64) (tick payloadLen : UInt32) : PacketHeader where
  version := VERSION
  flags := .fullSnapshot
  schemaHash := schemaHash
  tick := tick
  baselineTick := 0
  payloadLen := payloadLen

/-- `PacketHeader::delta_snapshot`. -/
def PacketHeader.deltaSnapshot (schemaHash : UInt64) (tick baselineTick payloadLen : UInt32) :
    PacketHeader where
  version := VERSION
  flags := .deltaSnapshot
  schemaHash := schemaHash
  tick := tick
  baselineTick := baselineTick
  payloadLen := payloadLen

end Sdec.Wire
