import Sdec.Bitstream.Error
import Sdec.Schema.Definition
import Sdec.Wire.Packet

/-!
# Codec types

Identifiers, limits, errors, snapshots, delta updates and scratch buffers, after
`codec/src/types.rs`, `codec/src/limits.rs`, `codec/src/error.rs`, `codec/src/scratch.rs` and the
data types of `codec/src/snapshot.rs` and `codec/src/delta.rs`.
-/

namespace Sdec

/-- `SnapshotTick`. -/
structure SnapshotTick where
  raw : UInt32
  deriving DecidableEq, Repr

/-- `EntityId`. -/
structure EntityId where
  raw : UInt32
  deriving DecidableEq, Repr

/-- `CodecLimits`. -/
structure CodecLimits where
  maxEntitiesCreate : Nat
  maxEntitiesUpdate : Nat
  maxEntitiesDestroy : Nat
  maxComponentsPerEntity : Nat
  maxFieldsPerComponent : Nat
  maxSectionBytes : Nat
  maxTotalEntitiesAfterApply : Nat
  deriving DecidableEq, Repr

/-- `CodecLimits::for_testing`. -/
def CodecLimits.forTesting : CodecLimits where
  maxEntitiesCreate := 32
  maxEntitiesUpdate := 64
  maxEntitiesDestroy := 32
  maxComponentsPerEntity := 16
  maxFieldsPerComponent := 16
  maxSectionBytes := 4096
  maxTotalEntitiesAfterApply := 128

/-! ## Snapshots -/

/-- `FieldValue`. -/
inductive FieldValue where
  | bool (v : Bool)
  | uint (v : UInt64)
  | sint (v : Int64)
  | varUInt (v : UInt64)
  | varSInt (v : Int64)
  | fixedPoint (v : Int64)
  deriving DecidableEq, Repr

/-- `ComponentSnapshot`, with its field values in schema order. -/
structure ComponentSnapshot where
  id : ComponentId
  fields : List FieldValue
  deriving DecidableEq, Repr

/-- `EntitySnapshot`. -/
structure EntitySnapshot where
  id : EntityId
  components : List ComponentSnapshot
  deriving DecidableEq, Repr

/-- `Snapshot`. -/
structure Snapshot where
  tick : SnapshotTick
  entities : List EntitySnapshot
  deriving DecidableEq, Repr

/-! ## Deltas -/

/-- `DeltaUpdateComponent`, the new values of some fields by their index in the schema. -/
structure DeltaUpdateComponent where
  id : ComponentId
  fields : List (Nat × FieldValue)
  deriving DecidableEq, Repr

/-- `DeltaUpdateEntity`. -/
structure DeltaUpdateEntity where
  id : EntityId
  components : List DeltaUpdateComponent
  deriving DecidableEq, Repr

/-- `DeltaDecoded`. -/
structure DeltaDecoded where
  tick : SnapshotTick
  baselineTick : SnapshotTick
  destroys : List EntityId
  creates : List EntitySnapshot
  updates : List DeltaUpdateEntity
  deriving DecidableEq, Repr

/-! ## Errors -/

/-- `LimitKind`. -/
inductive LimitKind where
  | entitiesCreate
  | entitiesUpdate
  | entitiesDestroy
  | totalEntitiesAfterApply
  | componentsPerEntity
  | fieldsPerComponent
  | sectionBytes
  deriving DecidableEq, Repr

/-- `MaskKind`. -/
inductive MaskKind where
  | componentMask
  | fieldMask (component : ComponentId)
  deriving DecidableEq, Repr

/-- `MaskReason`. -/
inductive MaskReason where
  | notEnoughBits (expected available : Nat)
  | fieldCountMismatch (expected actual : Nat)
  | missingField (field : FieldId)
  | unknownComponent (component : ComponentId)
  | invalidComponentId (raw : UInt16)
  | invalidFieldIndex (fieldIndex max : Nat)
  | componentPresenceMismatch (component : ComponentId)
  | emptyFieldMask (component : ComponentId)
  deriving DecidableEq, Repr

/-- `ValueReason`. -/
inductive ValueReason where
  | unsignedOutOfRange (bits : UInt8) (value : UInt64)
  | signedOutOfRange (bits : UInt8) (value : Int64)
  | varUIntOutOfRange (value : UInt64)
  | varSIntOutOfRange (value : Int64)
  | fixedPointOutOfRange (minQ maxQ value : Int64)
  | typeMismatch (expected found : String)
  deriving DecidableEq, Repr

/-- `CodecError`. -/
inductive CodecError where
  | wire (error : Wire.DecodeError)
  | bitstream (error : Bitstream.BitError)
  | outputTooSmall (needed available : Nat)
  | schemaMismatch (expected found : UInt64)
  | limitsExceeded (kind : LimitKind) (limit actual : Nat)
  | invalidMask (kind : MaskKind) (reason : MaskReason)
  | invalidValue (component : ComponentId) (field : FieldId) (reason : ValueReason)
  | invalidEntityOrder (previous current : UInt32)
  | trailingSectionData (section_ : Wire.SectionTag) (remainingBits : Nat)
  | unexpectedSection (section_ : Wire.SectionTag)
  | duplicateSection (section_ : Wire.SectionTag)
  | duplicateUpdateEncoding
  | baselineTickMismatch (expected found : UInt32)
  | baselineNotFound (requestedTick : UInt32)
  | entityNotFound (entityId : UInt32)
  | componentNotFound (entityId : UInt32) (componentId : UInt16)
  | duplicateEntity (entityId : UInt32)
  | entityAlreadyExists (entityId : UInt32)
  | sessionMissing
  | sessionInitInvalid
  | sessionUnsupportedMode (mode : UInt8)
  | sessionOutOfOrder (previous current : UInt32)
  deriving DecidableEq, Repr

/-! ## Scratch buffers -/

/-- `CodecScratch`. -/
structure CodecScratch where
  componentChanged : List Bool
  fieldMask : List Bool
  deriving DecidableEq, Repr

/-- `CodecScratch::default`. -/
def CodecScratch.default : CodecScratch := ⟨[], []⟩

/-- `Vec::resize` behind the length check of `ensure_component_capacity` and
`ensure_field_capacity`. -/
def ensureCapacity (mask : List Bool) (size : Nat) : List Bool :=
  if mask.length < size then mask ++ List.replicate (size - mask.length) false else mask

/-- The buffers after `CodecScratch::component_and_field_masks_mut`. The slices it returns are the
first `components` and `fields` elements of them. -/
def CodecScratch.ensure (scratch : CodecScratch) (components fields : Nat) : CodecScratch :=
  ⟨ensureCapacity scratch.componentChanged components, ensureCapacity scratch.fieldMask fields⟩

/-- The buffers after a write through the field mask that `component_and_field_masks_mut`
returned. -/
def CodecScratch.setFieldMask (scratch : CodecScratch) (mask : List Bool) : CodecScratch :=
  { scratch with fieldMask := mask ++ scratch.fieldMask.drop mask.length }

/-- The buffers after `component_changed.fill(false)` on the first `components` elements. -/
def CodecScratch.clearComponents (scratch : CodecScratch) (components : Nat) : CodecScratch :=
  { scratch with
    componentChanged := List.replicate components false
      ++ scratch.componentChanged.drop components }

end Sdec
