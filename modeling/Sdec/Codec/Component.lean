import Sdec.Codec.Field

/-!
# Components and sections

The pieces that the section bodies of `codec/src/snapshot.rs` and `codec/src/delta.rs` share: the
order of ids, component masks, dense components, and the frame around the entries of a section.
Where both files have a function with the same body, it is defined once.
-/

namespace Sdec.Codec

open Rust Bitstream Wire

/-- The check of an id against the one before it: `if id <= prev { return Err(..) }`. -/
def ensureAfter (prev : Option UInt32) (id : UInt32) : Outcome CodecError Unit :=
  match prev with
  | none => return
  | some prev => if id ≤ prev then fail (.invalidEntityOrder prev id) else return

/-- `find_component`. -/
def findComponent (entity : EntitySnapshot) (id : ComponentId) : Option ComponentSnapshot :=
  entity.components.find? fun c => c.id = id

/-- `ensure_known_components`. -/
def ensureKnownComponents (schema : Schema) (entity : EntitySnapshot) : Outcome CodecError Unit :=
  entity.components.forM fun component => do
    if schema.components.all fun c => c.id ≠ component.id then
      fail (.invalidMask .componentMask (.unknownComponent component.id))

/-! ## Writing -/

/-- `write_component_mask`. -/
def writeComponentMask (schema : Schema) (entity : EntitySnapshot) :
    Call CodecError BitWriter Unit :=
  schema.components.forM fun component =>
    stream (BitWriter.writeBit (findComponent entity component.id).isSome)

/-- The two loops that end `write_component_fields` and `write_full_component`: a mask of ones, and
the values. -/
def writeAllFields (build : Build) (component : ComponentDef) (snapshot : ComponentSnapshot) :
    Call CodecError BitWriter Unit := do
  component.fields.forM fun _ => stream (BitWriter.writeBit true)
  (component.fields.zip snapshot.fields).forM fun (field, value) =>
    writeFieldValue build component.id field value

/-! ## Reading -/

/-- The frame of a section: its length limit, the count of its entries with the limit of that kind,
the entries, and nothing behind them. -/
def readSection {α : Type} (tag : SectionTag) (limits : CodecLimits) (kind : LimitKind)
    (limit : Nat) (body : List UInt8) (readEntries : Nat → Call CodecError BitReader α) :
    Outcome CodecError α := do
  if body.length > limits.maxSectionBytes then
    fail (.limitsExceeded .sectionBytes limits.maxSectionBytes body.length)
  let read : Call CodecError BitReader α := do
    stream BitReader.alignToByte
    let count ← stream BitReader.readVaru32
    if count.toNat > limit then
      fail (.limitsExceeded kind limit count.toNat)
    let entries ← readEntries count.toNat
    stream BitReader.alignToByte
    let reader ← get
    if reader.bitsRemaining ≠ 0 then
      fail (.trailingSectionData tag reader.bitsRemaining)
    return entries
  read.evalOn (BitReader.new body)

/-- The loop over the given number of entries whose ids ascend strictly. -/
def readAscending {α : Type} (readEntry : UInt32 → Call CodecError BitReader α) :
    Nat → Option UInt32 → Call CodecError BitReader (List α)
  | 0, _ => return []
  | count + 1, prev => do
      stream BitReader.alignToByte
      let id ← stream BitReader.readU32Aligned
      ensureAfter prev id
      let entry ← readEntry id
      let entries ← readAscending readEntry count (some id)
      return entry :: entries

/-- The loop over the components of the schema whose bit of the component mask is set. -/
def readComponents {α : Type} (readComponent : ComponentDef → Call CodecError BitReader α)
    (componentMask : List Bool) : Nat → List ComponentDef → Call CodecError BitReader (List α)
  | _, [] => return []
  | idx, component :: rest => do
      if ← index componentMask idx then
        let snapshot ← readComponent component
        let components ← readComponents readComponent componentMask (idx + 1) rest
        return snapshot :: components
      else
        readComponents readComponent componentMask (idx + 1) rest

/-- The loop of `decode_component_fields` and `decode_full_component` over the fields. -/
def readAllFields (build : Build) (component : ComponentDef) (mask : List Bool) :
    Nat → List FieldDef → Call CodecError BitReader (List FieldValue)
  | _, [] => return []
  | idx, field :: rest => do
      if !(← index mask idx) then
        fail (.invalidMask (.fieldMask component.id) (.missingField field.id))
      let value ← readFieldValue build component.id field
      let values ← readAllFields build component mask (idx + 1) rest
      return value :: values

/-- `decode_component_fields` of `snapshot.rs`. -/
def decodeComponentFields (build : Build) (component : ComponentDef) (limits : CodecLimits) :
    Call CodecError BitReader (List FieldValue) := do
  if component.fields.length > limits.maxFieldsPerComponent then
    fail (.limitsExceeded .fieldsPerComponent limits.maxFieldsPerComponent component.fields.length)
  let mask ← readMask component.fields.length (.fieldMask component.id)
  readAllFields build component mask 0 component.fields

/-- `decode_full_component` of `delta.rs`, which has the body of `decode_component_fields`. -/
def decodeFullComponent (build : Build) (component : ComponentDef) (limits : CodecLimits) :
    Call CodecError BitReader (List FieldValue) :=
  decodeComponentFields build component limits

end Sdec.Codec
