import Sdec.Codec.Component
import Sdec.Sorted.Walk

/-!
# Changes between snapshots

Which fields of a surviving entity changed, and the loops that walk a baseline and a current
snapshot in step, after `codec/src/delta.rs`.
-/

namespace Sdec.Codec

open Rust Bitstream Wire Sorted

variable (build : Build) (schema : Schema) (limits : CodecLimits)

/-! ## Fields -/

/-- The error of a comparison of values of different variants. -/
def typeMismatch (componentId : ComponentId) (field : FieldDef) (current : FieldValue) :
    CodecError :=
  .invalidValue componentId field.id (.typeMismatch (codecName field.codec) (valueName current))

/-- `field_differs`. -/
def fieldDiffers (componentId : ComponentId) (field : FieldDef) (baseline current : FieldValue) :
    Outcome CodecError Bool :=
  match baseline, current with
  | .bool a, .bool b => return a ≠ b
  | .uint a, .uint b => return a ≠ b
  | .sint a, .sint b => return a ≠ b
  | .varUInt a, .varUInt b => return a ≠ b
  | .varSInt a, .varSInt b => return a ≠ b
  | .fixedPoint a, .fixedPoint b => return a ≠ b
  | _, current => fail (typeMismatch componentId field current)

/-- `u64::abs_diff`. -/
def absDiff (a b : UInt64) : Nat := max a.toNat b.toNat - min a.toNat b.toNat

/-- `field_exceeds_threshold`. -/
def fieldExceedsThreshold (componentId : ComponentId) (field : FieldDef)
    (baseline current : FieldValue) (thresholdQ : UInt32) : Outcome CodecError Bool :=
  match baseline, current with
  | .fixedPoint a, .fixedPoint b | .sint a, .sint b | .varSInt a, .varSInt b => do
      let difference ← build.sub a b
      return difference.toInt.natAbs > thresholdQ.toNat
  | .uint a, .uint b | .varUInt a, .varUInt b => return absDiff a b > thresholdQ.toNat
  | .bool a, .bool b => return a ≠ b
  | _, current => fail (typeMismatch componentId field current)

/-- `field_changed`. -/
def fieldChanged (componentId : ComponentId) (field : FieldDef) (baseline current : FieldValue) :
    Outcome CodecError Bool :=
  match field.change with
  | .always => fieldDiffers componentId field baseline current
  | .threshold thresholdQ =>
      fieldExceedsThreshold build componentId field baseline current thresholdQ

/-- The loop of `compute_field_mask_into`. Slots beyond the shortest of the lists keep what they
hold. -/
def computeFieldMaskLoop (componentId : ComponentId) :
    List FieldDef → List FieldValue → List FieldValue → List Bool → Outcome CodecError (List Bool)
  | field :: fields, baseVal :: baseline, currVal :: current, _ :: slots => do
      let changed ← fieldChanged build componentId field baseVal currVal
      let rest ← computeFieldMaskLoop componentId fields baseline current slots
      return changed :: rest
  | _, _, _, slots => return slots

/-- `compute_field_mask_into`, with the new contents of the mask. -/
def computeFieldMaskInto (component : ComponentDef) (baseline current : ComponentSnapshot)
    (fieldMask : List Bool) : Outcome CodecError (List Bool) :=
  computeFieldMaskLoop build component.id component.fields baseline.fields current.fields fieldMask

/-! ## Entities -/

/-- The error of a component that only one of two entities has. -/
def presenceMismatch (component : ComponentDef) : CodecError :=
  .invalidMask .componentMask (.componentPresenceMismatch component.id)

/-- The two checks of the number of fields that precede every comparison of two components. -/
def checkFieldCounts (component : ComponentDef) (baseline current : ComponentSnapshot) :
    Outcome CodecError Unit := do
  if baseline.fields.length ≠ component.fields.length
      ∨ current.fields.length ≠ component.fields.length then
    fail (.invalidMask (.fieldMask component.id) (.fieldCountMismatch component.fields.length
      (max baseline.fields.length current.fields.length)))
  if component.fields.length > limits.maxFieldsPerComponent then
    fail (.limitsExceeded .fieldsPerComponent limits.maxFieldsPerComponent component.fields.length)

/-- `ensure_component_presence_matches`. -/
def ensureComponentPresenceMatches (baseline current : EntitySnapshot) : Outcome CodecError Unit :=
  schema.components.forM fun component => do
    let base := (findComponent baseline component.id).isSome
    let curr := (findComponent current component.id).isSome
    if base ≠ curr then
      fail (presenceMismatch component)

/-- The loop of `entity_has_updates` over the fields of a component, which stops at the first field
that changed. -/
def anyFieldChanged (componentId : ComponentId) :
    List FieldDef → List FieldValue → List FieldValue → Outcome CodecError Bool
  | field :: fields, baseVal :: baseline, currVal :: current => do
      if ← fieldChanged build componentId field baseVal currVal then
        return true
      anyFieldChanged componentId fields baseline current
  | _, _, _ => return false

/-- The loop of `entity_has_updates` over the components. -/
def entityHasUpdatesLoop (baseline current : EntitySnapshot) :
    List ComponentDef → Outcome CodecError Bool
  | [] => return false
  | component :: rest =>
      match findComponent baseline component.id, findComponent current component.id with
      | some base, some curr => do
          checkFieldCounts limits component base curr
          if ← anyFieldChanged build component.id component.fields base.fields curr.fields then
            return true
          entityHasUpdatesLoop baseline current rest
      | _, _ => entityHasUpdatesLoop baseline current rest

/-- `entity_has_updates`. -/
def entityHasUpdates (baseline current : EntitySnapshot) : Outcome CodecError Bool := do
  ensureComponentPresenceMatches schema baseline current
  entityHasUpdatesLoop build limits baseline current schema.components

/-- What the scans of a surviving entity compute for one component in the scratch buffers: its
current values and the mask of the fields that changed, if both entities have the component. -/
def scanComponent (baseline current : EntitySnapshot) (component : ComponentDef)
    (scratch : CodecScratch) :
    Outcome CodecError (Option (ComponentSnapshot × List Bool) × CodecScratch) :=
  match findComponent baseline component.id, findComponent current component.id with
  | some base, some curr => do
      checkFieldCounts limits component base curr
      let scratch := scratch.ensure schema.components.length component.fields.length
      let fieldMask ← computeFieldMaskInto build component base curr
        (scratch.fieldMask.take component.fields.length)
      return (some (curr, fieldMask), scratch.setFieldMask fieldMask)
  | none, none => return (none, scratch)
  | _, _ => fail (presenceMismatch component)

/-! ## Snapshots -/

/-- `ensure_entity_ids_sorted`, with the id of the one before. -/
def ensureSorted : Option UInt32 → List UInt32 → Outcome CodecError Unit
  | _, [] => return
  | prev, id :: rest => do
      ensureAfter prev id
      ensureSorted (some id) rest

/-- `ensure_entity_ids_sorted`. -/
def ensureEntityIdsSorted (ids : List EntityId) : Outcome CodecError Unit :=
  ensureSorted none (ids.map EntityId.raw)

/-- `ensure_entities_sorted`. -/
def ensureEntitiesSorted (entities : List EntitySnapshot) : Outcome CodecError Unit :=
  ensureSorted none (entities.map fun entity => entity.id.raw)

/-- The key that the merge loops compare. -/
def entityKey (entity : EntitySnapshot) : UInt32 := entity.id.raw

/-- The steps of the merge loops over a baseline and a current snapshot. The loops that end with the
shorter snapshot ignore the steps that take one side, so they do nothing on the steps left. -/
def mergeSteps (baseline current : Snapshot) : List (Step EntitySnapshot EntitySnapshot) :=
  walk entityKey entityKey baseline.entities current.entities

/-- `DiffCounts`. -/
structure DiffCounts where
  creates : Nat
  updates : Nat
  destroys : Nat
  deriving DecidableEq, Repr

/-- `diff_counts`. -/
def diffCounts (baseline current : Snapshot) : Outcome CodecError DiffCounts :=
  (mergeSteps baseline current).foldlM (fun counts step =>
    match step with
    | .left _ => return { counts with destroys := counts.destroys + 1 }
    | .right _ => return { counts with creates := counts.creates + 1 }
    | .both b c => do
        if ← entityHasUpdates build schema limits b c then
          return { counts with updates := counts.updates + 1 }
        return counts) ⟨0, 0, 0⟩

/-- `count_sparse_update_entries`. -/
def countSparseUpdateEntries (baseline current : Snapshot) (scratch : CodecScratch) :
    Outcome CodecError (Nat × CodecScratch) :=
  (mergeSteps baseline current).foldlM (fun (count, scratch) step =>
    match step with
    | .both base curr => do
        if ← entityHasUpdates build schema limits base curr then
          schema.components.foldlM (fun (count, scratch) component => do
            let (scanned, scratch) ← scanComponent build schema limits base curr component scratch
            match scanned with
            | some (_, fieldMask) => return (if fieldMask.any id then count + 1 else count, scratch)
            | none => return (count, scratch)) (count, scratch)
        else return (count, scratch)
    | _ => return (count, scratch)) (0, scratch)

/-- `UpdateEncoding`. -/
inductive UpdateEncoding where
  | masked
  | sparse
  deriving DecidableEq, Repr

/-- `varu32_len` of `delta.rs`. -/
def varu32Size (value : UInt32) : Nat :=
  if value < (1 : UInt32) <<< 7 then 1
  else if value < (1 : UInt32) <<< 14 then 2
  else if value < (1 : UInt32) <<< 21 then 3
  else if value < (1 : UInt32) <<< 28 then 4
  else 5

/-- The bits of a field index, as all packed encoders and decoders compute them. -/
def indexBits (component : ComponentDef) : UInt8 :=
  requiredBits (UInt64.ofNat (component.fields.length - 1))

/-- `select_update_encoding`. -/
def selectUpdateEncoding (baseline current : Snapshot) (scratch : CodecScratch) :
    Outcome CodecError (UpdateEncoding × CodecScratch) := do
  let (maskBits, sparseBits, scratch) ←
    (mergeSteps baseline current).foldlM (fun (maskBits, sparseBits, scratch) step =>
      match step with
      | .both base curr =>
          schema.components.foldlM (fun (maskBits, sparseBits, scratch) component => do
            let (scanned, scratch) ← scanComponent build schema limits base curr component scratch
            match scanned with
            | some (_, fieldMask) =>
                let changed := fieldMask.count true
                if changed > 0 then
                  return (maskBits + component.fields.length,
                    sparseBits + (indexBits component).toNat * changed
                      + varu32Size curr.id.raw * 8
                      + varu32Size component.id.get.toUInt32 * 8
                      + varu32Size (UInt32.ofNat changed) * 8, scratch)
                return (maskBits, sparseBits, scratch)
            | none => return (maskBits, sparseBits, scratch)) (maskBits, sparseBits, scratch)
      | _ => return (maskBits, sparseBits, scratch)) (0, 0, scratch)
  if maskBits = 0 then
    return (.masked, scratch)
  if sparseBits ≤ maskBits then
    return (.sparse, scratch)
  return (.masked, scratch)

end Sdec.Codec
