import Sdec.Codec.DeltaDecode
import Sdec.Sorted.Tally

/-!
# Inspection of packets

`inspect_packet` and what it calls, after `tools/src/lib.rs`. The error of these functions is that
of `anyhow`: what went wrong, below the texts of the calls around it.
-/

namespace Sdec.Tools

open Rust Bitstream Codec Wire Sorted

/-! ## Errors -/

/-- What an error starts from. -/
inductive Cause where
  | wire (error : DecodeError)
  | codec (error : CodecError)
  | bit (error : BitError)
  | message (text : String)
  deriving DecidableEq, Repr

/-- `anyhow::Error`, with the texts of its contexts from the outermost on. -/
structure Failure where
  contexts : List String
  cause : Cause
  deriving DecidableEq, Repr

/-- `Context::context` on the error of a library. -/
def context {ε α : Type} (cause : ε → Cause) (text : String) (x : Outcome ε α) :
    Outcome Failure α :=
  x.mapErr fun error => ⟨[text], cause error⟩

/-- `Context::context` on an error that has a context. -/
def recontext {α : Type} (text : String) (x : Outcome Failure α) : Outcome Failure α :=
  x.mapErr fun failure => { failure with contexts := text :: failure.contexts }

/-! ## Summaries -/

/-- `ComponentFieldCount`. -/
structure ComponentFieldCount where
  componentId : UInt16
  changedFields : Nat
  deriving DecidableEq, Repr

/-- `UpdateSummary`. -/
structure UpdateSummary where
  changedComponents : Nat
  changedFields : Nat
  byComponentFields : List ComponentFieldCount
  deriving DecidableEq, Repr

/-- The order of `by_component_fields`: more fields first, then smaller ids. -/
def precedes (a b : ComponentFieldCount) : Bool :=
  decide (b.changedFields < a.changedFields)
    || (a.changedFields == b.changedFields && decide (a.componentId ≤ b.componentId))

/-- The variables of the loop of `summarize_updates`. The map `by_component` is the list of its
entries in the order of their keys. -/
structure UpdateTotals where
  changedComponents : Nat
  changedFields : Nat
  byComponent : List (UInt16 × Nat)

/-- One iteration of the inner loop of `summarize_updates`. -/
def totalComponent (totals : UpdateTotals) (component : DeltaUpdateComponent) : UpdateTotals :=
  let fields := component.fields.length
  { totals with
    changedFields := totals.changedFields + fields
    byComponent := tallyAdd component.id.get fields totals.byComponent }

/-- One iteration of the outer loop of `summarize_updates`. -/
def totalEntity (totals : UpdateTotals) (entity : DeltaUpdateEntity) : UpdateTotals :=
  entity.components.foldl totalComponent
    { totals with changedComponents := totals.changedComponents + entity.components.length }

/-- `summarize_updates`. -/
def summarizeUpdates (updates : List DeltaUpdateEntity) : UpdateSummary :=
  let totals := updates.foldl totalEntity ⟨0, 0, []⟩
  let byComponentFields := totals.byComponent.map fun entry =>
    ComponentFieldCount.mk entry.1 entry.2
  ⟨totals.changedComponents, totals.changedFields, byComponentFields.mergeSort precedes⟩

/-! ## Reports -/

/-- `SectionReport`. -/
structure SectionReport where
  tag : SectionTag
  byteLen : Nat
  entityCount : Option Nat
  deriving DecidableEq, Repr

/-- `InspectReport`. -/
structure InspectReport where
  header : PacketHeader
  sections : List SectionReport
  updateSummary : Option UpdateSummary
  deriving DecidableEq, Repr

/-- `read_section_count`. -/
def readSectionCount (body : List UInt8) : Outcome Failure Nat := do
  let (_, reader) ← context .bit "align to byte" (BitReader.alignToByte.runOn (BitReader.new body))
  let count ← context .bit "read varu32" (BitReader.readVaru32.evalOn reader)
  return count.toNat

/-- One iteration of the loop of `inspect_packet`. -/
def inspectSection (section_ : WireSection) : Outcome Failure SectionReport := do
  let entityCount ← match section_.tag with
    | .entityDestroy | .entityCreate | .entityUpdate | .entityUpdateSparse
    | .entityUpdateSparsePacked => do
        let count ← recontext "read section count" (readSectionCount section_.body)
        pure (some count)
    | .sessionInit => pure none
  return ⟨section_.tag, section_.body.length, entityCount⟩

/-- `inspect_packet`. -/
def inspectPacket (build : Build) (bytes : List UInt8) (schema : Option Schema)
    (wireLimits : Wire.Limits) (codecLimits : CodecLimits) : Outcome Failure InspectReport := do
  let packet ← context .wire "decode packet" (decodePacket bytes wireLimits)
  let sections ← packet.sections.mapM inspectSection
  let updateSummary ← match schema, packet.header.flags.isDeltaSnapshot with
    | some schema, true => do
        let decoded ← context .codec "decode delta packet"
          (decodeDeltaPacket build schema packet codecLimits)
        pure (some (summarizeUpdates decoded.updates))
    | _, _ => pure none
  return ⟨packet.header, sections, updateSummary⟩

end Sdec.Tools
