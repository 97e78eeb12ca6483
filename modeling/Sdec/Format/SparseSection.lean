import Sdec.Format.Entity
import Sdec.Format.Sparse

/-!
# The format of sparse sections

The bodies that the sparse encoders write, and what the sparse decoders make of them. Both encoders,
from snapshots and from change lists, write the entries of the updates one behind the other. A
decoder accepts them when the keys of the entries ascend strictly and each entry is in order, and
puts the entries of one entity back together.
-/

namespace Sdec

open Rust Bits Bitstream Codec Wire Sorted

variable {build : Build} {schema : Schema} {limits : CodecLimits} {pos : Nat}
variable {writer : Delta.SparseWriter} {reader : Delta.SparseReader}
  (format : SparseFormat writer reader)

/-! ## Writing the changes between snapshots -/

/-- The entries that a sparse encoder can have written. -/
def SparseEntry.Fits (build : Build) (limits : CodecLimits) (entry : SparseEntry) : Prop :=
  entry.Encodes build ∧ entry.component.fields.length ≤ limits.maxFieldsPerComponent

/-- The loop over the components of an entity in both snapshots. -/
theorem SparseFormat.writes_scanned_entries (base curr : EntitySnapshot) (scratch : CodecScratch) :
    Writes pos (schema.components.foldlM (fun scratch component => (do
        let (scanned, scratch) ← scanComponent build schema limits base curr component scratch
        match scanned with
        | some (currComponent, fieldMask) =>
            Delta.writeSparseEntry build writer curr.id.raw component currComponent fieldMask
            return scratch
        | none => return scratch : Call CodecError BitWriter CodecScratch)) scratch)
      (fun _ => ∀ entry ∈ scannedEntries build schema base curr, entry.Fits build limits)
      (format.entriesLayout (scannedEntries build schema base curr)) := by
  rw [entriesLayout, scannedEntries, flatMap_filterMap]
  refine Writes.mono (Writes.foldlM (fun _ => True)
    (fun component => ∀ update, componentUpdate build base curr component = some update →
      FieldsEncode build component update.fields
        ∧ component.fields.length ≤ limits.maxFieldsPerComponent) trivial
    fun component _ scratch pos _ => ?_) fun _ h entry hentry => ?_
  · refine Writes.lift fun result hscan => ?_
    obtain ⟨found, scratch'⟩ := result
    obtain ⟨hfound, hcomparable, -, -⟩ := scan_component_eq hscan
    cases found with
    | none =>
        rw [component_update_of_none hfound.symm]
        exact Writes.pure ⟨trivial, fun update hupdate => by cases hupdate⟩
    | some p =>
        have hlengths : p.2.length = component.fields.length
            ∧ p.1.fields.length = component.fields.length
            ∧ component.fields.length ≤ limits.maxFieldsPerComponent := by
          rw [scanned] at hfound
          split at hfound
          · rename_i b c hb hc
            obtain ⟨hbase, hcurr, hlimit⟩ := hcomparable b c hb hc
            cases hfound
            exact ⟨length_changed_mask hbase hcurr, hcurr, hlimit⟩
          · cases hfound
        obtain ⟨hmask, hcurr, hlimit⟩ := hlengths
        have hwrite : Writes pos (Delta.writeSparseEntry build writer curr.id.raw component p.1 p.2)
            _ _ := format.writes_sparse_entry hmask hcurr
        rw [component_update_of_some hfound.symm]
        by_cases hany : p.2.any id
        · rw [if_pos hany] at hwrite ⊢
          refine hwrite.bind fun _ hfields => Writes.pure ⟨trivial, fun update hupdate => ?_⟩
          cases hupdate
          exact ⟨hfields hany, hlimit⟩
        · rw [if_neg hany] at hwrite ⊢
          exact hwrite.bind fun _ _ => Writes.pure ⟨trivial, fun update hupdate => by cases hupdate⟩
  · obtain ⟨component, hcomponent, hentry⟩ := List.mem_filterMap.mp hentry
    obtain ⟨update, hupdate, rfl⟩ := Option.map_eq_some_iff.mp hentry
    exact h.2 component hcomponent update hupdate

/-- The updates whose components all are components of the schema. -/
def KnownComponents (schema : Schema) (updates : List DeltaUpdateEntity) : Prop :=
  ∀ update ∈ updates, ∀ component ∈ update.components,
    ∃ definition ∈ schema.components, component.id = definition.id

theorem updates_known (baseline current : Snapshot) :
    KnownComponents schema (diff build schema baseline current).updates := by
  intro update hupdate component hcomponent
  obtain ⟨step, -, hstep⟩ := List.mem_filterMap.mp hupdate
  cases step with
  | left b => cases hstep
  | right c => cases hstep
  | both b c =>
      rw [updateStep, entityUpdate] at hstep
      split at hstep
      · cases hstep
      · cases hstep
        obtain ⟨definition, hdefinition, hsome⟩ := List.mem_filterMap.mp hcomponent
        exact ⟨definition, hdefinition, component_update_id hsome⟩

/-- There is an entry for each component of the updates. -/
theorem length_update_entries (hschema : schema.Valid) {updates : List DeltaUpdateEntity}
    (hknown : KnownComponents schema updates) :
    (updateEntries schema updates).length
      = (updates.map fun update => update.components.length).sum := by
  rw [updateEntries, List.length_flatMap]
  refine congrArg List.sum (List.map_congr_left fun update hupdate => ?_)
  rw [List.filterMap_length_eq_length]
  intro component hcomponent
  obtain ⟨definition, hdefinition, hid⟩ := hknown update hupdate component hcomponent
  rw [hid, find_definition_of_mem hschema hdefinition]
  rfl

/-- The body that the sparse encoders write for two snapshots. -/
theorem SparseFormat.writes_encode_update_body (hschema : schema.Valid)
    {baseline current : Snapshot} {updateCount : Nat} {scratch : CodecScratch} :
    Writes pos (Delta.encodeUpdateBodySparse writer build schema baseline current updateCount limits
        scratch)
      (fun _ => updateCount ≤ limits.maxEntitiesUpdate
        ∧ (updateEntries schema (diff build schema baseline current).updates).length
          ≤ saturatingMul limits.maxEntitiesUpdate limits.maxComponentsPerEntity
        ∧ ∀ entry ∈ updateEntries schema (diff build schema baseline current).updates,
          entry.Fits build limits)
      (countedLayout (updateEntries schema (diff build schema baseline current).updates).length
        (format.entriesLayout
          (updateEntries schema (diff build schema baseline current).updates))) := by
  have hentries : updateEntries schema (diff build schema baseline current).updates
      = (mergeSteps baseline current).flatMap fun step =>
        updateEntries schema (updateStep build schema step).toList := by
    rw [diff, diffSteps, updateEntries, flatMap_filterMap]
    rfl
  have hlength := length_update_entries hschema
    (@updates_known build schema baseline current)
  unfold Delta.encodeUpdateBodySparse
  refine Writes.check fun hcount => Writes.lift fun counted hentryCount => ?_
  obtain ⟨entryCount, scratch⟩ := counted
  obtain rfl := (count_sparse_update_entries_eq hentryCount).trans hlength.symm
  refine Writes.check fun hlimit => ?_
  refine writes_counted fun pos => ?_
  refine (?_ : Writes pos _ (fun _ => ∀ entry ∈ updateEntries schema
    (diff build schema baseline current).updates, entry.Fits build limits) _).bind
    fun scratch hfits => ?_
  · rw [hentries, entriesLayout, List.flatMap_assoc]
    refine (Writes.foldlM (fun _ => True) (fun step =>
      ∀ entry ∈ updateEntries schema (updateStep build schema step).toList, entry.Fits build limits)
      trivial fun step _ scratch pos _ => ?_).mono fun _ h entry hentry => ?_
    · cases step with
      | left b => exact Writes.pure ⟨trivial, fun entry hentry => by cases hentry⟩
      | right c => exact Writes.pure ⟨trivial, fun entry hentry => by cases hentry⟩
      | both b c =>
          refine Writes.lift fun changed hchanged => ?_
          have hupdate := entity_has_updates_eq hchanged
          rw [updateStep, ← scanned_entries_eq hschema]
          cases changed with
          | true => exact (format.writes_scanned_entries b c scratch).mono fun _ h => ⟨trivial, h⟩
          | false =>
              have hnone :=
                Option.isNone_iff_eq_none.mp (Option.isSome_eq_false_iff.mp hupdate.symm)
              rw [scanned_entries_eq hschema, hnone]
              exact Writes.pure ⟨trivial, fun entry hentry => by cases hentry⟩
    · obtain ⟨step, hstep, hentry⟩ := List.mem_flatMap.mp hentry
      exact h.2 step hstep entry hentry
  · rw [← List.append_nil [Item.align]]
    refine writes_align.bind fun _ _ => Writes.pure ?_
    exact ⟨Nat.le_of_not_lt hcount, Nat.le_of_not_lt hlimit, hfits⟩

end Sdec
