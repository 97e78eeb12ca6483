import Sdec.Diff.Change
import Sdec.Format.Entity

/-!
# The format of sparse updates

A sparse section lists entries, each a changed component of an entity with the indices and values of
its changed fields. `SparseFormat` is what a writer and a reader of entries agree on: the bytes of
the key of an entry, and the layout of a field index. The reader accepts the entries whose keys
ascend strictly, with strictly ascending field indices in each, and groups them by entity.
-/

namespace Sdec

open Rust Bits Bitstream Codec Wire Sorted

variable {build : Build} {schema : Schema} {limits : CodecLimits} {pos : Nat}

/-- What a sparse writer writes for keys and indices, and that a sparse reader reads it back. -/
structure SparseFormat (writer : Delta.SparseWriter) (reader : Delta.SparseReader) where
  key : UInt32 → ComponentId → List UInt8
  index : ComponentDef → Nat → Layout
  writes_key : ∀ {pos} entityId componentId, pos % 8 = 0 →
    Writes pos (writer.writeKey entityId componentId) (fun _ => True)
      (bytes (key entityId componentId))
  writes_index : ∀ {pos} component idx,
    Writes pos (writer.writeIndex component idx) (fun _ => True) (index component idx)
  parses_key : ∀ {pos} entityId componentId, pos % 8 = 0 →
    Parses pos reader.readKey (bytes (key entityId componentId)) (entityId, componentId.get)
  parses_index : ∀ {pos} {component : ComponentDef} {idx}, component.fields.length ≤ 2 ^ 16 →
    idx < component.fields.length →
      Parses pos (reader.readIndex component) (index component idx) idx

/-! ## The two formats -/

theorem writes_two {first second : Call BitError BitWriter Unit} {items more : Layout}
    (h : Emits pos first True items ()) (hnext : Emits (stop pos items) second True more ()) :
    Writes pos (do stream first; stream second : Call CodecError BitWriter Unit) (fun _ => True)
      (items ++ more) :=
  h.map_err.writes_true.bind fun _ _ => hnext.map_err.writes_true

/-- Keys of a `u32` and a `u16`, and indices as varints at byte boundaries. -/
def sparseVarintFormat : SparseFormat Delta.sparseVarint Delta.sparseVarintReader where
  key entityId componentId := leBytes 4 entityId.toNat ++ leBytes 2 componentId.get.toNat
  index _ idx := .align :: bytes (varu32 (UInt32.ofNat idx))
  writes_key entityId componentId hpos := by
    rw [bytes_append]
    exact writes_two (emits_write_u32_aligned hpos _)
      (emits_write_u16_aligned (by rw [stop_bytes, length_leBytes]; omega) _)
  writes_index _ idx :=
    writes_two emits_align_to_byte (emits_write_varu32 (by rw [stop_align, add_padding_mod]) _)
  parses_key entityId componentId hpos := by
    rw [bytes_append, ← List.append_nil (bytes (leBytes 2 _))]
    refine (parses_read_u32_aligned hpos entityId).map_err.bind ?_
    refine Parses.bind (parses_read_u16_aligned ?_ componentId.get).map_err (Parses.pure _)
    rw [stop_bytes, length_leBytes]
    omega
  parses_index {pos} component idx hlen hidx := by
    have htoNat : (UInt32.ofNat idx).toNat = idx := by
      rw [UInt32.toNat_ofNat', Nat.mod_eq_of_lt (by omega)]
    refine parses_align_to_byte.map_err.cons ?_
    rw [← List.append_nil (bytes _)]
    refine (parses_read_varu32 (by rw [stop_align, add_padding_mod]) _).map_err.bind ?_
    rw [htoNat]
    exact Parses.pure idx

/-- The width of an index holds every index. -/
theorem lt_two_pow_index_bits {component : ComponentDef} {idx : Nat}
    (hlen : component.fields.length ≤ 2 ^ 16) (hidx : idx < component.fields.length) :
    idx < 2 ^ (indexBits component).toNat := by
  have hspec := (required_bits_spec (UInt64.ofNat (component.fields.length - 1))).2.1
  rw [UInt64.toNat_ofNat', Nat.mod_eq_of_lt (by omega)] at hspec
  rw [indexBits]
  omega

/-- Keys of two varints, and indices in the least width that holds every index of the component. -/
def sparsePackedFormat : SparseFormat Delta.sparsePacked Delta.sparsePackedReader where
  key entityId componentId := varu32 entityId ++ varu32 componentId.get.toUInt32
  index component idx :=
    if indexBits component > 0 then
      [.number (indexBits component).toNat (UInt64.ofNat idx).toNat]
    else []
  writes_key entityId componentId hpos := by
    rw [bytes_append]
    exact writes_two (emits_write_varu32 hpos _) (emits_write_varu32 (by rw [stop_bytes]; omega) _)
  writes_index component idx := by
    rw [Delta.sparsePacked]
    by_cases hbits : indexBits component > 0
    · simp only [if_pos hbits]
      exact (emits_write_bits _ _).map_err.writes fun _ => trivial
    · simp only [if_neg hbits]
      exact Writes.pure trivial
  parses_key entityId componentId hpos := by
    have hsmall : ¬ componentId.get.toUInt32.toNat > 2 ^ 16 - 1 := by
      have := componentId.get.toNat_lt
      rw [UInt16.toNat_toUInt32]
      omega
    have hround : componentId.get.toUInt32.toUInt16 = componentId.get := by simp
    rw [bytes_append, ← List.append_nil (bytes (varu32 componentId.get.toUInt32))]
    refine (parses_read_varu32 hpos entityId).map_err.bind ?_
    refine (parses_read_varu32 (by rw [stop_bytes]; omega) _).map_err.bind ?_
    refine Parses.check hsmall ?_
    rw [hround]
    exact Parses.pure _
  parses_index {pos} component idx hlen hidx := by
    have hwidth := (required_bits_spec (UInt64.ofNat (component.fields.length - 1))).1
    have hfits := lt_two_pow_index_bits hlen hidx
    have htoNat : (UInt64.ofNat idx).toNat = idx := by
      rw [UInt64.toNat_ofNat', Nat.mod_eq_of_lt (by omega)]
    have hread : Parses pos _ _ _ := parses_read_bits hwidth (htoNat ▸ hfits)
    rw [Delta.sparsePackedReader]
    by_cases hbits : indexBits component = 0
    · have hzero : idx = 0 := by simpa [hbits] using hfits
      simp only [hbits, if_true, hzero]
      exact Parses.pure 0
    · have hpos : indexBits component > 0 := UInt8.pos_iff_ne_zero.mpr hbits
      simp only [if_neg hbits, if_pos hpos]
      rw [← List.append_nil [Item.number _ _]]
      refine hread.map_err.bind ?_
      rw [htoNat]
      exact Parses.pure idx

/-! ## Entries -/

/-- The values of a component update in the ranges of their codecs, in a build that can write
them. -/
def FieldsEncode (build : Build) (component : ComponentDef)
    (fields : List (Nat × FieldValue)) : Prop :=
  ∀ p ∈ fields, ∃ field, component.fields[p.1]? = some field
    ∧ field.codec.Contains p.2 ∧ field.codec.Writable build

/-- The values of a component update on which the arithmetic of the reader does not panic. -/
def FieldsReadable (build : Build) (component : ComponentDef) (fields : List (Nat × FieldValue)) :
    Prop :=
  ∀ p ∈ fields, ∀ field, component.fields[p.1]? = some field → field.codec.Readable build p.2

variable {writer : Delta.SparseWriter} {reader : Delta.SparseReader}
  (format : SparseFormat writer reader)

/-- The layout of a field of an entry. -/
def SparseFormat.fieldLayout (component : ComponentDef) (idx : Nat) (value : FieldValue) : Layout :=
  format.index component idx
    ++ (component.fields[idx]?).elim [] fun field => Sdec.fieldLayout field.codec value

/-- The layout of the fields of an entry. -/
def SparseFormat.fieldsLayout (component : ComponentDef) (fields : List (Nat × FieldValue)) :
    Layout :=
  fields.flatMap fun (idx, value) => format.fieldLayout component idx value

/-- The layout of an entry. -/
def SparseFormat.entryLayout (entityId : UInt32) (component : ComponentDef)
    (fields : List (Nat × FieldValue)) : Layout :=
  .align :: (bytes (format.key entityId component.id)
    ++ (bytes (varu32 (UInt32.ofNat fields.length)) ++ format.fieldsLayout component fields))

/-! ## Writing entries -/

theorem SparseFormat.writes_field {component : ComponentDef} {idx : Nat} {field : FieldDef}
    (hfield : component.fields[idx]? = some field) (value : FieldValue) :
    Writes pos (do
        writer.writeIndex component idx
        writeFieldValueSparse build component.id field value)
      (fun _ => ∃ field, component.fields[idx]? = some field
        ∧ field.codec.Contains value ∧ field.codec.Writable build)
      (format.fieldLayout component idx value) := by
  rw [fieldLayout, hfield]
  refine (format.writes_index component idx).bind fun _ _ => ?_
  exact (emits_write_field_value component.id field value).writes fun h => ⟨field, rfl, h⟩

/-- The loop over the fields from index `k` on. -/
theorem SparseFormat.writes_sparse_fields_from {component : ComponentDef} {curr : ComponentSnapshot}
    {mask : List Bool} (k : Nat) {fields : List FieldDef} {bits : List Bool}
    {values : List FieldValue} (hfields : component.fields.drop k = fields)
    (hmask : mask.drop k = bits) (hcurr : curr.fields.drop k = values)
    (hbits : bits.length = fields.length) (hvalues : values.length = fields.length) :
    Writes pos ((fields.zipIdx k).forM fun (field, idx) => do
        if ← Rust.index mask idx then
          writer.writeIndex component idx
          let value ← Rust.index curr.fields idx
          writeFieldValueSparse build component.id field value)
      (fun _ => FieldsEncode build component (changedFields k bits values))
      (format.fieldsLayout component (changedFields k bits values)) := by
  induction fields generalizing pos k bits values with
  | nil =>
      obtain rfl := List.eq_nil_of_length_eq_zero hbits
      exact Writes.pure fun p hp => nomatch hp
  | cons field fields ih =>
      obtain ⟨bit, bits, rfl⟩ := List.exists_cons_of_length_eq_add_one hbits
      obtain ⟨value, values, rfl⟩ := List.exists_cons_of_length_eq_add_one hvalues
      obtain ⟨-, hfield, hfields⟩ := drop_eq_cons hfields
      obtain ⟨-, hbit, hmask⟩ := drop_eq_cons hmask
      obtain ⟨-, hvalue, hcurr⟩ := drop_eq_cons hcurr
      have ih {pos : Nat} : Writes pos _ _ _ := ih (k + 1) hfields hmask hcurr
        (Nat.succ.inj hbits) (Nat.succ.inj hvalues)
      rw [List.zipIdx_cons, List.forM]
      simp only [index_of_some hbit, pure_bind, index_of_some hvalue]
      cases bit with
      | true =>
          rw [changed_fields_true, fieldsLayout, List.flatMap_cons]
          simp only [if_true]
          refine (format.writes_field hfield value).bind fun _ hfirst => ?_
          exact ih.mono fun _ hrest => List.forall_mem_cons.mpr ⟨hfirst, hrest⟩
      | false =>
          rw [changed_fields_false]
          simp only [Bool.false_eq_true, if_false, pure_bind]
          exact ih

theorem SparseFormat.writes_sparse_fields {component : ComponentDef} {curr : ComponentSnapshot}
    {mask : List Bool} (hmask : mask.length = component.fields.length)
    (hcurr : curr.fields.length = component.fields.length) :
    Writes pos (Delta.writeSparseFields build writer component curr mask)
      (fun _ => FieldsEncode build component (changedFields 0 mask curr.fields))
      (format.fieldsLayout component (changedFields 0 mask curr.fields)) :=
  format.writes_sparse_fields_from 0 rfl rfl rfl hmask hcurr

theorem SparseFormat.writes_sparse_entry {entityId : UInt32} {component : ComponentDef}
    {curr : ComponentSnapshot} {mask : List Bool} (hmask : mask.length = component.fields.length)
    (hcurr : curr.fields.length = component.fields.length) :
    Writes pos (Delta.writeSparseEntry build writer entityId component curr mask)
      (fun _ => mask.any id → FieldsEncode build component (changedFields 0 mask curr.fields))
      (if mask.any id then
        format.entryLayout entityId component (changedFields 0 mask curr.fields) else []) := by
  have hcount := length_changed_fields 0 (hmask.trans hcurr.symm)
  have hany : mask.any id ↔ mask.count true > 0 := by
    rw [gt_iff_lt, List.count_pos_iff, List.any_eq_true]
    exact ⟨fun ⟨b, hb, htrue⟩ => (show b = true from htrue) ▸ hb, fun h => ⟨true, h, rfl⟩⟩
  have haligned : stop pos [.align] % 8 = 0 := by rw [stop_align, add_padding_mod]
  unfold Delta.writeSparseEntry
  by_cases hchanged : mask.count true > 0
  · rw [if_pos (hany.mpr hchanged), entryLayout, hcount]
    simp only [if_pos hchanged]
    refine writes_align.cons fun _ _ => ?_
    refine (format.writes_key entityId component.id haligned).bind fun _ _ => ?_
    refine (emits_write_varu32 (by rw [stop_bytes]; omega) _).map_err.writes_true.bind fun _ _ => ?_
    exact (format.writes_sparse_fields hmask hcurr).mono fun _ h _ => h
  · rw [if_neg (mt hany.mp hchanged)]
    simp only [if_neg hchanged]
    exact Writes.pure fun h => absurd (hany.mp h) hchanged

/-- An entry of a sparse section: some fields of a component of an entity. -/
structure SparseEntry where
  entityId : UInt32
  component : ComponentDef
  fields : List (Nat × FieldValue)

namespace SparseEntry

/-- The key by which the entries of a section ascend. -/
def key (entry : SparseEntry) : UInt32 × UInt16 := (entry.entityId, entry.component.id.get)

/-- The update that an entry carries. -/
def update (entry : SparseEntry) : DeltaUpdateComponent := ⟨entry.component.id, entry.fields⟩

/-- The entries that an encoder can have written. -/
def Encodes (build : Build) (entry : SparseEntry) : Prop :=
  FieldsEncode build entry.component entry.fields

end SparseEntry

/-- The layout of the entries of a section. -/
def SparseFormat.entriesLayout (entries : List SparseEntry) : Layout :=
  entries.flatMap fun entry => format.entryLayout entry.entityId entry.component entry.fields

/-- The entries that list updates. A component that the schema does not have is left out. -/
def updateEntries (schema : Schema) (updates : List DeltaUpdateEntity) : List SparseEntry :=
  updates.flatMap fun update => update.components.filterMap fun component =>
    (schema.components.find? fun d => d.id = component.id).map fun definition =>
      ⟨update.id.raw, definition, component.fields⟩

/-- The entries of an entity in both snapshots, which the sparse encoders write. -/
def scannedEntries (build : Build) (schema : Schema) (base curr : EntitySnapshot) :
    List SparseEntry :=
  schema.components.filterMap fun component =>
    (componentUpdate build base curr component).map fun update =>
      ⟨curr.id.raw, component, update.fields⟩

theorem component_update_id {base curr : EntitySnapshot} {component : ComponentDef}
    {update : DeltaUpdateComponent} (h : componentUpdate build base curr component = some update) :
    update.id = component.id := by
  rw [componentUpdate] at h
  split at h
  · split at h
    · cases h
      rfl
    · cases h
  · cases h

/-- They are the entries of the update of the entity. -/
theorem scanned_entries_eq (hschema : schema.Valid) (base curr : EntitySnapshot) :
    scannedEntries build schema base curr
      = updateEntries schema (entityUpdate build schema base curr).toList := by
  have hentries : scannedEntries build schema base curr
      = (componentUpdates build schema base curr).filterMap fun component =>
        (schema.components.find? fun d => d.id = component.id).map fun definition =>
          ⟨curr.id.raw, definition, component.fields⟩ := by
    rw [componentUpdates, List.filterMap_filterMap, scannedEntries]
    refine List.filterMap_congr fun component hcomponent => ?_
    cases hupdate : componentUpdate build base curr component with
    | none => rfl
    | some update =>
        rw [Option.map_some, Option.bind_some, component_update_id hupdate,
          find_definition_of_mem hschema hcomponent, Option.map_some]
  rw [hentries, entityUpdate]
  split
  · rename_i hempty
    rw [List.isEmpty_iff.mp hempty]
    rfl
  · simp [updateEntries]

end Sdec
