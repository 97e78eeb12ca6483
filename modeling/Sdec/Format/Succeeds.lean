import Sdec.Format.Entity
import Sdec.Format.Delta
import Sdec.Format.SparseReads

/-!
# When the encoders succeed

The encoders write what they are given wherever it fits, if the values are in range, the counts
within the limits and the ids in order. These are the converses of what `Writes` says of the same
calls.
-/

namespace Sdec

open Rust Bits Bitstream Codec Wire Sorted

variable {build : Build} {schema : Schema} {limits : CodecLimits} {pos : Nat}

theorem emits_align : Emits pos (stream BitWriter.alignToByte) True [.align] () :=
  emits_align_to_byte.map_err

theorem emits_mask {α : Type} (f : α → Bool) (xs : List α) :
    Emits pos (xs.forM fun x => stream (BitWriter.writeBit (f x))) True (flags (xs.map f))
      PUnit.unit := by
  rw [flags_map_eq_flatMap]
  exact Emits.forM fun x _ pos => (emits_write_bit (f x)).map_err

/-- A component whose values can be encoded. -/
theorem emits_write_all_fields {component : ComponentDef} {snapshot : ComponentSnapshot}
    (h : component.Encodes build limits snapshot.fields) :
    Emits pos (writeAllFields build component snapshot) True (denseLayout component snapshot.fields)
      () := by
  unfold writeAllFields
  refine (emits_mask (fun _ => true) component.fields).seq ?_
  refine Emits.forM fun p hp pos => ?_
  exact (emits_write_field_value component.id p.1 p.2).congr
    ⟨fun _ => trivial, fun _ => h.values p hp⟩

theorem emits_write_component_fields {component : ComponentDef} {snapshot : ComponentSnapshot}
    (h : component.Encodes build limits snapshot.fields) :
    Emits pos (Full.writeComponentFields build component snapshot limits) True
      (denseLayout component snapshot.fields) () := by
  have hlimit := h.limit
  have hlength := h.length
  unfold Full.writeComponentFields
  rw [if_neg (by omega), if_neg (by omega), if_neg (by omega)]
  exact emits_write_all_fields h

/-- The entities of a full snapshot, behind one with a smaller id. -/
theorem emits_write_entities {entities : List EntitySnapshot} {prev : Option UInt32}
    (hascend : AscendFrom (· < ·) prev (entities.map fun entity => entity.id.raw))
    (hknown : ∀ entity ∈ entities, ensureKnownComponents schema entity = .ok ())
    (hcount : ∀ entity ∈ entities, entity.components.length ≤ limits.maxComponentsPerEntity)
    (hencodes : ∀ entity ∈ entities, entity.Encodes build schema limits) :
    Emits pos (Full.writeEntities build schema limits prev entities) True
      (createLayout schema entities) () := by
  induction entities generalizing pos prev with
  | nil => exact Emits.pure ()
  | cons entity rest ih =>
      rw [List.map_cons, ids_ascend_cons] at hascend
      obtain ⟨hknown, hknown'⟩ := List.forall_mem_cons.mp hknown
      obtain ⟨hcount, hcount'⟩ := List.forall_mem_cons.mp hcount
      obtain ⟨hencodes, hencodes'⟩ := List.forall_mem_cons.mp hencodes
      have hafter : ensureAfter prev entity.id.raw = .ok () := ensure_after_eq_ok.mpr hascend.1
      rw [Full.writeEntities, createLayout, keyedLayout, List.flatMap_cons, List.cons_append,
        List.append_assoc, componentsLayout, List.append_assoc, ← List.singleton_append]
      rw [hafter]
      show Emits pos (stream BitWriter.alignToByte >>= _) True _ _
      refine emits_align.seq ?_
      refine ((emits_write_u32_aligned (by rw [stop_align, add_padding_mod]) _).map_err).seq ?_
      rw [if_neg (Nat.not_lt.mpr hcount), hknown]
      show Emits _ (writeComponentMask schema entity >>= _) True _ _
      have hmask {pos : Nat} : Emits pos (writeComponentMask schema entity) True
          (flags (schema.components.map fun component => (denseContent entity component).isSome))
          () := by
        simp only [denseContent, Option.isSome_map]
        exact emits_mask _ _
      refine hmask.seq (Emits.seq (Emits.forM fun component hcomponent pos => ?_)
        (ih hascend.2 hknown' hcount' hencodes'))
      rw [denseContent]
      cases hfind : findComponent entity component.id with
      | none => exact Emits.pure PUnit.unit
      | some snapshot =>
          exact emits_write_component_fields (hencodes component hcomponent snapshot hfind)

/-- The body of the create section of a full snapshot. -/
theorem emits_encode_full_body {entities : List EntitySnapshot}
    (hcomponents : schema.components.length ≤ limits.maxComponentsPerEntity)
    (hascend : AscendFrom (· < ·) none (entities.map fun entity => entity.id.raw))
    (hknown : ∀ entity ∈ entities, ensureKnownComponents schema entity = .ok ())
    (hcount : ∀ entity ∈ entities, entity.components.length ≤ limits.maxComponentsPerEntity)
    (hencodes : ∀ entity ∈ entities, entity.Encodes build schema limits) :
    Emits pos (Full.encodeCreateBody build schema entities limits) True
      (countedLayout entities.length (createLayout schema entities)) () := by
  unfold Full.encodeCreateBody
  rw [if_neg (Nat.not_lt.mpr hcomponents), countedLayout, ← List.singleton_append]
  refine emits_align.seq ?_
  refine (emits_write_varu32 (by rw [stop_align, add_padding_mod]) _).map_err.seq ?_
  exact (emits_write_entities hascend hknown hcount hencodes).seq emits_align

/-! ## Change lists -/

/-- One field of a listed update. -/
theorem emits_listed_field {component : ComponentDef} (hvalid : component.Valid) {idx : Nat}
    {field : FieldDef} {value : FieldValue} (hfield : component.fields[idx]? = some field)
    (hcontains : field.codec.Contains value) (hwritable : field.codec.Writable build) :
    Emits pos (do
        if indexBits component > 0 then
          stream (BitWriter.writeBits (UInt64.ofNat idx) (indexBits component))
        let field ← index component.fields idx
        writeFieldValueSparse build component.id field value) True
      (sparsePackedFormat.fieldLayout component idx value) () := by
  have hidx : idx < component.fields.length := (List.getElem?_eq_some_iff.mp hfield).1
  have hmax := hvalid.length_fields_le
  have hfits := lt_two_pow_index_bits hmax hidx
  have hwidth := (required_bits_spec (UInt64.ofNat (component.fields.length - 1))).1
  have htoNat : (UInt64.ofNat idx).toNat = idx := by
    rw [UInt64.toNat_ofNat', Nat.mod_eq_of_lt (by omega)]
  have hvalue {pos : Nat} : Emits pos (do
      let field ← index component.fields idx
      writeFieldValueSparse build component.id field value : Call CodecError BitWriter Unit) True
      (Sdec.fieldLayout field.codec value) () := by
    rw [index_of_some hfield, pure_bind]
    exact (emits_write_field_value component.id field value).congr
      ⟨fun _ => trivial, fun _ => ⟨hcontains, hwritable⟩⟩
  rw [SparseFormat.fieldLayout, hfield]
  by_cases hbits : indexBits component > 0
  · have hindex : sparsePackedFormat.index component idx
        = [.number (indexBits component).toNat (UInt64.ofNat idx).toNat] := if_pos hbits
    simp only [if_pos hbits, hindex]
    refine Emits.seq ((emits_write_bits _ _).map_err.congr ⟨fun _ => trivial, fun _ => ?_⟩) hvalue
    exact ⟨hwidth, .inr (by rwa [htoNat])⟩
  · have hnone : sparsePackedFormat.index component idx = [] := if_neg hbits
    simp only [if_neg hbits, hnone]
    exact hvalue

/-- The entry of a component of a listed update. -/
theorem emits_listed_entry (hschema : schema.Valid) (entityId : UInt32)
    {component : DeltaUpdateComponent} (h : ListedEncodes build schema component) :
    Emits pos (Delta.writeListedEntry build schema (Delta.buildComponentLookup schema) entityId
        component) True
      ((schema.components.find? fun d => d.id = component.id).toList.flatMap fun definition =>
        sparsePackedFormat.entryLayout entityId definition component.fields) () := by
  obtain ⟨definition, hmem, hid, hencodes⟩ := h
  have haligned : stop pos [.align] % 8 = 0 := by rw [stop_align, add_padding_mod]
  unfold Delta.writeListedEntry
  rw [lookup_component_eq hschema, Delta.findDefinition, hid, find_definition_of_mem hschema hmem,
    Option.toList_some, List.flatMap_cons, List.flatMap_nil, List.append_nil,
    SparseFormat.entryLayout]
  show Emits pos (stream BitWriter.alignToByte >>= _) True _ _
  rw [← List.singleton_append]
  refine emits_align.seq ?_
  show Emits _ _ _ (bytes (varu32 entityId ++ varu32 definition.id.get.toUInt32) ++ _) _
  rw [bytes_append, List.append_assoc]
  refine (emits_write_varu32 haligned _).map_err.seq ?_
  refine (emits_write_varu32 (by rw [stop_bytes]; omega) _).map_err.seq ?_
  refine (emits_write_varu32 (by rw [stop_bytes, stop_bytes]; omega) _).map_err.seq ?_
  rw [lookup_bits_eq hschema hmem]
  refine Emits.forM fun p hp pos => ?_
  obtain ⟨field, hfield, hcontains, hwritable⟩ := hencodes p hp
  exact emits_listed_field (hschema.components _ hmem) hfield hcontains hwritable

/-- The body that the encoder of change lists writes. -/
theorem emits_encode_listed_body (hschema : schema.Valid) {updates : List DeltaUpdateEntity}
    (hcount : updates.length ≤ limits.maxEntitiesUpdate)
    (hentries : (updateEntries schema updates).length
      ≤ saturatingMul limits.maxEntitiesUpdate limits.maxComponentsPerEntity)
    (hencodes : ∀ update ∈ updates, ∀ component ∈ update.components,
      ListedEncodes build schema component) :
    Emits pos (Delta.encodeUpdateBodySparsePackedFromUpdates build schema updates limits
        (Delta.buildComponentLookup schema)) True
      (countedLayout (updateEntries schema updates).length
        (sparsePackedFormat.entriesLayout (updateEntries schema updates))) () := by
  have hlength := length_update_entries hschema fun update hupdate component hcomponent => by
    obtain ⟨definition, hmem, hid, -⟩ := hencodes update hupdate component hcomponent
    exact ⟨definition, hmem, hid⟩
  unfold Delta.encodeUpdateBodySparsePackedFromUpdates
  rw [hlength] at hentries ⊢
  rw [if_neg (Nat.not_lt.mpr hcount), if_neg (Nat.not_lt.mpr hentries), countedLayout,
    ← List.singleton_append]
  refine emits_align.seq ?_
  refine (emits_write_varu32 (by rw [stop_align, add_padding_mod]) _).map_err.seq ?_
  refine Emits.seq (a := PUnit.unit) ?_ emits_align
  rw [SparseFormat.entriesLayout, updateEntries, List.flatMap_assoc]
  refine Emits.forM fun update hupdate pos => ?_
  rw [flatMap_filterMap]
  refine Emits.forM fun component hcomponent pos => ?_
  have hentry := @emits_listed_entry build schema pos hschema update.id.raw component
    (hencodes update hupdate component hcomponent)
  cases hfind : schema.components.find? fun d => d.id = component.id with
  | none =>
      rw [hfind] at hentry
      exact hentry
  | some definition =>
      rw [hfind] at hentry
      exact hentry

end Sdec
