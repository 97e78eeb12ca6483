import Sdec.Format.SparseSection

/-!
# Sparse sections of change lists

The encoder of change lists checks the updates it is given, looks their components up in a table,
and writes their packed entries.
-/

namespace Sdec

open Rust Bits Bitstream Codec Wire Sorted

variable {build : Build} {schema : Schema} {limits : CodecLimits} {pos : Nat}

/-! ## The component table -/

/-- The table after one more component. -/
def lookupStep (lookup : Delta.ComponentLookup) (p : ComponentDef × Nat) :
    Delta.ComponentLookup where
  index := lookup.index.set p.1.id.get.toNat (some p.2)
  indexBits := lookup.indexBits.set p.1.id.get.toNat (indexBits p.1)

/-- The slots of other ids stay as they are. -/
theorem lookup_of_not_mem (start : Nat) (lookup : Delta.ComponentLookup)
    {components : List ComponentDef} {n : Nat} (h : ∀ d ∈ components, d.id.get.toNat ≠ n) :
    ((components.zipIdx start).foldl lookupStep lookup).index[n]? = lookup.index[n]? := by
  induction components generalizing start lookup with
  | nil => rfl
  | cons d rest ih =>
      rw [List.zipIdx_cons, List.foldl_cons, ih _ _ fun d hd => h d (List.mem_cons_of_mem _ hd),
        lookupStep, List.getElem?_set_ne (h d List.mem_cons_self)]

theorem lookup_bits_of_not_mem (start : Nat) (lookup : Delta.ComponentLookup)
    {components : List ComponentDef} {n : Nat} (h : ∀ d ∈ components, d.id.get.toNat ≠ n) :
    ((components.zipIdx start).foldl lookupStep lookup).indexBits[n]? = lookup.indexBits[n]? := by
  induction components generalizing start lookup with
  | nil => rfl
  | cons d rest ih =>
      rw [List.zipIdx_cons, List.foldl_cons, ih _ _ fun d hd => h d (List.mem_cons_of_mem _ hd),
        lookupStep, List.getElem?_set_ne (h d List.mem_cons_self)]

theorem component_id_toNat_inj {a b : ComponentId} : a.get.toNat = b.get.toNat ↔ a = b := by
  constructor
  · intro h
    cases a
    cases b
    cases UInt16.toNat_inj.mp h
    rfl
  · rintro rfl
    rfl

/-- The slot of a component holds its position and the width of its indices. -/
theorem lookup_of_getElem (start : Nat) (lookup : Delta.ComponentLookup)
    {components : List ComponentDef} (hids : (components.map ComponentDef.id).Nodup)
    (hlen : ∀ d ∈ components, d.id.get.toNat < lookup.index.length
      ∧ d.id.get.toNat < lookup.indexBits.length) {i : Nat} {d : ComponentDef}
    (hi : components[i]? = some d) :
    ((components.zipIdx start).foldl lookupStep lookup).index[d.id.get.toNat]?
      = some (some (start + i))
      ∧ ((components.zipIdx start).foldl lookupStep lookup).indexBits[d.id.get.toNat]?
        = some (indexBits d) := by
  induction components generalizing start lookup i with
  | nil => cases hi
  | cons first rest ih =>
      obtain ⟨hfirst, hrest⟩ := List.nodup_cons.mp hids
      rw [List.zipIdx_cons, List.foldl_cons]
      cases i with
      | zero =>
          cases hi
          have hne : ∀ c ∈ rest, c.id.get.toNat ≠ d.id.get.toNat := fun c hc heq =>
            hfirst (component_id_toNat_inj.mp heq ▸ List.mem_map_of_mem hc)
          obtain ⟨hindex, hbits⟩ := hlen d List.mem_cons_self
          rw [lookup_of_not_mem _ _ hne, lookup_bits_of_not_mem _ _ hne]
          exact ⟨List.getElem?_set_self hindex, List.getElem?_set_self hbits⟩
      | succ i =>
          rw [List.getElem?_cons_succ] at hi
          rw [show start + (i + 1) = start + 1 + i by omega]
          refine ih (start + 1) _ hrest (fun d hd => ?_) hi
          simpa [lookupStep] using hlen d (List.mem_cons_of_mem _ hd)

section Lookup

variable (hschema : schema.Valid)

/-- Every slot that a component needs is there. -/
theorem component_id_lt_slots {d : ComponentDef} (hd : d ∈ schema.components) :
    d.id.get.toNat < (schema.components.map fun c => c.id.get.toNat).max?.getD 0 + 1 :=
  Nat.lt_succ_of_le
    (List.le_max?_getD_of_mem (List.mem_map_of_mem (f := fun c => c.id.get.toNat) hd))

include hschema

theorem lookup_of_mem {i : Nat} {d : ComponentDef} (hi : schema.components[i]? = some d) :
    (Delta.buildComponentLookup schema).index[d.id.get.toNat]? = some (some i)
      ∧ (Delta.buildComponentLookup schema).indexBits[d.id.get.toNat]? = some (indexBits d) := by
  have h := lookup_of_getElem 0
    ⟨List.replicate ((schema.components.map fun c => c.id.get.toNat).max?.getD 0 + 1) none,
      List.replicate ((schema.components.map fun c => c.id.get.toNat).max?.getD 0 + 1) 0⟩
    hschema.componentIds (fun d hd => by simpa using component_id_lt_slots hd) hi
  rwa [Nat.zero_add] at h

/-- `ComponentLookup::component` finds what a search of the schema finds. -/
theorem lookup_component_eq (id : ComponentId) :
    (Delta.buildComponentLookup schema).component schema id = Delta.findDefinition schema id := by
  rw [Delta.ComponentLookup.component, Delta.findDefinition]
  cases hfind : schema.components.find? fun d => d.id = id with
  | some d =>
      obtain rfl : d.id = id := by simpa using List.find?_some hfind
      obtain ⟨i, hi⟩ := List.getElem?_of_mem (List.mem_of_find?_eq_some hfind)
      rw [(lookup_of_mem hschema hi).1]
      exact index_of_some hi
  | none =>
      have hne : ∀ d ∈ schema.components, d.id.get.toNat ≠ id.get.toNat := fun d hd heq => by
        simpa [component_id_toNat_inj.mp heq] using List.find?_eq_none.mp hfind d hd
      have hslot : (Delta.buildComponentLookup schema).index[id.get.toNat]?
          = (List.replicate _ none)[id.get.toNat]? := lookup_of_not_mem 0 _ hne
      rw [hslot, List.getElem?_replicate]
      by_cases hslot : id.get.toNat
          < (schema.components.map fun c => c.id.get.toNat).max?.getD 0 + 1
      · rw [if_pos hslot]
      · rw [if_neg hslot]

theorem lookup_bits_eq {d : ComponentDef} (hd : d ∈ schema.components) :
    (Delta.buildComponentLookup schema).bits d.id = indexBits d := by
  obtain ⟨i, hi⟩ := List.getElem?_of_mem hd
  rw [Delta.ComponentLookup.bits, (lookup_of_mem hschema hi).2]
  rfl

end Lookup

/-! ## Validation -/

/-- What `validate_updates_for_encoding` checks of a component: it does not look at the order of the
fields. -/
def ListedValid (schema : Schema) (limits : CodecLimits)
    (component : DeltaUpdateComponent) : Prop :=
  ∃ definition ∈ schema.components, component.id = definition.id ∧ component.fields ≠ []
    ∧ component.fields.length ≤ limits.maxFieldsPerComponent
    ∧ ∀ p ∈ component.fields, p.1 < definition.fields.length

theorem validate_component_eq_ok (hschema : schema.Valid)
    {component : DeltaUpdateComponent} {u : Unit} :
    Delta.validateUpdateComponent schema limits (Delta.buildComponentLookup schema)
      component = .ok u
      ↔ ListedValid schema limits component := by
  unfold Delta.validateUpdateComponent
  rw [lookup_component_eq hschema, Delta.findDefinition, ListedValid]
  cases hfind : schema.components.find? fun d => d.id = component.id with
  | none =>
      refine ⟨fun h => (by cases h), fun h => ?_⟩
      obtain ⟨definition, hmem, hid, -⟩ := h
      rw [hid, find_definition_of_mem hschema hmem] at hfind
      cases hfind
  | some definition =>
      have hmem := List.mem_of_find?_eq_some hfind
      have hid : definition.id = component.id := by simpa using List.find?_some hfind
      have hpass {p : Nat × FieldValue} : ((if p.1 ≥ definition.fields.length then
          fail (.invalidMask (.fieldMask component.id)
            (.invalidFieldIndex p.1 (definition.fields.length - 1))) else pure () :
          Outcome CodecError Unit) = .ok ()) ↔ p.1 < definition.fields.length := by
        by_cases hlarge : p.1 ≥ definition.fields.length
        · rw [if_pos hlarge]
          exact ⟨fun h => (by cases h), fun h => absurd h (Nat.not_lt.mpr hlarge)⟩
        · rw [if_neg hlarge]
          exact ⟨fun _ => Nat.lt_of_not_le hlarge, fun _ => rfl⟩
      show (if component.fields.isEmpty = true then _ else _ : Outcome CodecError Unit) = .ok u ↔ _
      simp only [check_fail_eq_ok, forM_eq_ok, hpass, List.isEmpty_iff, Nat.not_lt]
      constructor
      · intro h
        exact ⟨definition, hmem, hid.symm, h⟩
      · intro h
        obtain ⟨definition', hmem', hid', h⟩ := h
        rw [hid', find_definition_of_mem hschema hmem'] at hfind
        cases hfind
        exact h

/-- What `validate_updates_for_encoding` checks: the order of the entities, but not that of their
components. -/
theorem validate_updates_eq_ok (hschema : schema.Valid)
    {updates : List DeltaUpdateEntity} {u : Unit} :
    Delta.validateUpdatesForEncoding schema updates limits
      (Delta.buildComponentLookup schema) = .ok u
      ↔ (updates.Pairwise fun a b => a.id.raw < b.id.raw)
        ∧ ∀ update ∈ updates, update.components.length ≤ limits.maxComponentsPerEntity
          ∧ ∀ component ∈ update.components, ListedValid schema limits component := by
  have hloop (prev : Option UInt32) :
      Delta.validateUpdatesLoop schema limits (Delta.buildComponentLookup schema) prev
        updates = .ok u
        ↔ AscendFrom (· < ·) prev (updates.map fun update => update.id.raw)
          ∧ ∀ update ∈ updates, update.components.length ≤ limits.maxComponentsPerEntity
            ∧ ∀ component ∈ update.components, ListedValid schema limits component := by
    induction updates generalizing prev with
    | nil => exact ⟨fun _ => ⟨ascend_from_nil, List.forall_mem_nil _⟩, fun _ => rfl⟩
    | cons update updates ih =>
        rw [Delta.validateUpdatesLoop, bind_eq_ok, List.map_cons, ids_ascend_cons,
          List.forall_mem_cons]
        simp only [ensure_after_eq_ok, check_fail_eq_ok, bind_eq_ok, forM_eq_ok,
          validate_component_eq_ok hschema, ih, Nat.not_lt]
        constructor
        · intro h
          obtain ⟨-, hafter, hcount, -, hvalid, hascend, hrest⟩ := h
          exact ⟨⟨hafter, hascend⟩, ⟨hcount, hvalid⟩, hrest⟩
        · intro h
          obtain ⟨⟨hafter, hascend⟩, ⟨hcount, hvalid⟩, hrest⟩ := h
          exact ⟨(), hafter, hcount, (), hvalid, hascend, hrest⟩
  rw [Delta.validateUpdatesForEncoding, hloop, ascend_from_none, List.pairwise_map]

/-! ## Writing -/

/-- The component of a listed update is one of the schema, and its values can be written. -/
def ListedEncodes (build : Build) (schema : Schema) (component : DeltaUpdateComponent) : Prop :=
  ∃ definition ∈ schema.components, component.id = definition.id
    ∧ FieldsEncode build definition component.fields

/-- The entries of the components of a listed update. -/
theorem update_entries_singleton (update : DeltaUpdateEntity) :
    updateEntries schema [update] = update.components.filterMap fun component =>
      (schema.components.find? fun d => d.id = component.id).map fun definition =>
        ⟨update.id.raw, definition, component.fields⟩ :=
  List.append_nil _

/-- One field of a listed update: its index, and its value. -/
theorem writes_listed_field (component : ComponentDef) (idx : Nat) (value : FieldValue) :
    Writes pos (do
        if indexBits component > 0 then
          stream (BitWriter.writeBits (UInt64.ofNat idx) (indexBits component))
        let field ← index component.fields idx
        writeFieldValueSparse build component.id field value)
      (fun _ => ∃ field, component.fields[idx]? = some field
        ∧ field.codec.Contains value ∧ field.codec.Writable build)
      (sparsePackedFormat.fieldLayout component idx value) := by
  have hvalue (pos : Nat) : Writes pos (do
      let field ← index component.fields idx
      writeFieldValueSparse build component.id field value : Call CodecError BitWriter Unit)
      (fun _ => ∃ field, component.fields[idx]? = some field
        ∧ field.codec.Contains value ∧ field.codec.Writable build)
      ((component.fields[idx]?).elim [] fun field => Sdec.fieldLayout field.codec value) := by
    cases hfield : component.fields[idx]? with
    | none =>
        rw [index, hfield]
        exact .inl fun _ _ => ⟨_, _, rfl⟩
    | some field =>
        rw [index_of_some hfield, pure_bind]
        exact (emits_write_field_value component.id field value).writes fun h => ⟨field, rfl, h⟩
  rw [SparseFormat.fieldLayout]
  by_cases hbits : indexBits component > 0
  · have hindex : Writes pos _ _ _ := sparsePackedFormat.writes_index component idx
    simp only [Delta.sparsePacked, if_pos hbits] at hindex ⊢
    exact hindex.bind fun _ _ => hvalue _
  · have hnone : sparsePackedFormat.index component idx = [] := if_neg hbits
    simp only [if_neg hbits, hnone]
    exact hvalue pos

theorem writes_listed_entry (hschema : schema.Valid) (entityId : UInt32)
    (update : DeltaUpdateComponent) :
    Writes pos
      (Delta.writeListedEntry build schema (Delta.buildComponentLookup schema) entityId update)
      (fun _ => ListedEncodes build schema update)
      ((schema.components.find? fun d => d.id = update.id).toList.flatMap fun definition =>
        sparsePackedFormat.entryLayout entityId definition update.fields) := by
  unfold Delta.writeListedEntry
  rw [lookup_component_eq hschema, Delta.findDefinition]
  cases hfind : schema.components.find? fun d => d.id = update.id with
  | none => exact Writes.fail _
  | some definition =>
      have hmem := List.mem_of_find?_eq_some hfind
      have hid : definition.id = update.id := by simpa using List.find?_some hfind
      have haligned : stop pos [.align] % 8 = 0 := by rw [stop_align, add_padding_mod]
      rw [Option.toList_some, List.flatMap_cons, List.flatMap_nil, List.append_nil,
        SparseFormat.entryLayout]
      refine Writes.lift fun d hd => ?_
      cases hd
      refine writes_align.cons fun _ _ => ?_
      show Writes _ _ _ (bytes (varu32 entityId ++ varu32 definition.id.get.toUInt32) ++ _)
      rw [bytes_append, List.append_assoc]
      refine (emits_write_varu32 haligned _).map_err.writes_true.bind fun _ _ => ?_
      refine (emits_write_varu32 (by rw [stop_bytes]; omega) _).map_err.writes_true.bind
        fun _ _ => ?_
      refine (emits_write_varu32 (by rw [stop_bytes, stop_bytes]; omega)
        _).map_err.writes_true.bind fun _ _ => ?_
      rw [lookup_bits_eq hschema hmem]
      refine (Writes.forM fun p _ pos => writes_listed_field definition p.1 p.2).mono fun _ h => ?_
      exact ⟨definition, hmem, hid.symm, h⟩

/-- The body that the encoder of change lists writes. -/
theorem writes_encode_listed_body (hschema : schema.Valid) (updates : List DeltaUpdateEntity) :
    Writes pos (Delta.encodeUpdateBodySparsePackedFromUpdates build schema updates limits
        (Delta.buildComponentLookup schema))
      (fun _ => updates.length ≤ limits.maxEntitiesUpdate
        ∧ (updateEntries schema updates).length
          ≤ saturatingMul limits.maxEntitiesUpdate limits.maxComponentsPerEntity
        ∧ ∀ update ∈ updates, ∀ component ∈ update.components, ListedEncodes build schema component)
      (countedLayout (updates.map fun update => update.components.length).sum
        (sparsePackedFormat.entriesLayout (updateEntries schema updates))) := by
  unfold Delta.encodeUpdateBodySparsePackedFromUpdates
  refine Writes.check fun hcount => Writes.check fun hlimit => writes_counted fun pos => ?_
  refine (?_ : Writes pos _ (fun _ => ∀ update ∈ updates, ∀ component ∈ update.components,
    ListedEncodes build schema component) _).bind fun _ hencodes => writes_align.mono fun _ _ => ?_
  · rw [SparseFormat.entriesLayout, updateEntries, List.flatMap_assoc]
    refine Writes.forM fun update _ pos => ?_
    rw [flatMap_filterMap]
    refine Writes.forM fun component _ pos => ?_
    have hlayout (found : Option ComponentDef) :
        (found.map fun definition =>
          SparseEntry.mk update.id.raw definition component.fields).toList.flatMap
            (fun entry =>
              sparsePackedFormat.entryLayout entry.entityId entry.component entry.fields)
          = found.toList.flatMap fun definition =>
            sparsePackedFormat.entryLayout update.id.raw definition component.fields := by
      cases found <;> rfl
    rw [hlayout]
    exact writes_listed_entry hschema update.id.raw component
  · refine ⟨Nat.le_of_not_lt hcount, ?_, hencodes⟩
    rw [length_update_entries hschema fun update hupdate component hcomponent => ?_]
    · exact Nat.le_of_not_lt hlimit
    · obtain ⟨definition, hmem, hid, -⟩ := hencodes update hupdate component hcomponent
      exact ⟨definition, hmem, hid⟩

end Sdec
