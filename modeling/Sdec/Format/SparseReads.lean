import Sdec.Format.Listed
import Mathlib.Data.Fintype.Card

/-!
# Reading sparse sections

What the sparse decoders make of the entries of a section: they accept entries whose keys ascend
strictly by entity and then by component, each with strictly ascending field indices, and put the
entries of one entity back together. `readSparseEntries` accepts nothing else.
-/

namespace Sdec

open Rust Bits Bitstream Codec Wire Sorted

variable {build : Build} {schema : Schema} {limits : CodecLimits} {pos : Nat}
variable {writer : Delta.SparseWriter} {reader : Delta.SparseReader}
  (format : SparseFormat writer reader)

/-! ## Keys -/

/-- The order of the keys of a sparse section. -/
def KeyLt (a b : UInt32 × UInt16) : Prop := a.1 < b.1 ∨ (a.1 = b.1 ∧ a.2 < b.2)

theorem KeyLt.trans {a b c : UInt32 × UInt16} (hab : KeyLt a b) (hbc : KeyLt b c) : KeyLt a c := by
  rcases hab with hab | ⟨hab, hab'⟩ <;> rcases hbc with hbc | ⟨hbc, hbc'⟩
  · exact .inl (UInt32.lt_trans hab hbc)
  · exact .inl (hbc ▸ hab)
  · exact .inl (hab ▸ hbc)
  · exact .inr ⟨hab.trans hbc, UInt16.lt_trans hab' hbc'⟩

theorem ensure_entry_after_eq_ok {prev : Option (UInt32 × UInt16)} {entityId : UInt32}
    {componentRaw : UInt16} {u : Unit} :
    Delta.ensureEntryAfter prev entityId componentRaw = .ok u
      ↔ ∀ p, prev = some p → KeyLt p (entityId, componentRaw) := by
  cases prev with
  | none => exact ⟨fun _ p hp => (nomatch hp), fun _ => rfl⟩
  | some p =>
      obtain ⟨entity, component⟩ := p
      rw [Delta.ensureEntryAfter]
      by_cases hbefore : entityId < entity
      · rw [if_pos hbefore]
        refine ⟨fun h => (nomatch h), fun hall => ?_⟩
        rcases hall _ rfl with hlt | ⟨heq, -⟩
        · exact absurd hbefore (UInt32.lt_asymm hlt)
        · exact absurd hbefore ((show entity = entityId from heq) ▸ UInt32.lt_irrefl _)
      · rw [if_neg hbefore]
        by_cases hsame : entityId = entity ∧ componentRaw ≤ component
        · rw [if_pos hsame]
          refine ⟨fun h => (nomatch h), fun hall => ?_⟩
          rcases hall _ rfl with hlt | ⟨-, hlt⟩
          · exact absurd hlt (hsame.1 ▸ UInt32.lt_irrefl _)
          · exact absurd hsame.2 (UInt16.not_le.mpr hlt)
        · rw [if_neg hsame]
          refine ⟨fun _ p hp => ?_, fun _ => rfl⟩
          cases hp
          by_cases heq : entityId = entity
          · exact .inr ⟨heq.symm, UInt16.not_le.mp fun hle => hsame ⟨heq, hle⟩⟩
          · exact .inl (UInt32.lt_of_le_of_ne (UInt32.not_lt.mp hbefore) fun h => heq h.symm)

theorem ensure_index_after_eq_ok {component : ComponentDef} {prev : Option Nat} {idx : Nat}
    {u : Unit} :
    Delta.ensureIndexAfter component prev idx = .ok u ↔ ∀ p, prev = some p → p < idx := by
  cases prev with
  | none => exact ⟨fun _ p hp => (nomatch hp), fun _ => rfl⟩
  | some p =>
      rw [Delta.ensureIndexAfter]
      by_cases h : idx ≤ p
      · rw [if_pos h]
        exact ⟨fun h => (nomatch h), fun hall => absurd h (Nat.not_le.mpr (hall p rfl))⟩
      · rw [if_neg h]
        exact ⟨fun _ q hq => Option.some.inj hq ▸ Nat.lt_of_not_le h, fun _ => rfl⟩

/-- The fields of a valid component are numbered by 16 bits. -/
theorem ComponentDef.Valid.length_fields_le {component : ComponentDef} (h : component.Valid) :
    component.fields.length ≤ 2 ^ 16 := by
  have hnodup : (component.fields.map fun field => field.id.val.toFin).Nodup := by
    have := h.fieldIds.map (f := fun id : FieldId => id.val.toFin) fun a b hab => by
      cases a
      cases b
      simpa [UInt16.toFin_inj] using hab
    rwa [List.map_map] at this
  have := hnodup.length_le_card
  rwa [List.length_map, Fintype.card_fin] at this

/-! ## Fields -/

theorem indices_ascend_cons {prev : Option Nat} {idx : Nat} {indices : List Nat} :
    AscendFrom (· < ·) prev (idx :: indices)
      ↔ (∀ p, prev = some p → p < idx) ∧ AscendFrom (· < ·) (some idx) indices :=
  ascend_from_cons fun _ _ _ => Nat.lt_trans

/-- The loop over the fields of an entry accepts ascending indices. -/
theorem SparseFormat.reads_sparse_fields {component : ComponentDef} (hvalid : component.Valid)
    {fields : List (Nat × FieldValue)} (hfields : FieldsEncode build component fields)
    (prev : Option Nat) :
    Reads pos (Delta.readSparseFields build reader component fields.length prev)
      (AscendFrom (· < ·) prev (fields.map Prod.fst) ∧ FieldsReadable build component fields)
      (format.fieldsLayout component fields) fields := by
  induction fields generalizing pos prev with
  | nil =>
      refine (Reads.pure []).congr
        ⟨fun _ => ⟨ascend_from_nil, fun p hp => by cases hp⟩, fun _ => trivial⟩
  | cons p fields ih =>
      obtain ⟨idx, value⟩ := p
      obtain ⟨⟨field, hfield, hvalue, -⟩, hrest⟩ := List.forall_mem_cons.mp hfields
      have hidx : idx < component.fields.length := (List.getElem?_eq_some_iff.mp hfield).1
      have hcodec : field.codec.Valid := hvalid.codecs field (List.mem_of_getElem? hfield)
      have hreadable : FieldsReadable build component ((idx, value) :: fields)
          ↔ field.codec.Readable build value ∧ FieldsReadable build component fields := by
        rw [FieldsReadable, List.forall_mem_cons]
        refine and_congr_left fun _ => ⟨fun h => h field hfield, fun h f hf => ?_⟩
        exact Option.some.inj (hfield.symm.trans hf) ▸ h
      rw [List.length_cons, Delta.readSparseFields, List.map_cons,
        indices_ascend_cons, hreadable]
      show Reads pos _ _ (format.fieldLayout component idx value
        ++ format.fieldsLayout component fields) _
      rw [SparseFormat.fieldLayout, hfield, List.append_assoc]
      refine (format.parses_index hvalid.length_fields_le hidx).bind_reads ?_
      rw [if_neg (Nat.not_le.mpr hidx)]
      refine Reads.lift (fun _ hafter => ?_) fun e herror hok => ?_
      · have hafter := ensure_index_after_eq_ok.mp hafter
        rw [index_of_some hfield, pure_bind]
        refine Reads.congr (Reads.bind (reads_read_field_value component.id hcodec hvalue) fun _ =>
          (ih hrest (some idx)).bind_pure) ?_
        exact ⟨fun h => ⟨⟨hafter, h.2.1⟩, h.1, h.2.2⟩, fun h => ⟨h.2.1, h.1.2, h.2.2⟩⟩
      · rw [ensure_index_after_eq_ok (u := ()).mpr hok.1.1] at herror
        cases herror

/-! ## Entries -/

/-- The entries that a decoder takes for themselves, wherever they stand in a section. -/
structure SparseEntry.Accepted (build : Build) (limits : CodecLimits) (entry : SparseEntry) :
    Prop where
  nonempty : entry.fields ≠ []
  limit : entry.fields.length ≤ limits.maxFieldsPerComponent
  indices : (entry.fields.map Prod.fst).Pairwise (· < ·)
  readable : FieldsReadable build entry.component entry.fields

/-- Ascending indices of a component are no more than its fields. -/
theorem FieldsEncode.length_le {component : ComponentDef} {fields : List (Nat × FieldValue)}
    (h : FieldsEncode build component fields)
    (hindices : (fields.map Prod.fst).Pairwise (· < ·)) :
    fields.length ≤ component.fields.length := by
  have hupper : ∀ n ∈ fields.map Prod.fst, n < component.fields.length := by
    intro n hn
    obtain ⟨p, hp, rfl⟩ := List.mem_map.mp hn
    obtain ⟨field, hfield, -⟩ := h p hp
    exact (List.getElem?_eq_some_iff.mp hfield).1
  have := length_le_of_ascending hindices (fun n _ => Nat.zero_le n) hupper
  rwa [List.length_map] at this

section Entry

variable (hschema : schema.Valid) {entry : SparseEntry} (hmem : entry.component ∈ schema.components)
  (hencodes : entry.Encodes build) (hcount : entry.fields.length < 2 ^ 32)

include hschema hmem hencodes hcount

theorem SparseFormat.reads_sparse_entry (prev : Option (UInt32 × UInt16)) :
    Reads pos (Delta.readSparseEntry build reader schema limits prev)
      ((∀ p, prev = some p → KeyLt p entry.key) ∧ entry.Accepted build limits)
      (format.entryLayout entry.entityId entry.component entry.fields)
      (entry.entityId, entry.update) := by
  have haligned : stop pos [.align] % 8 = 0 := by rw [stop_align, add_padding_mod]
  have htoNat : (UInt32.ofNat entry.fields.length).toNat = entry.fields.length := by
    rw [UInt32.toNat_ofNat', Nat.mod_eq_of_lt hcount]
  have hparse : Delta.parseComponentId entry.component.id.get = .ok entry.component.id := by
    have hnew : ComponentId.new entry.component.id.get = some entry.component.id :=
      dif_pos entry.component.id.ne_zero
    rw [Delta.parseComponentId, hnew]
    rfl
  have hfind : Delta.findDefinition schema entry.component.id = .ok entry.component := by
    rw [Delta.findDefinition, find_definition_of_mem hschema hmem]
    rfl
  unfold Delta.readSparseEntry
  rw [entryLayout]
  refine (parses_align_to_byte.map_err : Parses pos _ [.align] _).bind_reads ?_
  refine (format.parses_key entry.entityId entry.component.id haligned).bind_reads ?_
  refine Reads.lift_ok hparse (Reads.lift (fun _ hafter => ?_) fun e herror hok => ?_)
  · have hafter := ensure_entry_after_eq_ok.mp hafter
    refine Reads.lift_ok hfind ?_
    refine Parses.bind_reads (parses_read_varu32 (by rw [stop_bytes]; omega) _).map_err ?_
    rw [htoNat]
    refine Reads.congr (Reads.check fun hsome => Reads.check fun hlimit => Reads.check fun hfits =>
      (format.reads_sparse_fields (hschema.components _ hmem) hencodes none).bind_pure) ?_
    constructor
    · rintro ⟨hsome, hlimit, -, hindices, hreadable⟩
      exact ⟨hafter, fun hnil => hsome (congrArg List.length hnil), Nat.le_of_not_lt hlimit,
        hindices, hreadable⟩
    · rintro ⟨-, hsome, hlimit, hindices, hreadable⟩
      exact ⟨mt List.eq_nil_of_length_eq_zero hsome, Nat.not_lt.mpr hlimit,
        Nat.not_lt.mpr (hencodes.length_le hindices), hindices, hreadable⟩
  · rw [ensure_entry_after_eq_ok (u := ()).mpr hok.1] at herror
    cases herror

end Entry

/-! ## Sections -/

/-- The updates of entries, one entity after the other. -/
def groupEntries (updates : List DeltaUpdateEntity) (entries : List SparseEntry) :
    List DeltaUpdateEntity :=
  entries.foldl (fun updates entry => Delta.pushEntry updates entry.entityId entry.update) updates

/-- The entries that a writer of sparse sections can have written. -/
structure EntriesEncode (build : Build) (schema : Schema) (entries : List SparseEntry) : Prop where
  known : ∀ entry ∈ entries, entry.component ∈ schema.components
  values : ∀ entry ∈ entries, entry.Encodes build
  counts : ∀ entry ∈ entries, entry.fields.length < 2 ^ 32

/-- The loop over the entries accepts keys that ascend. -/
theorem SparseFormat.reads_sparse_entries (hschema : schema.Valid) {entries : List SparseEntry}
    (hentries : EntriesEncode build schema entries) (prev : Option (UInt32 × UInt16))
    (updates : List DeltaUpdateEntity) :
    Reads pos (Delta.readSparseEntries build reader schema limits entries.length prev updates)
      (AscendFrom KeyLt prev (entries.map SparseEntry.key)
        ∧ ∀ entry ∈ entries, entry.Accepted build limits)
      (format.entriesLayout entries) (groupEntries updates entries) := by
  induction entries generalizing pos prev updates with
  | nil =>
      exact (Reads.pure updates).congr ⟨fun _ => ⟨ascend_from_nil, fun e he => nomatch he⟩,
        fun _ => trivial⟩
  | cons entry entries ih =>
      obtain ⟨hknown, hknown'⟩ := List.forall_mem_cons.mp hentries.known
      obtain ⟨hvalues, hvalues'⟩ := List.forall_mem_cons.mp hentries.values
      obtain ⟨hcount, hcounts⟩ := List.forall_mem_cons.mp hentries.counts
      rw [List.length_cons, Delta.readSparseEntries, List.map_cons, List.forall_mem_cons,
        ascend_from_cons (r := KeyLt) fun _ _ _ => KeyLt.trans]
      refine Reads.congr (Reads.bind (format.reads_sparse_entry hschema hknown hvalues hcount prev)
        fun _ => ih ⟨hknown', hvalues', hcounts⟩ (some entry.key) _) ?_
      exact ⟨fun ⟨⟨h₁, h₂⟩, h₃, h₄⟩ => ⟨⟨h₁, h₃⟩, h₂, h₄⟩,
        fun ⟨⟨h₁, h₃⟩, h₂, h₄⟩ => ⟨⟨h₁, h₂⟩, h₃, h₄⟩⟩

/-- What the sparse decoders make of a section. -/
theorem SparseFormat.decode_section_eq_ok (hschema : schema.Valid) {entries : List SparseEntry}
    (hentries : EntriesEncode build schema entries) {body : List UInt8}
    {result : List DeltaUpdateEntity}
    (hbody : ofBytes body = render 0 (countedLayout entries.length (format.entriesLayout entries)))
    (hlong : body.length < 2 ^ 32) (hcount : entries.length < 2 ^ 32) :
    Delta.decodeUpdateSectionSparse reader build schema body limits = .ok result ↔
      (body.length ≤ limits.maxSectionBytes
        ∧ entries.length ≤ saturatingMul limits.maxEntitiesUpdate limits.maxComponentsPerEntity
        ∧ (entries.map SparseEntry.key).Pairwise KeyLt
        ∧ (∀ entry ∈ entries, entry.Accepted build limits)
        ∧ (groupEntries [] entries).length ≤ limits.maxEntitiesUpdate)
      ∧ groupEntries [] entries = result := by
  have hsection (updates : List DeltaUpdateEntity) :=
    @read_section_eq_ok limits _ _ reader.tag .entitiesUpdate
      (saturatingMul limits.maxEntitiesUpdate limits.maxComponentsPerEntity) entries.length body
      (fun entryCount => Delta.readSparseEntries build reader schema limits entryCount none [])
      _ _ updates hbody (bits_le_usize_max hlong) hcount fun _ =>
        format.reads_sparse_entries hschema hentries none []
  rw [Delta.decodeUpdateSectionSparse, bind_eq_ok]
  simp only [hsection, check_fail_eq_ok, pure_eq_ok, Nat.not_lt, ascend_from_none]
  constructor
  · rintro ⟨_, ⟨⟨hmax, hlimit, hkeys, haccepted⟩, rfl⟩, hupdates, rfl⟩
    exact ⟨⟨hmax, hlimit, hkeys, haccepted, hupdates⟩, rfl⟩
  · rintro ⟨⟨hmax, hlimit, hkeys, haccepted, hupdates⟩, rfl⟩
    exact ⟨_, ⟨⟨hmax, hlimit, hkeys, haccepted⟩, rfl⟩, hupdates, rfl⟩

/-! ## Grouping -/

/-- An entry of the entity of the last update joins it. -/
theorem push_entry_same (updates : List DeltaUpdateEntity) (id : EntityId)
    (components : List DeltaUpdateComponent) (component : DeltaUpdateComponent) :
    Delta.pushEntry (updates ++ [⟨id, components⟩]) id.raw component
      = updates ++ [⟨id, components ++ [component]⟩] := by
  rw [Delta.pushEntry, List.getLast?_concat]
  simp only [if_true, List.dropLast_concat]

/-- An entry of another entity begins a new update. -/
theorem push_entry_other {updates : List DeltaUpdateEntity} {id : EntityId}
    (h : ∀ update ∈ updates, update.id ≠ id) (component : DeltaUpdateComponent) :
    Delta.pushEntry updates id.raw component = updates ++ [⟨id, [component]⟩] := by
  rw [Delta.pushEntry]
  cases hlast : updates.getLast? with
  | none => rfl
  | some last =>
      have hne : last.id.raw ≠ id.raw := fun hraw =>
        h last (List.mem_of_getLast? hlast) (entity_id_eq hraw)
      simp only [if_neg hne]

/-- The entries of an entity are put back together. -/
theorem group_entries_of_components (hschema : schema.Valid) (updates : List DeltaUpdateEntity)
    (id : EntityId) (components rest : List DeltaUpdateComponent)
    (hknown : KnownComponents schema [⟨id, rest⟩]) :
    groupEntries (updates ++ [⟨id, components⟩]) (updateEntries schema [⟨id, rest⟩])
      = updates ++ [⟨id, components ++ rest⟩] := by
  induction rest generalizing components with
  | nil => rw [List.append_nil]; rfl
  | cons component rest ih =>
      have hknown := List.forall_mem_cons.mp (hknown _ List.mem_cons_self)
      obtain ⟨definition, hmem, hid⟩ := hknown.1
      have ih := ih (components ++ [component]) fun update hupdate => by
        cases List.mem_singleton.mp hupdate
        exact hknown.2
      rw [update_entries_singleton] at ih ⊢
      rw [List.filterMap_cons, hid, find_definition_of_mem hschema hmem, Option.map_some,
        groupEntries, List.foldl_cons, ← groupEntries]
      show groupEntries (Delta.pushEntry _ id.raw ⟨definition.id, component.fields⟩) _ = _
      rw [← hid, push_entry_same, ih, List.append_assoc]
      rfl

/-- The entries of updates of different entities, none of them empty, are put back together. -/
theorem group_update_entries (hschema : schema.Valid) {done updates : List DeltaUpdateEntity}
    (hids : (done ++ updates).Pairwise fun a b => a.id ≠ b.id)
    (hknown : KnownComponents schema updates) (hsome : ∀ update ∈ updates, update.components ≠ []) :
    groupEntries done (updateEntries schema updates) = done ++ updates := by
  induction updates generalizing done with
  | nil => rw [List.append_nil]; rfl
  | cons update updates ih =>
      obtain ⟨id, components⟩ := update
      obtain ⟨hfirst, hknown'⟩ := List.forall_mem_cons.mp hknown
      obtain ⟨hne, hsome'⟩ := List.forall_mem_cons.mp hsome
      obtain ⟨first, rest, rfl⟩ := List.exists_cons_of_ne_nil hne
      obtain ⟨⟨definition, hmem, hid⟩, hrest⟩ := List.forall_mem_cons.mp hfirst
      have hother : ∀ update ∈ done, update.id ≠ id := fun update hupdate =>
        (List.pairwise_append.mp hids).2.2 update hupdate _ List.mem_cons_self
      have hsplit : updateEntries schema (⟨id, first :: rest⟩ :: updates)
          = ⟨id.raw, definition, first.fields⟩ :: (updateEntries schema [⟨id, rest⟩]
            ++ updateEntries schema updates) := by
        rw [update_entries_singleton, updateEntries, List.flatMap_cons, List.filterMap_cons, hid,
          find_definition_of_mem hschema hmem]
        rfl
      have hgroup :=
        group_entries_of_components hschema done id [first] rest fun update hupdate => by
          cases List.mem_singleton.mp hupdate
          exact hrest
      have ih := @ih (done ++ [⟨id, first :: rest⟩]) (by rwa [List.append_assoc]) hknown' hsome'
      rw [List.append_assoc] at ih
      rw [hsplit, groupEntries, List.foldl_cons]
      show List.foldl _ (Delta.pushEntry done id.raw ⟨definition.id, first.fields⟩) _ = _
      rw [← hid, push_entry_other hother, List.foldl_append, ← groupEntries]
      rw [groupEntries] at hgroup
      rw [hgroup]
      exact ih

end Sdec
