import Sdec.Bitstream.Bounded
import Sdec.Codec.Session
import Sdec.Format.AcceptedUpdate
import Sdec.Format.Listed
import Sdec.Safety.Comparisons
import Sdec.Session.Compact

/-!
# Section bodies and panics

Every body of a section keeps its writer inside the buffer, whatever it is given, and every index it
uses is in bounds. What is left is the arithmetic on `i64`s: a body panics only where a fixed-point
range, or for the updates a compared difference, leaves the range in a build that checks for it.
-/

namespace Sdec

open Rust Bits Bitstream Codec Wire Sorted

variable {build : Build} {schema : Schema} {limits : CodecLimits} {risk : Prop} {size : Nat}

/-- A codec whose range of fixed-point numbers is in the range of an `i64`. -/
def FieldCodec.RangeFits : FieldCodec → Prop
  | .fixedPoint fp => SubFits fp.maxQ fp.minQ
  | .bool | .uint _ | .sint _ | .varUInt | .varSInt => True

/-- The schemas whose fixed-point ranges are in the range of an `i64`. -/
def Schema.RangesFit (schema : Schema) : Prop :=
  ∀ component ∈ schema.components, ∀ field ∈ component.fields, field.codec.RangeFits

/-- A body keeps its writer inside its buffer, and panics only where `risk` holds. -/
abbrev Bounded {α : Type} (size : Nat) (risk : Prop) (body : Call CodecError BitWriter α)
    (post : α → Prop) : Prop :=
  Keeps (Within size) body post (PanicsOnlyIf risk)

/-! ## Values -/

/-- The `?` on a method of the writer. -/
theorem bounded_stream {α : Type} {x : Call BitError BitWriter α} {post : α → Prop}
    (h : Keeps (Within size) x post (PanicsOnlyIf risk)) : Bounded size risk (stream x) post := by
  refine Keeps.map_err fun writer hwriter => ?_
  have := h writer hwriter
  cases hx : x writer with
  | ok a writer' =>
      rw [hx] at this
      exact this
  | error e writer' =>
      rw [hx] at this
      exact this.map _

theorem bounded_align : Bounded size risk (stream BitWriter.alignToByte) fun _ => True :=
  bounded_stream keeps_align_to_byte

theorem bounded_write_u32 (value : UInt32) :
    Bounded size risk (stream (BitWriter.writeU32Aligned value)) fun _ => True :=
  bounded_stream (keeps_write_bytes_aligned _)

theorem bounded_write_varu32 (value : UInt32) :
    Bounded size risk (stream (BitWriter.writeVaru32 value)) fun _ => True :=
  bounded_stream (keeps_write_varu32 value)

theorem bounded_write_bit (value : Bool) :
    Bounded size risk (stream (BitWriter.writeBit value)) fun _ => True :=
  bounded_stream (keeps_write_bit value)

theorem bounded_sub {a b : Int64} (hrisk : build.overflowChecks → ¬ SubFits a b → risk) :
    Bounded size risk (build.sub a b) fun _ => True := by
  rw [Build.sub, Build.i64]
  by_cases hpanic : build.overflowChecks ∧ (a - b).toInt ≠ a.toInt - b.toInt
  · rw [if_pos hpanic]
    exact fun _ _ _ => hrisk hpanic.1 fun hfits => hpanic.2 (sub_fits_iff.mp hfits)
  · rw [if_neg hpanic]
    exact Keeps.pure trivial

theorem bounded_write_field_value (componentId : ComponentId) {field : FieldDef}
    (hrisk : build.overflowChecks → ¬ field.codec.RangeFits → risk) (value : FieldValue) :
    Bounded size risk (writeFieldValue build componentId field value) fun _ => True := by
  unfold writeFieldValue
  split
  next v hcodec => exact bounded_write_bit v
  next bits v hcodec =>
    refine Keeps.bind (q := fun _ => True) (Keeps.lift ?_) fun _ _ =>
      bounded_stream (keeps_write_bits v bits)
    unfold validateUint
    refine Ensures.ite (fun _ => trivial) fun _ => ?_
    exact Ensures.ite (fun _ => panics_only_if_err _) fun _ => trivial
  next bits v hcodec =>
    refine Keeps.bind (q := fun _ => True) (Keeps.lift ?_) fun encoded _ =>
      bounded_stream (keeps_write_bits encoded bits)
    unfold encodeSint
    refine Ensures.ite (fun _ => trivial) fun _ => ?_
    exact Ensures.ite (fun _ => panics_only_if_err _) fun _ => trivial
  next v hcodec =>
    refine Keeps.check (fun _ => panics_only_if_err _) fun _ => ?_
    exact bounded_align.bind fun _ _ => bounded_write_varu32 _
  next v hcodec =>
    refine Keeps.check (fun _ => panics_only_if_err _) fun _ => ?_
    exact bounded_align.bind fun _ _ => bounded_write_varu32 _
  next fp v hcodec =>
    rw [hcodec] at hrisk
    refine Keeps.check (fun _ => panics_only_if_err _) fun hin => ?_
    have hlow := Int64.le_iff_toInt_le.mp (Int64.not_lt.mp fun h => hin (.inl h))
    have hhigh := Int64.le_iff_toInt_le.mp (Int64.not_lt.mp fun h => hin (.inr h))
    -- A value in the range is no further from its lower end than the upper end is.
    have hoffset (hfits : SubFits fp.maxQ fp.minQ) : SubFits v fp.minQ := by
      rw [SubFits] at hfits ⊢
      omega
    refine (bounded_sub fun hchecks hnot => hrisk hchecks fun hfits => hnot (hoffset hfits)).bind
      fun offset _ => ?_
    refine (bounded_sub hrisk).bind fun range _ => ?_
    dsimp only
    exact Keeps.ite (fun _ => bounded_stream (keeps_write_bits _ _)) fun _ => Keeps.pure trivial
  next => exact Keeps.fail (panics_only_if_err _)

/-! ## Components and entities -/

section Bodies

variable (hrisk : build.overflowChecks → ¬ schema.RangesFit → risk)

include hrisk

/-- The risk of a field is a risk of its schema. -/
theorem range_risk_of_field {component : ComponentDef} (hcomponent : component ∈ schema.components)
    {field : FieldDef} (hfield : field ∈ component.fields) (hchecks : build.overflowChecks)
    (hnot : ¬ field.codec.RangeFits) : risk :=
  hrisk hchecks fun hfits => hnot (hfits component hcomponent field hfield)

theorem bounded_write_all_fields {component : ComponentDef}
    (hcomponent : component ∈ schema.components) (snapshot : ComponentSnapshot) :
    Bounded size risk (writeAllFields build component snapshot) fun _ => True := by
  unfold writeAllFields
  refine (Keeps.forM fun field _ => bounded_write_bit true).bind fun _ _ =>
    Keeps.forM fun p hp => ?_
  exact bounded_write_field_value component.id
    (range_risk_of_field hrisk hcomponent (List.of_mem_zip hp).1) p.2

theorem bounded_write_component_fields {component : ComponentDef}
    (hcomponent : component ∈ schema.components) (snapshot : ComponentSnapshot) :
    Bounded size risk (Full.writeComponentFields build component snapshot limits)
      fun _ => True := by
  unfold Full.writeComponentFields
  refine Keeps.check (fun _ => panics_only_if_err _) fun _ => ?_
  refine Keeps.check (fun _ => panics_only_if_err _) fun _ => ?_
  refine Keeps.check (fun _ => panics_only_if_err _) fun _ => ?_
  exact bounded_write_all_fields hrisk hcomponent snapshot

theorem bounded_write_full_component {component : ComponentDef}
    (hcomponent : component ∈ schema.components) (snapshot : ComponentSnapshot) :
    Bounded size risk (Delta.writeFullComponent build component snapshot limits) fun _ => True := by
  unfold Delta.writeFullComponent
  refine Keeps.check (fun _ => panics_only_if_err _) fun _ => ?_
  refine Keeps.check (fun _ => panics_only_if_err _) fun _ => ?_
  exact bounded_write_all_fields hrisk hcomponent snapshot

omit hrisk in
theorem bounded_known_components (entity : EntitySnapshot) :
    Bounded size risk (liftM (ensureKnownComponents schema entity)) fun _ => True := by
  refine Keeps.lift ?_
  unfold ensureKnownComponents
  exact Ensures.forM fun component _ => Ensures.ite (fun _ => panics_only_if_err _) fun _ => trivial

omit hrisk in
theorem bounded_write_component_mask (entity : EntitySnapshot) :
    Bounded size risk (writeComponentMask schema entity) fun _ => True :=
  Keeps.forM fun _ _ => bounded_write_bit _

theorem bounded_write_entities (prev : Option UInt32) (entities : List EntitySnapshot) :
    Bounded size risk (Full.writeEntities build schema limits prev entities) fun _ => True := by
  induction entities generalizing prev with
  | nil => exact Keeps.pure trivial
  | cons entity rest ih =>
      unfold Full.writeEntities
      refine (Keeps.lift (ensure_after_ensures prev entity.id.raw)).bind fun _ _ => ?_
      refine bounded_align.bind fun _ _ => (bounded_write_u32 _).bind fun _ _ => ?_
      refine Keeps.check (fun _ => panics_only_if_err _) fun _ => ?_
      refine (bounded_known_components entity).bind fun _ _ => ?_
      refine (bounded_write_component_mask entity).bind fun _ _ => ?_
      refine Keeps.bind (q := fun _ => True) (Keeps.forM fun component hcomponent => ?_) fun _ _ =>
        ih _
      cases findComponent entity component.id with
      | none => exact Keeps.pure trivial
      | some snapshot => exact bounded_write_component_fields hrisk hcomponent snapshot

theorem bounded_full_create_body (entities : List EntitySnapshot) :
    Bounded size risk (Full.encodeCreateBody build schema entities limits) fun _ => True := by
  unfold Full.encodeCreateBody
  refine Keeps.check (fun _ => panics_only_if_err _) fun _ => ?_
  refine bounded_align.bind fun _ _ => (bounded_write_varu32 _).bind fun _ _ => ?_
  exact (bounded_write_entities hrisk none entities).bind fun _ _ => bounded_align

omit hrisk in
theorem bounded_write_destroy (id : UInt32) :
    Bounded size risk (Delta.writeDestroy id) fun _ => True :=
  bounded_align.bind fun _ _ => bounded_write_u32 id

omit hrisk in
theorem bounded_destroy_body (baseline current : Snapshot) (destroyCount : Nat) :
    Bounded size risk (Delta.encodeDestroyBody baseline current destroyCount limits)
      fun _ => True := by
  unfold Delta.encodeDestroyBody
  refine Keeps.check (fun _ => panics_only_if_err _) fun _ => ?_
  refine bounded_align.bind fun _ _ => (bounded_write_varu32 _).bind fun _ _ => ?_
  refine Keeps.bind (q := fun _ => True) (Keeps.forM fun step _ => ?_) fun _ _ => bounded_align
  cases step with
  | left b => exact bounded_write_destroy _
  | right c => exact Keeps.pure trivial
  | both b c => exact Keeps.pure trivial

omit hrisk in
theorem bounded_listed_destroy_body (destroys : List EntityId) :
    Bounded size risk (Delta.encodeDestroyBodyFromList destroys limits) fun _ => True := by
  unfold Delta.encodeDestroyBodyFromList
  refine Keeps.check (fun _ => panics_only_if_err _) fun _ => ?_
  refine bounded_align.bind fun _ _ => (bounded_write_varu32 _).bind fun _ _ => ?_
  exact (Keeps.forM fun id _ => bounded_write_destroy _).bind fun _ _ => bounded_align

theorem bounded_write_create_entity (entity : EntitySnapshot) :
    Bounded size risk (Delta.writeCreateEntity build schema entity limits) fun _ => True := by
  unfold Delta.writeCreateEntity
  refine bounded_align.bind fun _ _ => (bounded_write_u32 _).bind fun _ _ => ?_
  refine (bounded_known_components entity).bind fun _ _ => ?_
  refine (bounded_write_component_mask entity).bind fun _ _ =>
    Keeps.forM fun component hcomponent => ?_
  cases findComponent entity component.id with
  | none => exact Keeps.pure trivial
  | some snapshot => exact bounded_write_full_component hrisk hcomponent snapshot

theorem bounded_create_body (baseline current : Snapshot) (createCount : Nat) :
    Bounded size risk (Delta.encodeCreateBody build schema baseline current createCount limits)
      fun _ => True := by
  unfold Delta.encodeCreateBody
  refine Keeps.check (fun _ => panics_only_if_err _) fun _ => ?_
  refine bounded_align.bind fun _ _ => (bounded_write_varu32 _).bind fun _ _ => ?_
  refine Keeps.bind (q := fun _ => True) (Keeps.forM fun step _ => ?_) fun _ _ => bounded_align
  cases step with
  | left b => exact Keeps.pure trivial
  | right c => exact bounded_write_create_entity hrisk c
  | both b c => exact Keeps.pure trivial

theorem bounded_listed_create_body (creates : List EntitySnapshot) :
    Bounded size risk (Delta.encodeCreateBodyFromList build schema creates limits)
      fun _ => True := by
  unfold Delta.encodeCreateBodyFromList
  refine Keeps.check (fun _ => panics_only_if_err _) fun _ => ?_
  refine bounded_align.bind fun _ _ => (bounded_write_varu32 _).bind fun _ _ => ?_
  exact (Keeps.forM fun entity _ => bounded_write_create_entity hrisk entity).bind fun _ _ =>
    bounded_align

end Bodies

/-! ## Updates -/

/-- The key and the index of a sparse encoding stay inside the buffer. -/
structure SparseBounded (format : Delta.SparseWriter) : Prop where
  key : ∀ {size : Nat} {risk : Prop} entityId componentId,
    Bounded size risk (format.writeKey entityId componentId) fun _ => True
  index : ∀ {size : Nat} {risk : Prop} component idx,
    Bounded size risk (format.writeIndex component idx) fun _ => True

theorem sparse_packed_bounded : SparseBounded Delta.sparsePacked where
  key _ _ := (bounded_write_varu32 _).bind fun _ _ => bounded_write_varu32 _
  index _ _ := Keeps.ite (fun _ => bounded_stream (keeps_write_bits _ _)) fun _ =>
    Keeps.pure trivial

section Updates

variable (hrisk : build.overflowChecks → ¬ schema.RangesFit → risk)

include hrisk

theorem bounded_write_sparse_fields {format : Delta.SparseWriter} (hformat : SparseBounded format)
    {component : ComponentDef} (hcomponent : component ∈ schema.components)
    {curr : ComponentSnapshot} {mask : List Bool} (hmask : mask.length = component.fields.length)
    (hcurr : curr.fields.length = component.fields.length) :
    Bounded size risk (Delta.writeSparseFields build format component curr mask) fun _ => True := by
  unfold Delta.writeSparseFields
  refine Keeps.forM fun p hp => ?_
  obtain ⟨field, idx⟩ := p
  have hfield := List.mk_mem_zipIdx_iff_getElem?.mp hp
  have hlt := (List.getElem?_eq_some_iff.mp hfield).1
  dsimp only
  refine (Keeps.index (by omega)).bind fun bit _ => Keeps.ite (fun _ => ?_) fun _ =>
    Keeps.pure trivial
  refine (hformat.index component idx).bind fun _ _ => ?_
  refine (Keeps.index (by omega)).bind fun value _ => ?_
  exact bounded_write_field_value component.id
    (range_risk_of_field hrisk hcomponent (List.mem_of_getElem? hfield)) value

theorem bounded_write_sparse_entry {format : Delta.SparseWriter} (hformat : SparseBounded format)
    (entityId : UInt32) {component : ComponentDef} (hcomponent : component ∈ schema.components)
    {curr : ComponentSnapshot} {mask : List Bool} (hmask : mask.length = component.fields.length)
    (hcurr : curr.fields.length = component.fields.length) :
    Bounded size risk (Delta.writeSparseEntry build format entityId component curr mask)
      fun _ => True := by
  unfold Delta.writeSparseEntry
  refine Keeps.ite (fun _ => ?_) fun _ => Keeps.pure trivial
  refine bounded_align.bind fun _ _ => (hformat.key entityId component.id).bind fun _ _ => ?_
  refine (bounded_write_varu32 _).bind fun _ _ => ?_
  exact bounded_write_sparse_fields hrisk hformat hcomponent hmask hcurr

variable {baseline current : Snapshot}
  (hcompare : build.overflowChecks → ¬ schema.SnapshotsFit baseline current → risk)

include hcompare

theorem bounded_sparse_body {format : Delta.SparseWriter} (hformat : SparseBounded format)
    (updateCount : Nat) (scratch : CodecScratch) :
    Bounded size risk (Delta.encodeUpdateBodySparse format build schema baseline current updateCount
      limits scratch) fun _ => True := by
  unfold Delta.encodeUpdateBodySparse
  refine Keeps.check (fun _ => panics_only_if_err _) fun _ => ?_
  refine (Keeps.lift (count_sparse_entries_ensures hcompare scratch)).bind fun counted _ => ?_
  obtain ⟨entryCount, scratch⟩ := counted
  refine Keeps.check (fun _ => panics_only_if_err _) fun _ => ?_
  refine bounded_align.bind fun _ _ => (bounded_write_varu32 _).bind fun _ _ => ?_
  refine Keeps.bind (q := fun _ => True) ?_ fun _ _ => bounded_align.bind fun _ _ =>
    Keeps.pure trivial
  refine Keeps.foldlM trivial fun step hstep scratch _ => ?_
  cases step with
  | left b => exact Keeps.pure trivial
  | right c => exact Keeps.pure trivial
  | both b c =>
      have hpair := comparisons_risk_of_step hcompare hstep
      refine (Keeps.lift (entity_has_updates_ensures hpair)).bind fun _ _ => ?_
      refine Keeps.ite (fun _ => ?_) fun _ => Keeps.pure trivial
      refine Keeps.foldlM trivial fun component hcomponent scratch _ => ?_
      refine (Keeps.lift (scan_component_ensures hpair hcomponent scratch)).bind fun scanned h => ?_
      obtain ⟨result, scratch⟩ := scanned
      cases result with
      | none => exact Keeps.pure trivial
      | some found =>
          obtain ⟨snapshot, mask⟩ := found
          obtain ⟨hmask, hcurr⟩ := h.1 snapshot mask rfl
          exact (bounded_write_sparse_entry hrisk hformat _ hcomponent hmask hcurr).bind fun _ _ =>
            Keeps.pure trivial

end Updates

/-- The buffers have a slot for each component of the schema. -/
def CodecScratch.Covers (scratch : CodecScratch) (schema : Schema) : Prop :=
  schema.components.length ≤ scratch.componentChanged.length

section Masked

variable {base curr : EntitySnapshot} {scratch : CodecScratch}
  (hcompare : build.overflowChecks → ¬ schema.ComparisonsFit base curr → risk)

include hcompare

theorem bounded_write_changed_mask (hscratch : scratch.Covers schema) :
    Bounded size risk (Delta.writeChangedMask build schema limits base curr scratch)
      fun scratch => scratch.Covers schema := by
  unfold Delta.writeChangedMask
  refine Keeps.foldlM hscratch fun p hp scratch hscratch => ?_
  obtain ⟨component, idx⟩ := p
  have hcomponent := List.mk_mem_zipIdx_iff_getElem?.mp hp
  have hlt := (List.getElem?_eq_some_iff.mp hcomponent).1
  dsimp only
  refine (Keeps.lift (scan_component_ensures hcompare (List.mem_of_getElem? hcomponent)
    scratch)).bind fun scanned h => ?_
  obtain ⟨result, next⟩ := scanned
  have hnext : next.Covers schema := Nat.le_trans hscratch h.2
  cases result with
  | none => exact (bounded_write_bit false).bind fun _ _ => Keeps.pure hnext
  | some found =>
      refine (bounded_write_bit _).bind fun _ _ => Keeps.ite (fun _ => ?_) fun _ => Keeps.pure hnext
      refine (Keeps.store (Nat.lt_of_lt_of_le hlt hnext)).bind fun changed hchanged => Keeps.pure ?_
      show schema.components.length ≤ changed.length
      rw [hchanged]
      exact hnext

theorem bounded_write_changed_fields (hrisk : build.overflowChecks → ¬ schema.RangesFit → risk)
    (hscratch : scratch.Covers schema) :
    Bounded size risk (Delta.writeChangedFields build schema limits base curr scratch)
      fun _ => True := by
  unfold Delta.writeChangedFields
  refine Keeps.imp (q := fun scratch => scratch.Covers schema) ?_ fun _ _ => trivial
  refine Keeps.foldlM hscratch fun p hp scratch hscratch => ?_
  obtain ⟨component, idx⟩ := p
  have hget := List.mk_mem_zipIdx_iff_getElem?.mp hp
  have hcomponent := List.mem_of_getElem? hget
  have hlt := (List.getElem?_eq_some_iff.mp hget).1
  dsimp only
  cases hb : findComponent base component.id with
  | none => exact Keeps.pure hscratch
  | some b =>
      cases hc : findComponent curr component.id with
      | none => exact Keeps.pure hscratch
      | some c =>
          refine Keeps.check (fun _ => panics_only_if_err _) fun _ => ?_
          have hensure :
              (scratch.ensure schema.components.length component.fields.length).Covers schema :=
            length_ensure_capacity _ _
          refine (Keeps.index (Nat.lt_of_lt_of_le hlt hensure)).bind fun changed _ => ?_
          refine Keeps.ite (fun _ => ?_) fun _ => Keeps.pure hensure
          refine (Keeps.lift (compute_field_mask_loop_ensures component.id _
            (field_risk_of_comparisons hcompare hcomponent hb hc))).bind fun mask _ => ?_
          refine (Keeps.forM fun bit _ => bounded_write_bit bit).bind fun _ _ => ?_
          refine Keeps.bind (q := fun _ => True) (Keeps.forM fun t ht => ?_) fun _ _ =>
            Keeps.pure hensure
          obtain ⟨⟨⟨field, baseVal⟩, currVal⟩, changed⟩ := t
          have hfield := (List.of_mem_zip (List.of_mem_zip (List.of_mem_zip ht).1).1).1
          refine Keeps.ite (fun _ => ?_) fun _ => Keeps.pure trivial
          exact bounded_write_field_value component.id
            (range_risk_of_field hrisk hcomponent hfield) currVal

theorem bounded_write_update_components (hrisk : build.overflowChecks → ¬ schema.RangesFit → risk) :
    Bounded size risk (Delta.writeUpdateComponents build schema limits base curr scratch)
      fun _ => True := by
  unfold Delta.writeUpdateComponents
  have hclear : ((scratch.ensure schema.components.length 0).clearComponents
      schema.components.length).Covers schema := by
    show schema.components.length ≤ (List.replicate schema.components.length false ++ _).length
    rw [List.length_append, List.length_replicate]
    exact Nat.le_add_right _ _
  exact (bounded_write_changed_mask hcompare hclear).bind fun next hnext =>
    bounded_write_changed_fields hcompare hrisk hnext

end Masked

theorem bounded_masked_body (hrisk : build.overflowChecks → ¬ schema.RangesFit → risk)
    {baseline current : Snapshot}
    (hcompare : build.overflowChecks → ¬ schema.SnapshotsFit baseline current → risk)
    (updateCount : Nat) (scratch : CodecScratch) :
    Bounded size risk (Delta.encodeUpdateBodyMasked build schema baseline current updateCount limits
      scratch) fun _ => True := by
  unfold Delta.encodeUpdateBodyMasked
  refine Keeps.check (fun _ => panics_only_if_err _) fun _ => ?_
  refine bounded_align.bind fun _ _ => (bounded_write_varu32 _).bind fun _ _ => ?_
  refine Keeps.bind (q := fun _ => True) ?_ fun _ _ => bounded_align.bind fun _ _ =>
    Keeps.pure trivial
  refine Keeps.foldlM trivial fun step hstep scratch _ => ?_
  cases step with
  | left b => exact Keeps.pure trivial
  | right c => exact Keeps.pure trivial
  | both b c =>
      have hpair := comparisons_risk_of_step hcompare hstep
      refine (Keeps.lift (entity_has_updates_ensures hpair)).bind fun _ _ => ?_
      refine Keeps.ite (fun _ => ?_) fun _ => Keeps.pure trivial
      refine bounded_align.bind fun _ _ => (bounded_write_u32 _).bind fun _ _ => ?_
      refine (Keeps.lift (ensure_component_presence_ensures b c)).bind fun _ _ => ?_
      exact bounded_write_update_components hpair hrisk

/-! ## Change lists -/

section Listed

variable (hschema : schema.Valid)

include hschema

theorem validate_updates_ensures (updates : List DeltaUpdateEntity) :
    Ensures (Delta.validateUpdatesForEncoding schema updates limits
      (Delta.buildComponentLookup schema))
      (fun _ => ∀ update ∈ updates, ∀ component ∈ update.components,
        ListedValid schema limits component) (PanicsOnlyIf risk) := by
  have hcomponent (update : DeltaUpdateComponent) :
      Ensures (Delta.validateUpdateComponent schema limits
        (Delta.buildComponentLookup schema) update) (fun _ => True) (PanicsOnlyIf risk) := by
    unfold Delta.validateUpdateComponent
    rw [lookup_component_eq hschema]
    refine (find_definition_ensures update.id).bind fun component _ => ?_
    refine Ensures.check (fun _ => panics_only_if_err _) fun _ => ?_
    refine Ensures.check (fun _ => panics_only_if_err _) fun _ => ?_
    exact Ensures.forM fun p _ => Ensures.ite (fun _ => panics_only_if_err _) fun _ => trivial
  have hloop (prev : Option UInt32) (updates : List DeltaUpdateEntity) :
      Ensures (Delta.validateUpdatesLoop schema limits
        (Delta.buildComponentLookup schema) prev updates) (fun _ => True) (PanicsOnlyIf risk) := by
    induction updates generalizing prev with
    | nil => exact trivial
    | cons update rest ih =>
        unfold Delta.validateUpdatesLoop
        refine (ensure_after_ensures prev update.id.raw).bind fun _ _ => ?_
        refine Ensures.check (fun _ => panics_only_if_err _) fun _ => ?_
        exact (Ensures.forM fun component _ => hcomponent component).bind fun _ _ => ih _
  refine (hloop none updates).and_of_ok fun u hok update hupdate component hmem => ?_
  exact (((validate_updates_eq_ok hschema).mp hok).2 update hupdate).2 component hmem

theorem bounded_write_listed_entry (hrisk : build.overflowChecks → ¬ schema.RangesFit → risk)
    (entityId : UInt32) {update : DeltaUpdateComponent}
    (hupdate : ListedValid schema limits update) :
    Bounded size risk
      (Delta.writeListedEntry build schema (Delta.buildComponentLookup schema) entityId
      update) fun _ => True := by
  unfold Delta.writeListedEntry
  rw [lookup_component_eq hschema]
  obtain ⟨definition, hdefinition, hid, _, _, hindices⟩ := hupdate
  have hfind : Delta.findDefinition schema update.id = .ok definition := by
    rw [Delta.findDefinition, hid, find_definition_of_mem hschema hdefinition]
    rfl
  refine Keeps.bind (q := fun component => component = definition) (Keeps.lift ?_)
    fun component h => ?_
  · rw [hfind]
    exact rfl
  subst h
  refine bounded_align.bind fun _ _ => (bounded_write_varu32 _).bind fun _ _ => ?_
  refine (bounded_write_varu32 _).bind fun _ _ => (bounded_write_varu32 _).bind fun _ _ => ?_
  refine Keeps.forM fun p hp => ?_
  obtain ⟨fieldIdx, value⟩ := p
  have hrest : Bounded size risk (do
      let field ← index component.fields fieldIdx
      writeFieldValueSparse build component.id field value) fun _ => True := by
    refine (Keeps.index (hindices _ hp)).bind fun field hfield => ?_
    exact bounded_write_field_value component.id
      (range_risk_of_field hrisk hdefinition (List.mem_of_getElem? hfield)) value
  exact Keeps.ite (fun _ => (bounded_stream (keeps_write_bits _ _)).bind fun _ _ => hrest)
    fun _ => hrest

theorem bounded_listed_update_body (hrisk : build.overflowChecks → ¬ schema.RangesFit → risk)
    {updates : List DeltaUpdateEntity} (hupdates : ∀ update ∈ updates,
      ∀ component ∈ update.components, ListedValid schema limits component) :
    Bounded size risk (Delta.encodeUpdateBodySparsePackedFromUpdates build schema updates limits
      (Delta.buildComponentLookup schema)) fun _ => True := by
  unfold Delta.encodeUpdateBodySparsePackedFromUpdates
  refine Keeps.check (fun _ => panics_only_if_err _) fun _ => ?_
  refine Keeps.check (fun _ => panics_only_if_err _) fun _ => ?_
  refine bounded_align.bind fun _ _ => (bounded_write_varu32 _).bind fun _ _ => ?_
  refine Keeps.bind (q := fun _ => True) (Keeps.forM fun update hupdate => ?_)
    fun _ _ => bounded_align
  exact Keeps.forM fun component hcomponent =>
    bounded_write_listed_entry hschema hrisk _ (hupdates update hupdate component hcomponent)

end Listed

end Sdec
