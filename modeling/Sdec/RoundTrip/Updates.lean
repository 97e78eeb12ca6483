import Sdec.Diff.Reconstruct
import Sdec.Format.Delta
import Sdec.Format.SparseReads

/-!
# Updates round trip

What the decoders make of the update sections that the encoders write for two snapshots. The masked
decoder accepts every section. A sparse decoder accepts a section exactly if in each update the
component ids ascend, and then all decoders return the updates of the delta.
-/

namespace Sdec

open Rust Bits Bitstream Codec Wire Sorted

variable {build : Build} {schema : Schema} {limits : CodecLimits}

/-! ## Keys -/

/-- The components of each update ascend by id. -/
def ComponentsAscend (updates : List DeltaUpdateEntity) : Prop :=
  ∀ update ∈ updates, update.components.Pairwise fun a b => a.id.get < b.id.get

theorem update_entries_keys (hschema : schema.Valid) {updates : List DeltaUpdateEntity}
    (hknown : KnownComponents schema updates) :
    (updateEntries schema updates).map SparseEntry.key
      = updates.flatMap fun update =>
        update.components.map fun component => (update.id.raw, component.id.get) := by
  rw [updateEntries, List.map_flatMap]
  refine List.flatMap_congr fun update hupdate => ?_
  rw [List.map_filterMap, ← List.filterMap_eq_map]
  refine List.filterMap_congr fun component hcomponent => ?_
  obtain ⟨definition, hmem, hid⟩ := hknown update hupdate component hcomponent
  rw [hid, find_definition_of_mem hschema hmem]
  show some (update.id.raw, definition.id.get) = some (update.id.raw, component.id.get)
  rw [hid]

/-- The keys of the entries of ascending updates ascend if the components of each update do. -/
theorem update_entries_keys_ascend (hschema : schema.Valid) {updates : List DeltaUpdateEntity}
    (hknown : KnownComponents schema updates)
    (hids : updates.Pairwise fun a b => a.id.raw < b.id.raw) :
    ((updateEntries schema updates).map SparseEntry.key).Pairwise KeyLt
      ↔ ComponentsAscend updates := by
  have hcomponents (update : DeltaUpdateEntity) :
      (update.components.map fun component => (update.id.raw, component.id.get)).Pairwise KeyLt
        ↔ update.components.Pairwise fun a b => a.id.get < b.id.get := by
    rw [List.pairwise_map]
    refine List.Pairwise.iff fun a b => ?_
    simp [KeyLt]
  rw [update_entries_keys hschema hknown, List.pairwise_flatMap]
  constructor
  · exact fun h update hupdate => (hcomponents update).mp (h.1 update hupdate)
  · intro h
    refine ⟨fun update hupdate => (hcomponents update).mpr (h update hupdate), ?_⟩
    refine hids.imp fun hlt p hp q hq => ?_
    obtain ⟨_, -, rfl⟩ := List.mem_map.mp hp
    obtain ⟨_, -, rfl⟩ := List.mem_map.mp hq
    exact .inl hlt

/-! ## Sparse sections -/

/-- The values of the updates on which the arithmetic of the readers does not panic. -/
def UpdatesReadable (build : Build) (schema : Schema) (updates : List DeltaUpdateEntity) : Prop :=
  ∀ entry ∈ updateEntries schema updates, FieldsReadable build entry.component entry.fields

theorem updates_readable_of_wrapping (h : build.overflowChecks = false)
    (updates : List DeltaUpdateEntity) : UpdatesReadable build schema updates :=
  fun _ _ _ _ _ _ => FieldCodec.readable_of_wrapping h

theorem mem_update_entries {updates : List DeltaUpdateEntity} {entry : SparseEntry} :
    entry ∈ updateEntries schema updates ↔ ∃ update ∈ updates, ∃ component ∈ update.components,
      schema.components.find? (fun d => d.id = component.id) = some entry.component
        ∧ entry.entityId = update.id.raw ∧ entry.fields = component.fields := by
  rw [updateEntries, List.mem_flatMap]
  refine exists_congr fun update => and_congr_right fun _ => ?_
  rw [List.mem_filterMap]
  refine exists_congr fun component => and_congr_right fun _ => ?_
  rw [Option.map_eq_some_iff]
  constructor
  · rintro ⟨definition, hfind, rfl⟩
    exact ⟨hfind, rfl, rfl⟩
  · rintro ⟨hfind, hid, hfields⟩
    refine ⟨entry.component, hfind, ?_⟩
    cases entry
    cases hid
    cases hfields
    rfl

/-- The fields of an entry of the delta between two snapshots are some of its component, in
ascending order. -/
theorem diff_entry_fields {baseline current : Snapshot} {entry : SparseEntry}
    (h : entry ∈ updateEntries schema (diff build schema baseline current).updates) :
    entry.fields ≠ [] ∧ (entry.fields.map Prod.fst).Pairwise (· < ·) := by
  obtain ⟨update, hupdate, component, hcomponent, -, -, hfields⟩ := mem_update_entries.mp h
  obtain ⟨step, -, hstep⟩ := List.mem_filterMap.mp hupdate
  cases step with
  | left b => cases hstep
  | right c => cases hstep
  | both b c =>
      obtain ⟨-, rfl⟩ := entity_update_eq_some.mp hstep
      obtain ⟨definition, -, hsome⟩ := List.mem_filterMap.mp hcomponent
      obtain ⟨b', c', -, -, hany, rfl⟩ := component_update_eq_some.mp hsome
      rw [hfields]
      exact ⟨changed_fields_ne_nil 0 (by simp [changedMask]) hany,
        (changed_fields_ascend 0 _ _).1⟩

/-- The entries of the delta, as an encoder can have written them. -/
theorem diff_entries_encode (hschema : schema.Valid) {baseline current : Snapshot}
    (hfits : ∀ entry ∈ updateEntries schema (diff build schema baseline current).updates,
      entry.Fits build limits) :
    EntriesEncode build schema
      (updateEntries schema (diff build schema baseline current).updates) where
  known := fun entry hentry => by
    obtain ⟨_, -, _, -, hfind, -⟩ := mem_update_entries.mp hentry
    exact List.mem_of_find?_eq_some hfind
  values := fun entry hentry => (hfits entry hentry).1
  counts := fun entry hentry => by
    obtain ⟨_, -, _, -, hfind, -⟩ := mem_update_entries.mp hentry
    have hvalid := hschema.components _ (List.mem_of_find?_eq_some hfind)
    have hfields := (hfits entry hentry).1.length_le (diff_entry_fields hentry).2
    have hmax := hvalid.length_fields_le
    omega

section Sparse

variable {writer : Delta.SparseWriter} {reader : Delta.SparseReader}
  (format : SparseFormat writer reader) {baseline current : Snapshot} {body : List UInt8}

theorem SparseFormat.length_entries_le {entries : List SparseEntry}
    (hbody : ofBytes body
      = render 0 (countedLayout entries.length (format.entriesLayout entries))) :
    entries.length ≤ body.length := by
  refine Sdec.length_entries_le (fun entry _ pos => ?_) hbody
  have halign := le_stop pos [.align]
  have hvarint := length_varu32_pos (UInt32.ofNat entry.fields.length)
  rw [SparseFormat.entryLayout, stop_cons, stop_append, stop_append, stop_bytes, stop_bytes]
  refine Nat.le_trans ?_ (le_stop _ _)
  omega

/-- What a sparse decoder makes of the section that the encoder writes for two snapshots. -/
theorem SparseFormat.decode_diff_section_eq_ok (hschema : schema.Valid)
    (hbaseline : Ascending baseline.entities) (hcurrent : Ascending current.entities)
    (hcount : (diff build schema baseline current).updates.length ≤ limits.maxEntitiesUpdate)
    (hlimit : (updateEntries schema (diff build schema baseline current).updates).length
      ≤ saturatingMul limits.maxEntitiesUpdate limits.maxComponentsPerEntity)
    (hfits : ∀ entry ∈ updateEntries schema (diff build schema baseline current).updates,
      entry.Fits build limits)
    (hbody : ofBytes body = render 0
      (countedLayout (updateEntries schema (diff build schema baseline current).updates).length
        (format.entriesLayout (updateEntries schema (diff build schema baseline current).updates))))
    (hmax : body.length ≤ limits.maxSectionBytes) (hlong : body.length < 2 ^ 32)
    {result : List DeltaUpdateEntity} :
    Delta.decodeUpdateSectionSparse reader build schema body limits = .ok result ↔
      (ComponentsAscend (diff build schema baseline current).updates
        ∧ UpdatesReadable build schema (diff build schema baseline current).updates)
      ∧ (diff build schema baseline current).updates = result := by
  have hknown := @updates_known build schema baseline current
  have hascend := @diff_updates_ascend build schema baseline current hbaseline hcurrent
  have hgroup := @group_update_entries schema hschema []
    (diff build schema baseline current).updates
    (hascend.imp fun {a b} hlt heq => absurd (heq ▸ hlt) (UInt32.lt_irrefl b.id.raw)) hknown
    fun _ => diff_updates_nonempty
  rw [List.nil_append] at hgroup
  rw [format.decode_section_eq_ok hschema (diff_entries_encode hschema hfits) hbody hlong
    (Nat.lt_of_le_of_lt (format.length_entries_le hbody) hlong), hgroup,
    update_entries_keys_ascend hschema hknown hascend]
  refine and_congr_left fun _ =>
    ⟨fun h => ⟨h.2.2.1, fun entry hentry => (h.2.2.2.1 entry hentry).readable⟩,
    fun h => ⟨hmax, hlimit, h.1, fun entry hentry => ?_, hcount⟩⟩
  obtain ⟨hne, hindices⟩ := diff_entry_fields hentry
  obtain ⟨hencodes, hfields⟩ := hfits entry hentry
  exact ⟨hne, Nat.le_trans (hencodes.length_le hindices) hfields, hindices, h.2 entry hentry⟩

end Sparse

/-! ## The updates -/

/-- The updates that every encoding stands for: those of the entities of both snapshots with a
changed field, in the order of the current snapshot. -/
def expectedUpdates (build : Build) (schema : Schema) (baseline current : List EntitySnapshot) :
    List DeltaUpdateEntity :=
  current.filterMap fun curr =>
    (baseline.find? fun base => base.id = curr.id).bind fun base =>
      entityUpdate build schema base curr

theorem diff_updates_eq {baseline current : Snapshot} (hbaseline : Ascending baseline.entities)
    (hcurrent : Ascending current.entities) :
    (diff build schema baseline current).updates
      = expectedUpdates build schema baseline.entities current.entities := by
  refine eq_of_mem_iff (diff_updates_ascend hbaseline hcurrent) ?_ fun update => ?_
  · refine List.pairwise_filterMap.mpr (hcurrent.imp fun {c c'} hlt u hu v hv => ?_)
    obtain ⟨b, -, hu⟩ := Option.bind_eq_some_iff.mp hu
    obtain ⟨b', -, hv⟩ := Option.bind_eq_some_iff.mp hv
    obtain ⟨-, rfl⟩ := entity_update_eq_some.mp hu
    obtain ⟨-, rfl⟩ := entity_update_eq_some.mp hv
    exact hlt
  · rw [mem_diff_updates hbaseline hcurrent, expectedUpdates, List.mem_filterMap]
    constructor
    · rintro ⟨b, hb, c, hc, hid, hupdate⟩
      exact ⟨c, hc, Option.bind_eq_some_iff.mpr ⟨b, find_entity_eq hbaseline hb hid, hupdate⟩⟩
    · rintro ⟨c, hc, hsome⟩
      obtain ⟨b, hfind, hupdate⟩ := Option.bind_eq_some_iff.mp hsome
      exact ⟨b, List.mem_of_find?_eq_some hfind, c, hc, find_entity_id hfind, hupdate⟩

/-- In a schema whose components ascend by id, the components of an update do. -/
theorem components_ascend_of_sorted
    (hsorted : schema.components.Pairwise fun a b => a.id.get < b.id.get)
    (baseline current : Snapshot) :
      ComponentsAscend (diff build schema baseline current).updates := by
  intro update hupdate
  obtain ⟨step, -, hstep⟩ := List.mem_filterMap.mp hupdate
  cases step with
  | left b => cases hstep
  | right c => cases hstep
  | both b c =>
      obtain ⟨-, rfl⟩ := entity_update_eq_some.mp hstep
      refine List.pairwise_filterMap.mpr (hsorted.imp fun {d d'} hlt u hu v hv => ?_)
      rw [component_update_id hu, component_update_id hv]
      exact hlt

/-! ## Three encodings -/

section Encodings

variable {baseline current : Snapshot} {components : List ComponentDef} {counts : DiffCounts}
  (hwrapping : build.overflowChecks = false) (hschema : Schema.new components = .ok schema)
  (hsorted : schema.components.Pairwise fun a b => a.id.get < b.id.get)
  (hbaseline : Snapshot.WellFormed schema baseline.entities)
  (hcurrent : Snapshot.WellFormed schema current.entities)
  (hcounts : diffCounts build schema limits baseline current = .ok counts)

include hwrapping hschema hsorted hbaseline hcurrent hcounts

/-- The sparse encodings: the section that is written is decoded to the updates. -/
theorem SparseFormat.decode_encode_updates {writer : Delta.SparseWriter}
    {reader : Delta.SparseReader} (format : SparseFormat writer reader) {out : List UInt8}
    {scratch scratch' : CodecScratch} {result : BitWriter}
    (hencode : (Delta.encodeUpdateBodySparse writer build schema baseline current counts.updates
      limits scratch).runOn (BitWriter.new out) = .ok (scratch', result))
    (hmax : result.finish ≤ limits.maxSectionBytes) (hlong : result.finish < 2 ^ 32) :
    Delta.decodeUpdateSectionSparse reader build schema (result.buf.take result.finish) limits
      = .ok (expectedUpdates build schema baseline.entities current.entities) := by
  have hvalid := (schema_new_eq_ok.mp hschema).2
  obtain ⟨body, hbody⟩ := exists_body
    (updateEntries schema (diff build schema baseline current).updates).length
    (format.entriesLayout (updateEntries schema (diff build schema baseline current).updates))
  obtain rfl := diff_counts_eq hcounts
  obtain ⟨⟨hcount, hlimit, hfits⟩, htake⟩ :=
    run_on_of_writes (format.writes_encode_update_body hvalid) hbody hencode
  have hlength : body.length ≤ result.finish := by
    rw [← htake, List.length_take]
    exact Nat.min_le_left _ _
  rw [htake, ← diff_updates_eq hbaseline.ascending hcurrent.ascending]
  exact (format.decode_diff_section_eq_ok hvalid hbaseline.ascending
    hcurrent.ascending hcount hlimit
    hfits hbody (by omega) (by omega)).mpr ⟨⟨components_ascend_of_sorted hsorted _ _,
      updates_readable_of_wrapping hwrapping _⟩, rfl⟩

/-- The bodies that the three encoders of updates write are decoded to the same list: the changes of
the entities of both snapshots. `write_section` rejects bodies of `2 ^ 32` bytes and more. -/
theorem update_encodings_agree {out₁ out₂ out₃ : List UInt8}
    {scratch₁ scratch₂ scratch₃ scratch₁' scratch₂' scratch₃' : CodecScratch}
    {masked packed varint : BitWriter}
    (hmasked : (Delta.encodeUpdateBodyMasked build schema baseline current counts.updates limits
      scratch₁).runOn (BitWriter.new out₁) = .ok (scratch₁', masked))
    (hpacked :
      (Delta.encodeUpdateBodySparsePacked build schema baseline current counts.updates limits
      scratch₂).runOn (BitWriter.new out₂) = .ok (scratch₂', packed))
    (hvarint :
      (Delta.encodeUpdateBodySparseVarint build schema baseline current counts.updates limits
      scratch₃).runOn (BitWriter.new out₃) = .ok (scratch₃', varint))
    (hmax : ∀ result ∈ [masked, packed, varint], result.finish ≤ limits.maxSectionBytes)
    (hlong : ∀ result ∈ [masked, packed, varint], result.finish < 2 ^ 32) :
    Delta.decodeUpdateSectionMasked build schema (masked.buf.take masked.finish) limits
        = .ok (expectedUpdates build schema baseline.entities current.entities)
      ∧ Delta.decodeUpdateSectionSparsePacked build schema (packed.buf.take packed.finish) limits
        = .ok (expectedUpdates build schema baseline.entities current.entities)
      ∧ Delta.decodeUpdateSectionSparseVarint build schema (varint.buf.take varint.finish) limits
        = .ok (expectedUpdates build schema baseline.entities current.entities) := by
  simp only [List.forall_mem_cons, List.not_mem_nil, false_imp_iff, implies_true, and_true]
    at hmax hlong
  refine ⟨?_, sparsePackedFormat.decode_encode_updates hwrapping hschema hsorted hbaseline hcurrent
    hcounts hpacked hmax.2.1 hlong.2.1, sparseVarintFormat.decode_encode_updates hwrapping hschema
    hsorted hbaseline hcurrent hcounts hvarint hmax.2.2 hlong.2.2⟩
  have hvalid := (schema_new_eq_ok.mp hschema).2
  obtain rfl := diff_counts_eq hcounts
  obtain ⟨body, hbody⟩ := exists_body (diff build schema baseline current).updates.length
    (maskedSectionLayout build schema baseline current)
  obtain ⟨⟨hcount, hfits⟩, htake⟩ := run_on_of_writes writes_encode_masked_body hbody hmasked
  have hlength : body.length ≤ masked.finish := by
    rw [← htake, List.length_take]
    exact Nat.min_le_left _ _
  have hpairs : (changedPairs build schema baseline current).length ≤ body.length :=
    length_keyed_le hbody
  rw [← List.length_map (f := fun p : EntitySnapshot × EntitySnapshot =>
    DeltaUpdateEntity.mk p.2.id (componentUpdates build schema p.1 p.2)), changed_pairs_updates]
    at hpairs
  rw [htake, ← diff_updates_eq hbaseline.ascending hcurrent.ascending]
  exact (decode_masked_section_eq_ok hvalid hbaseline.ascending hcurrent.ascending hfits
    rfl hbody (by omega) (by omega)).mpr ⟨⟨by omega, hcount,
      fun _ _ _ _ _ _ _ _ _ _ => FieldCodec.readable_of_wrapping hwrapping⟩, rfl⟩

end Encodings

/-- One changed entity. -/
theorem update_encodings_agree_golden :
    Delta.decodeUpdateSectionMasked (goldenBuild false) goldenSchema
        [1, 3, 0, 0, 0, 232, 1, 217, 0] goldenLimits
        = .ok (expectedUpdates (goldenBuild false) goldenSchema goldenEntities goldenChanged)
      ∧ Delta.decodeUpdateSectionSparsePacked (goldenBuild false) goldenSchema
        [1, 3, 10, 3, 8, 3, 236, 128] goldenLimits
        = .ok (expectedUpdates (goldenBuild false) goldenSchema goldenEntities goldenChanged)
      ∧ Delta.decodeUpdateSectionSparseVarint (goldenBuild false) goldenSchema
        [1, 3, 0, 0, 0, 10, 0, 3, 0, 0, 1, 0, 112, 3, 100, 0] goldenLimits
        = .ok (expectedUpdates (goldenBuild false) goldenSchema goldenEntities goldenChanged) := by
  have hcounts : diffCounts (goldenBuild false) goldenSchema goldenLimits ⟨⟨5⟩, goldenEntities⟩
      ⟨⟨7⟩, goldenChanged⟩ = .ok ⟨0, 1, 0⟩ := by decide +kernel
  have hmasked :
      (Delta.encodeUpdateBodyMasked (goldenBuild false) goldenSchema ⟨⟨5⟩, goldenEntities⟩
      ⟨⟨7⟩, goldenChanged⟩ 1 goldenLimits .default).runOn (BitWriter.new (List.replicate 9 0))
      = .ok (⟨[true], [true, true, false, true]⟩, ⟨[1, 3, 0, 0, 0, 232, 1, 217, 0], 72⟩) := by
    decide +kernel
  have hpacked : (Delta.encodeUpdateBodySparsePacked (goldenBuild false) goldenSchema
      ⟨⟨5⟩, goldenEntities⟩ ⟨⟨7⟩, goldenChanged⟩ 1 goldenLimits .default).runOn
      (BitWriter.new (List.replicate 8 0))
      = .ok (⟨[false], [true, true, false, true]⟩, ⟨[1, 3, 10, 3, 8, 3, 236, 128], 64⟩) := by
    decide +kernel
  have hvarint : (Delta.encodeUpdateBodySparseVarint (goldenBuild false) goldenSchema
      ⟨⟨5⟩, goldenEntities⟩ ⟨⟨7⟩, goldenChanged⟩ 1 goldenLimits .default).runOn
      (BitWriter.new (List.replicate 16 0))
      = .ok (⟨[false], [true, true, false, true]⟩,
        ⟨[1, 3, 0, 0, 0, 10, 0, 3, 0, 0, 1, 0, 112, 3, 100, 0], 128⟩) := by
    decide +kernel
  have hresults := update_encodings_agree rfl golden_schema_new (by decide) (by decide) (by decide)
    hcounts hmasked hpacked hvarint (by decide) (by decide)
  exact hresults

end Sdec
