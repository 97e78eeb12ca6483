import Sdec.Format.Packet

/-!
# The format of change lists

`encode_delta_snapshot_from_updates` writes the sections of a delta that its caller has already
found. Read `puts_listed_payload` first: it says what the encoder puts into a buffer, and what is
then known of the lists.
-/

namespace Sdec

open Rust Bits Bitstream Codec Wire Sorted

variable {build : Build} {schema : Schema} {limits : CodecLimits} {d : Diff}
  {sections : List WireSection}

/-- The layout of the update section of change lists. -/
def listedLayout (schema : Schema) (updates : List DeltaUpdateEntity) : Layout :=
  countedLayout (updates.map fun update => update.components.length).sum
    (sparsePackedFormat.entriesLayout (updateEntries schema updates))

/-- What the encoder of change lists has checked of them. -/
structure ListsChecked (build : Build) (schema : Schema) (limits : CodecLimits)
    (d : Diff) : Prop where
  destroyCount : d.destroys.length ≤ limits.maxEntitiesDestroy
  createCount : d.creates.length ≤ limits.maxEntitiesCreate
  updateCount : d.updates.length ≤ limits.maxEntitiesUpdate
  destroysAscend : d.destroys.Pairwise fun a b => a.raw < b.raw
  createsAscend : Ascending d.creates
  updatesAscend : d.updates.Pairwise fun a b => a.id.raw < b.id.raw
  componentCount : ∀ update ∈ d.updates, update.components.length ≤ limits.maxComponentsPerEntity
  components : ∀ update ∈ d.updates, ∀ component ∈ update.components,
    ListedValid schema limits component
  entryCount : (updateEntries schema d.updates).length
    ≤ saturatingMul limits.maxEntitiesUpdate limits.maxComponentsPerEntity
  creates : ∀ entity ∈ d.creates, entity.Encodes build schema limits
  updates : ∀ update ∈ d.updates, ∀ component ∈ update.components,
    ListedEncodes build schema component

/-- What is known of the sections that the encoder of change lists has written. -/
structure ListedSections (build : Build) (schema : Schema) (limits : CodecLimits) (d : Diff)
    (sections : List WireSection) : Prop where
  checked : ListsChecked build schema limits d
  bodies : ∃ destroyBody createBody updateBody,
    DeltaBodies schema d (listedLayout schema d.updates) destroyBody createBody updateBody
    ∧ sections = deltaSections d .entityUpdateSparsePacked destroyBody createBody updateBody
  admits : AdmitBodies limits sections

theorem ensure_entity_ids_sorted_eq_ok {ids : List EntityId} {u : Unit} :
    ensureEntityIdsSorted ids = .ok u ↔ ids.Pairwise fun a b => a.raw < b.raw := by
  rw [ensureEntityIdsSorted, ensure_sorted_eq_ok, ascend_from_none]
  exact List.pairwise_map

/-- What the encoder of change lists puts into a buffer. -/
theorem puts_listed_payload (hschema : schema.Valid) (d : Diff) :
    ∃ need sections, Puts
      (sized (encodeDeltaPayloadFromUpdates build schema d.destroys d.creates d.updates limits))
      (fun _ => ListedSections build schema limits d sections) need
      (sections.flatMap WireSection.bytes) := by
  obtain ⟨destroyBody, hdestroy⟩ := exists_body d.destroys.length (destroyLayout d.destroys)
  obtain ⟨createBody, hcreate⟩ := exists_body d.creates.length (createLayout schema d.creates)
  obtain ⟨updateBody, hupdate⟩ : ∃ body, ofBytes body = render 0 (listedLayout schema d.updates) :=
    exists_body _ _
  have hsome {α : Type} {xs : List α} {x : α} (hx : x ∈ xs) : (!xs.isEmpty) = true := by
    rw [Bool.not_eq_true', List.isEmpty_eq_false_iff_exists_mem]
    exact ⟨x, hx⟩
  have hupdates := @appends_section limits _ Unit (!d.updates.isEmpty) .entityUpdateSparsePacked
    (Delta.encodeUpdateBodySparsePackedFromUpdates build schema d.updates limits
      (Delta.buildComponentLookup schema))
    (fun _ => !d.updates.isEmpty → (updateEntries schema d.updates).length
        ≤ saturatingMul limits.maxEntitiesUpdate limits.maxComponentsPerEntity
      ∧ ∀ update ∈ d.updates, ∀ component ∈ update.components, ListedEncodes build schema component)
    updateBody (fun _ => (writes_encode_listed_body hschema d.updates).mono fun _ h _ => h.2)
    hupdate () fun hno h => absurd h hno
  have hsections :=
    @appends_delta_sections limits _ (!d.destroys.isEmpty) (!d.creates.isEmpty) _ _ _
      _ _ _ _ _ _ _ _ _ (@writes_encode_destroy_body limits 0 d.destroys)
      (@writes_encode_create_body build schema limits 0 d.creates) hdestroy hcreate hupdates
  refine ⟨deltaRoom d destroyBody createBody updateBody,
    deltaSections d .entityUpdateSparsePacked destroyBody createBody updateBody, ?_⟩
  rw [deltaSections, List.flatMap_append, List.flatMap_append]
  unfold encodeDeltaPayloadFromUpdates deltaRoom
  refine Puts.sized_check fun hdestroys => Puts.sized_check fun hcreates =>
    Puts.sized_check fun hupdated => Puts.sized_lift fun _ hdestroysAscend =>
    Puts.sized_lift fun _ hcreatesAscend => Puts.sized_lift fun _ hvalid => ?_
  have hsized := sized_eq (fun out => do
    let first ← appendSection (!d.destroys.isEmpty) .entityDestroy limits
      (Delta.encodeDestroyBodyFromList d.destroys limits) () 0 out
    let second ← appendSection (!d.creates.isEmpty) .entityCreate limits
      (Delta.encodeCreateBodyFromList build schema d.creates limits) () first.1.2 first.2
    appendSection (!d.updates.isEmpty) .entityUpdateSparsePacked limits
      (Delta.encodeUpdateBodySparsePackedFromUpdates build schema d.updates limits
        (Delta.buildComponentLookup schema)) () second.1.2 second.2)
  simp only [bind_assoc] at hsized
  rw [hsized]
  refine (hsections.mono fun a h => ?_).puts
  obtain ⟨⟨hwritten, hadmits₃⟩, _, hcreated, hadmits₁, hadmits₂⟩ := h
  obtain ⟨hupdatesAscend, hcomponents⟩ := (validate_updates_eq_ok hschema).mp hvalid
  exact {
    bodies := ⟨destroyBody, createBody, updateBody, ⟨hdestroy, hcreate, hupdate⟩, rfl⟩
    admits := List.forall_mem_append.mpr
      ⟨hadmits₁, List.forall_mem_append.mpr ⟨hadmits₂, hadmits₃⟩⟩
    checked := {
      destroyCount := Nat.le_of_not_lt hdestroys
      createCount := Nat.le_of_not_lt hcreates
      updateCount := Nat.le_of_not_lt hupdated
      destroysAscend := ensure_entity_ids_sorted_eq_ok.mp hdestroysAscend
      createsAscend := ensure_entities_sorted_eq_ok.mp hcreatesAscend
      updatesAscend := hupdatesAscend
      componentCount := fun update hmem => (hcomponents update hmem).1
      components := fun update hmem => (hcomponents update hmem).2
      entryCount := by
        cases hnil : d.updates with
        | nil => exact Nat.zero_le _
        | cons first rest =>
            rw [← hnil]
            exact (hwritten (hsome (hnil ▸ List.mem_cons_self))).1
      creates := fun entity hmem => (hcreated (hsome hmem)).2 entity hmem
      updates := fun update hmem => (hwritten (hsome hmem)).2 update hmem } }

end Sdec
