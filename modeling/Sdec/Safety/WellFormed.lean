import Sdec.Diff.MapUpdate
import Sdec.Format.AcceptedPacket

/-!
# Decoded snapshots are well-formed

Whatever the bytes, a snapshot that the decoder of full snapshots returns is well-formed for the
schema, and so is one that comes of a delta applied to a well-formed baseline.
-/

namespace Sdec

open Rust Codec Wire Sorted

variable {build : Build} {schema : Schema} {limits : CodecLimits} {ws : List FieldWrite}

/-- The writes give fields of the schema values in range. -/
def Schema.HoldsWrites (schema : Schema) (ws : List FieldWrite) : Prop :=
  ∀ write ∈ ws, ∃ definition ∈ schema.components,
    write.component = definition.id ∧ definition.HoldsField (write.field, write.value)

theorem AcceptedUpdates.holds_writes {updates : List DeltaUpdateEntity}
    (h : AcceptedUpdates schema limits updates) :
    schema.HoldsWrites (updates.flatMap DeltaUpdateEntity.writes) := by
  intro write hwrite
  obtain ⟨update, hupdate, hwrite⟩ := List.mem_flatMap.mp hwrite
  obtain ⟨component, hcomponent, hwrite⟩ := List.mem_flatMap.mp hwrite
  obtain ⟨field, hfield, rfl⟩ := List.mem_map.mp hwrite
  obtain ⟨definition, hdefinition, hid, hholds⟩ :=
    ((h.accepted update hupdate).components component hcomponent).known
  exact ⟨definition, hdefinition, hid, hholds field hfield⟩

/-- Writes that hold keep a component well-formed. -/
theorem ComponentSnapshot.WellFormed.after (hschema : schema.Valid)
    (hwrites : schema.HoldsWrites ws) {definition : ComponentDef}
    (hdefinition : definition ∈ schema.components)
    {component : ComponentSnapshot} (h : component.WellFormed definition) (entity : EntityId) :
    (component.after ws entity).WellFormed definition := by
  refine ⟨h.id, ?_⟩
  have hlength := h.fields.length_eq
  refine List.forall₂_iff_get.mpr ⟨?_, ?_⟩
  · rw [ComponentSnapshot.after, List.length_mapIdx]
    exact hlength
  intro i hi hi'
  have hcomponent : i < component.fields.length := hlength ▸ hi
  have hvalue : (component.after ws entity).fields.get ⟨i, hi'⟩
      = (lastWrite ws entity component.id i).getD component.fields[i] := List.getElem_mapIdx
  rw [hvalue]
  cases hlast : lastWrite ws entity component.id i with
  | none => exact (List.forall₂_iff_get.mp h.fields).2 i hi hcomponent
  | some value =>
      obtain ⟨write, hwrite, hid, hfield, hwritten⟩ := exists_of_last_write hlast
      obtain ⟨other, hother, hotherId, field, hget, hcontains⟩ := hwrites write hwrite
      -- The definition that the write is for is that of the component.
      have hsame : other = definition := List.inj_on_of_nodup_map hschema.componentIds hother
        hdefinition (hotherId.symm.trans (hid.trans h.id))
      rw [hsame, hfield, List.getElem?_eq_getElem hi] at hget
      rw [hwritten] at hcontains
      cases hget
      exact hcontains

/-- Writes that hold keep an entity well-formed. -/
theorem EntitySnapshot.WellFormed.after (hschema : schema.Valid) (hwrites : schema.HoldsWrites ws)
    {entity : EntitySnapshot} (h : entity.WellFormed schema) :
    (entity.after ws).WellFormed schema := by
  obtain ⟨definitions, hall, hsub⟩ := List.sublistForall₂_iff.mp h
  refine List.sublistForall₂_iff.mpr ⟨definitions, ?_, hsub⟩
  show List.Forall₂ _ (entity.components.map _) definitions
  rw [List.forall₂_map_left_iff]
  obtain ⟨hlength, hzip⟩ := List.forall₂_iff_zip.mp hall
  refine List.forall₂_iff_zip.mpr ⟨hlength, fun {component definition} hmem => ?_⟩
  exact (hzip hmem).after hschema hwrites (hsub.subset (List.of_mem_zip hmem).2) entity.id

/-- The passes keep a snapshot well-formed. -/
theorem apply_passes_well_formed (hschema : schema.Valid)
    {baseline creates result : List EntitySnapshot} {destroys : List EntityId}
    {updates : List DeltaUpdateEntity} (hbaseline : Snapshot.WellFormed schema baseline)
    (haccepted : AcceptedDelta schema limits destroys creates updates)
    (h : applyPasses limits baseline destroys creates updates = .ok result) :
    Snapshot.WellFormed schema result ∧ result.length ≤ limits.maxTotalEntitiesAfterApply := by
  obtain ⟨remaining, merged, hremaining, hmerged, htotal, hupdates⟩ := apply_passes_eq_ok.mp h
  obtain ⟨_, _, hascending, hmembers⟩ := merged_survives hbaseline.ascending
    haccepted.destroysAscend haccepted.createsAscend hremaining hmerged
  have hwellFormed : ∀ entity ∈ merged, entity.WellFormed schema := by
    intro entity hentity
    rcases (hmembers entity).mp hentity with hkept | hcreated
    · exact hbaseline.entities entity hkept.1
    · exact (haccepted.createsAccepted entity hcreated).wellFormed
  have hdistinct : ∀ entity ∈ merged, entity.Distinct := fun entity hentity =>
    (hwellFormed entity hentity).shaped.pairwise_ne hschema
  obtain ⟨_, hresult⟩ := (apply_updates_eq_ok hascending hdistinct).mp hupdates
  rw [hresult]
  refine ⟨⟨ascending_after hascending, fun entity hentity => ?_⟩, ?_⟩
  · obtain ⟨original, horiginal, rfl⟩ := List.mem_map.mp hentity
    exact (hwellFormed original horiginal).after hschema haccepted.updates.holds_writes
  · rw [List.length_map]
    exact htotal

/-- No bytes build an ill-formed snapshot. -/
theorem decoded_snapshots_well_formed {components : List ComponentDef} (build : Build)
    (hnew : Schema.new components = .ok schema) (limits : CodecLimits) (wireLimits : Wire.Limits)
    (bytes : List UInt8) :
    (∀ baseline snapshot, Snapshot.WellFormed schema baseline.entities →
      applyDeltaSnapshot build schema baseline bytes wireLimits limits = .ok snapshot →
        Snapshot.WellFormed schema snapshot.entities
          ∧ snapshot.entities.length ≤ limits.maxTotalEntitiesAfterApply
          ∧ ∃ packet, decodePacket bytes wireLimits = .ok packet
            ∧ snapshot.tick = ⟨packet.header.tick⟩)
    ∧ ∀ snapshot, decodeFullSnapshot build schema bytes wireLimits limits = .ok snapshot →
        Snapshot.WellFormed schema snapshot.entities := by
  have hschema := (schema_new_eq_ok.mp hnew).2
  constructor
  · intro baseline snapshot hbaseline h
    obtain ⟨packet, hpacket, hdelta⟩ := bind_eq_ok.mp h
    obtain ⟨_, destroys, creates, updates, hsections, _, _, hpasses, htick⟩ :=
      apply_delta_packet_passes.mp hdelta
    have haccepted : AcceptedDelta schema limits destroys creates updates :=
      (@decode_delta_sections_ensures build schema limits True hschema (fun _ _ => trivial)
        packet).of_ok hsections
    obtain ⟨hwellFormed, htotal⟩ := apply_passes_well_formed hschema hbaseline haccepted hpasses
    refine ⟨hwellFormed, htotal, packet, ?_, htick⟩
    exact map_err_eq_ok.mp hpacket
  · intro snapshot h
    obtain ⟨packet, _, hfull⟩ := bind_eq_ok.mp h
    have haccepted := (@decode_full_packet_ensures build schema limits True hschema
      (fun _ _ => trivial) packet).of_ok hfull
    rcases haccepted.entities with hnil | ⟨section_, _, hcreates, _⟩
    · rw [hnil]
      exact ⟨List.Pairwise.nil, List.forall_mem_nil _⟩
    · exact ⟨hcreates.ascending, fun entity hentity =>
        (hcreates.accepted entity hentity).wellFormed⟩

/-- A delta of seven bytes that writes `false` to the first field of a golden entity, and a full
snapshot of the golden entities. -/
theorem decoded_snapshots_well_formed_golden :
    Snapshot.WellFormed goldenSchema
        [⟨⟨3⟩, [⟨⟨10, by decide⟩, [.bool false, .sint (-5), .uint 17, .fixedPoint 250]⟩]⟩,
          ⟨⟨9⟩, []⟩]
      ∧ Snapshot.WellFormed goldenSchema [⟨⟨9⟩, []⟩] := by
  have hdelta := decoded_snapshots_well_formed (goldenBuild false) golden_schema_new goldenLimits
    .unlimited [67, 69, 68, 83, 2, 0, 2, 0, 203, 95, 129, 138, 69, 190, 32, 147, 7, 0, 0, 0, 5, 0,
      0, 0, 7, 0, 0, 0, 5, 5, 1, 3, 10, 1, 0]
  have hfull := decoded_snapshots_well_formed (goldenBuild false) golden_schema_new goldenLimits
    .unlimited [67, 69, 68, 83, 2, 0, 1, 0, 203, 95, 129, 138, 69, 190, 32, 147, 7, 0, 0, 0, 0, 0,
      0, 0, 8, 0, 0, 0, 1, 6, 1, 9, 0, 0, 0, 0]
  constructor
  · exact (hdelta.1 ⟨⟨5⟩, goldenEntities⟩ ⟨⟨7⟩, _⟩ (by decide) (by decide +kernel)).1
  · exact hfull.2 ⟨⟨7⟩, _⟩ (by decide +kernel)

end Sdec
