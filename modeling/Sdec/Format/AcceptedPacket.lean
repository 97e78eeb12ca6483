import Sdec.Codec.Full
import Sdec.Format.AcceptedUpdate

/-!
# What the packet decoders accept

The sections of a packet are decoded one after another, in any order and in any of the three
encodings of updates. What a packet decoder returns is what its sections were accepted for.
-/

namespace Sdec

open Rust Bits Bitstream Codec Wire Sorted

variable {build : Build} {schema : Schema} {limits : CodecLimits} {risk : Prop}

theorem decode_destroy_section_ensures (body : List UInt8) :
    Ensures (Delta.decodeDestroySection body limits) (fun destroys =>
      (destroys.Pairwise fun a b => a.raw < b.raw) ∧ destroys.length ≤ limits.maxEntitiesDestroy)
      (PanicsOnlyIf risk) := by
  unfold Delta.decodeDestroySection
  refine (read_section_ensures fun count c _ => yields_read_ascending EntityId.raw
    (fun _ _ => True) (fun key c => Yields.pure ⟨rfl, trivial⟩) count none).imp ?_
  intro destroys ⟨count, items, _, hcount, ⟨hlength, hascend, _⟩, _, _⟩
  exact ⟨List.pairwise_map.mp (ascend_from_none.mp hascend), hlength ▸ hcount⟩

/-- What the sections of a delta decode to. -/
structure AcceptedDelta (schema : Schema) (limits : CodecLimits) (destroys : List EntityId)
    (creates : List EntitySnapshot) (updates : List DeltaUpdateEntity) : Prop where
  destroysAscend : destroys.Pairwise fun a b => a.raw < b.raw
  destroyCount : destroys.length ≤ limits.maxEntitiesDestroy
  createsAscend : Ascending creates
  createsAccepted : ∀ entity ∈ creates, entity.Accepted schema limits
  createCount : creates.length ≤ limits.maxEntitiesCreate
  updates : AcceptedUpdates schema limits updates

/-- The sections seen so far are accepted. -/
structure SeenSectionsAccepted (schema : Schema) (limits : CodecLimits)
    (seen : Delta.SeenSections) :
    Prop where
  destroys : ∀ destroys, seen.destroys = some destroys →
    (destroys.Pairwise fun a b => a.raw < b.raw) ∧ destroys.length ≤ limits.maxEntitiesDestroy
  creates : ∀ creates, seen.creates = some creates →
    ∃ body, AcceptedCreates schema limits body creates
  masked : ∀ updates, seen.updatesMasked = some updates → AcceptedUpdates schema limits updates
  sparse : ∀ updates, seen.updatesSparse = some updates → AcceptedUpdates schema limits updates

theorem ensure_first_ensures {α : Type} (seen : Option α) (tag : SectionTag) :
    Ensures (Delta.ensureFirst seen tag) (fun _ => True) (PanicsOnlyIf risk) := by
  unfold Delta.ensureFirst
  by_cases hsome : seen.isSome
  · rw [if_pos hsome]
    exact panics_only_if_err _
  · rw [if_neg hsome]
    exact trivial

/-- One more section. -/
theorem decode_delta_section_ensures (hschema : schema.Valid)
    (hrisk : build.overflowChecks → ¬ schema.Safe → risk) {seen : Delta.SeenSections}
    (hseen : SeenSectionsAccepted schema limits seen) (section_ : WireSection) :
    Ensures (Delta.decodeDeltaSection build schema limits seen section_)
      (SeenSectionsAccepted schema limits) (PanicsOnlyIf risk) := by
  unfold Delta.decodeDeltaSection
  cases section_.tag with
  | entityDestroy =>
      refine (ensure_first_ensures _ _).bind fun _ _ => ?_
      refine (decode_destroy_section_ensures section_.body).bind fun destroys h => ?_
      exact ⟨fun _ heq => Option.some.inj heq ▸ h, hseen.creates, hseen.masked, hseen.sparse⟩
  | entityCreate =>
      refine (ensure_first_ensures _ _).bind fun _ _ => ?_
      refine (decode_create_section_ensures hschema hrisk section_.body).bind fun creates h => ?_
      exact ⟨hseen.destroys, fun _ heq => ⟨_, Option.some.inj heq ▸ h⟩, hseen.masked, hseen.sparse⟩
  | entityUpdate =>
      refine (ensure_first_ensures _ _).bind fun _ _ => ?_
      refine (decode_update_section_masked_ensures hschema hrisk section_.body).bind
        fun updates h => ?_
      exact ⟨hseen.destroys, hseen.creates, fun _ heq => Option.some.inj heq ▸ h, hseen.sparse⟩
  | entityUpdateSparse =>
      refine (ensure_first_ensures _ _).bind fun _ _ => ?_
      refine (decode_update_section_sparse_ensures hschema hrisk sparse_varint_reader_safe
        section_.body).bind fun updates h => ?_
      exact ⟨hseen.destroys, hseen.creates, hseen.masked, fun _ heq => Option.some.inj heq ▸ h.1⟩
  | entityUpdateSparsePacked =>
      refine (ensure_first_ensures _ _).bind fun _ _ => ?_
      refine (decode_update_section_sparse_ensures hschema hrisk sparse_packed_reader_safe
        section_.body).bind fun updates h => ?_
      exact ⟨hseen.destroys, hseen.creates, hseen.masked, fun _ heq => Option.some.inj heq ▸ h.1⟩
  | sessionInit => exact panics_only_if_err _

theorem accepted_updates_nil : AcceptedUpdates schema limits [] :=
  ⟨List.forall_mem_nil _, Nat.zero_le _⟩

/-- The sections of a delta packet. -/
theorem decode_delta_sections_ensures (hschema : schema.Valid)
    (hrisk : build.overflowChecks → ¬ schema.Safe → risk) (packet : WirePacket) :
    Ensures (Delta.decodeDeltaSections build schema packet limits)
      (fun decoded => AcceptedDelta schema limits decoded.1 decoded.2.1 decoded.2.2)
      (PanicsOnlyIf risk) := by
  unfold Delta.decodeDeltaSections
  refine (Ensures.foldlM (?_ : SeenSectionsAccepted schema limits _)
    fun section_ _ seen hseen => decode_delta_section_ensures hschema hrisk hseen section_).bind ?_
  · exact ⟨fun _ h => (nomatch h), fun _ h => (nomatch h), fun _ h => (nomatch h),
      fun _ h => nomatch h⟩
  intro seen hseen
  have hdestroys : (seen.destroys.getD []).Pairwise (fun a b => a.raw < b.raw)
      ∧ (seen.destroys.getD []).length ≤ limits.maxEntitiesDestroy := by
    cases h : seen.destroys with
    | none => exact ⟨.nil, Nat.zero_le _⟩
    | some destroys => exact hseen.destroys destroys h
  have hcreates : Ascending (seen.creates.getD [])
      ∧ (∀ entity ∈ seen.creates.getD [], entity.Accepted schema limits)
      ∧ (seen.creates.getD []).length ≤ limits.maxEntitiesCreate := by
    cases h : seen.creates with
    | none => exact ⟨.nil, List.forall_mem_nil _, Nat.zero_le _⟩
    | some creates =>
        obtain ⟨body, haccepted⟩ := hseen.creates creates h
        exact ⟨haccepted.ascending, haccepted.accepted, haccepted.count⟩
  have hdelta {updates : List DeltaUpdateEntity} (h : AcceptedUpdates schema limits updates) :
      AcceptedDelta schema limits (seen.destroys.getD []) (seen.creates.getD []) updates :=
    ⟨hdestroys.1, hdestroys.2, hcreates.1, hcreates.2.1, hcreates.2.2, h⟩
  cases hmasked : seen.updatesMasked with
  | none =>
      cases hsparse : seen.updatesSparse with
      | none => exact hdelta accepted_updates_nil
      | some updates => exact hdelta (hseen.sparse updates hsparse)
  | some updates =>
      cases hsparse : seen.updatesSparse with
      | none => exact hdelta (hseen.masked updates hmasked)
      | some other => exact panics_only_if_err _

theorem check_delta_header_ensures (header : PacketHeader) :
    Ensures (Delta.checkDeltaHeader header) (fun _ => True) (PanicsOnlyIf risk) := by
  unfold Delta.checkDeltaHeader
  refine Ensures.check (fun _ => panics_only_if_err _) fun _ => ?_
  by_cases hzero : header.baselineTick = 0
  · rw [if_pos hzero]
    exact panics_only_if_err _
  · rw [if_neg hzero]
    exact trivial

theorem check_schema_hash_ensures (header : PacketHeader) :
    Ensures (Delta.checkSchemaHash build schema header) (fun _ => True) (PanicsOnlyIf risk) := by
  unfold Delta.checkSchemaHash
  by_cases hhash : header.schemaHash ≠ schemaHash build schema
  · simp only [if_pos hhash]
    exact panics_only_if_err _
  · simp only [if_neg hhash]
    exact trivial

/-- What `decode_delta_packet` returns. -/
theorem decode_delta_packet_ensures (hschema : schema.Valid)
    (hrisk : build.overflowChecks → ¬ schema.Safe → risk) (packet : WirePacket) :
    Ensures (decodeDeltaPacket build schema packet limits) (fun decoded =>
      AcceptedDelta schema limits decoded.destroys decoded.creates decoded.updates)
      (PanicsOnlyIf risk) := by
  unfold decodeDeltaPacket
  refine (check_delta_header_ensures _).bind fun _ _ => ?_
  refine (check_schema_hash_ensures _).bind fun _ _ => ?_
  exact (decode_delta_sections_ensures hschema hrisk packet).bind fun decoded h => h

/-! ## Full snapshots -/

/-- The entities of a full snapshot, and of its create section if there is one. -/
structure AcceptedFull (schema : Schema) (limits : CodecLimits) (sections : List WireSection)
    (entities : List EntitySnapshot) : Prop where
  entities :
    entities = [] ∨ ∃ section_ ∈ sections, AcceptedCreates schema limits section_.body entities
    ∧ schema.components.length ≤ limits.maxComponentsPerEntity

theorem decode_full_sections_ensures (hschema : schema.Valid)
    (hrisk : build.overflowChecks → ¬ schema.Safe → risk) {all : List WireSection}
    (seen : Option (List EntitySnapshot))
    (hseen : AcceptedFull schema limits all (seen.getD [])) (sections : List WireSection)
    (hall : sections ⊆ all) :
    Ensures (decodeFullSections build schema limits seen sections)
      (AcceptedFull schema limits all) (PanicsOnlyIf risk) := by
  induction sections generalizing seen with
  | nil => exact hseen
  | cons section_ rest ih =>
      unfold decodeFullSections
      cases section_.tag with
      | entityCreate =>
          refine Ensures.check (fun _ => panics_only_if_err _) fun _ => ?_
          refine (decode_full_create_section_ensures hschema hrisk section_.body).bind
            fun entities h => ih (some entities) ⟨.inr ?_⟩ (List.cons_subset.mp hall).2
          exact ⟨section_, (List.cons_subset.mp hall).1, h⟩
      | entityDestroy | entityUpdate | entityUpdateSparse | entityUpdateSparsePacked
      | sessionInit =>
          exact panics_only_if_err _

/-- What `decode_full_snapshot_from_packet` returns. -/
theorem decode_full_packet_ensures (hschema : schema.Valid)
    (hrisk : build.overflowChecks → ¬ schema.Safe → risk) (packet : WirePacket) :
    Ensures (decodeFullSnapshotFromPacket build schema packet limits) (fun snapshot =>
      AcceptedFull schema limits packet.sections snapshot.entities) (PanicsOnlyIf risk) := by
  unfold decodeFullSnapshotFromPacket
  refine Ensures.check (fun _ => panics_only_if_err _) fun _ => ?_
  refine Ensures.check (fun _ => panics_only_if_err _) fun _ => ?_
  refine Ensures.check (fun _ => panics_only_if_err _) fun _ => ?_
  exact (decode_full_sections_ensures hschema hrisk none ⟨.inl rfl⟩ packet.sections
    (List.Subset.refl _)).bind fun entities h => h

end Sdec
