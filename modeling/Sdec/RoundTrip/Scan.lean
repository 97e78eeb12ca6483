import Sdec.Format.ChangeList
import Sdec.Format.Succeeds
import Sdec.RoundTrip.Delta

/-!
# The scan path and the list path

A delta is encoded from two snapshots or from lists of what has changed between them. Read
`scan_and_list_paths_agree` first: where the encoder that scans the snapshots succeeds, the encoder
of change lists succeeds on the changes and leaves the same buffer.
-/

namespace Sdec

open Rust Bits Bitstream Codec Wire Sorted

variable {build : Build} {schema : Schema} {limits : CodecLimits} {baselineTick : SnapshotTick}
  {baseline current : Snapshot}

/-! ## The lists -/

/-- The ids of the baseline that the current snapshot does not have. -/
def goneIds (baseline current : List EntitySnapshot) : List EntityId :=
  (baseline.filter fun base => current.all fun curr => curr.id ≠ base.id).map EntitySnapshot.id

/-- The entities that the baseline does not have. -/
def newEntities (baseline current : List EntitySnapshot) : List EntitySnapshot :=
  current.filter fun curr => baseline.all fun base => base.id ≠ curr.id

section Lists

variable (hbaseline : Ascending baseline.entities) (hcurrent : Ascending current.entities)

include hbaseline hcurrent

theorem diff_destroys_eq :
    (diff build schema baseline current).destroys = goneIds baseline.entities current.entities := by
  refine eq_of_mem_iff (diff_destroys_ascend hbaseline hcurrent) ?_ fun id => ?_
  · exact List.pairwise_map.mpr (hbaseline.filter _)
  · rw [mem_diff_destroys hbaseline hcurrent, goneIds, List.mem_map]
    constructor
    · intro h
      obtain ⟨⟨b, hb, rfl⟩, hgone⟩ := h
      exact ⟨b, List.mem_filter.mpr ⟨hb, by simpa using hgone⟩, rfl⟩
    · intro h
      obtain ⟨b, hb, rfl⟩ := h
      obtain ⟨hb, hgone⟩ := List.mem_filter.mp hb
      exact ⟨⟨b, hb, rfl⟩, by simpa using hgone⟩

theorem diff_creates_eq :
    (diff build schema baseline current).creates
      = newEntities baseline.entities current.entities := by
  refine eq_of_mem_iff (diff_creates_ascend hbaseline hcurrent) (hcurrent.filter _) fun entity => ?_
  rw [mem_diff_creates hbaseline hcurrent, newEntities, List.mem_filter]
  exact and_congr_right fun _ => by simp

end Lists

/-! ## The payload -/

section Payload

variable (hschema : schema.Valid)
  (hcount : ∀ update ∈ (diff build schema baseline current).updates,
    update.components.length ≤ limits.maxComponentsPerEntity)

include hschema

/-- The components that the scan has found are those of entries that it can write. -/
theorem scanned_component
    (hfits : ∀ entry ∈ updateEntries schema (diff build schema baseline current).updates,
      entry.Fits build limits)
    {update : DeltaUpdateEntity} (hupdate : update ∈ (diff build schema baseline current).updates)
    {component : DeltaUpdateComponent} (hcomponent : component ∈ update.components) :
    ListedValid schema limits component ∧ ListedEncodes build schema component := by
  obtain ⟨definition, hmem, hid⟩ :=
    updates_known baseline current update hupdate component hcomponent
  have hentry : SparseEntry.mk update.id.raw definition component.fields
      ∈ updateEntries schema (diff build schema baseline current).updates := by
    refine mem_update_entries.mpr ⟨update, hupdate, component, hcomponent, ?_, rfl, rfl⟩
    rw [hid, find_definition_of_mem hschema hmem]
  obtain ⟨hencodes, hlimit⟩ := hfits _ hentry
  obtain ⟨hne, hindices⟩ := diff_entry_fields hentry
  have hlength := Nat.le_trans (FieldsEncode.length_le hencodes hindices) hlimit
  refine ⟨⟨definition, hmem, hid, hne, hlength, fun p hp => ?_⟩, definition, hmem, hid, hencodes⟩
  obtain ⟨field, hfield, -⟩ := hencodes p hp
  exact (List.getElem?_eq_some_iff.mp hfield).1

variable {sections : List WireSection}
  (hfacts : SnapshotSections build schema limits baselineTick baseline current .sparse sections)

omit hschema in
include hfacts in
/-- The scan path can write the entries of the delta. -/
theorem scanned_entries_fit :
    ∀ entry ∈ updateEntries schema (diff build schema baseline current).updates,
      entry.Fits build limits := by
  intro entry hentry
  obtain ⟨update, hupdate, -⟩ := mem_update_entries.mp hentry
  exact (hfacts.updates (List.ne_nil_of_mem hupdate)).2 entry hentry

include hcount hfacts in
/-- The list path accepts what the scan path writes. -/
theorem scanned_updates_validated :
    Delta.validateUpdatesForEncoding schema (diff build schema baseline current).updates limits
      (Delta.buildComponentLookup schema) = .ok () := by
  have hascend := @diff_updates_ascend build schema baseline current hfacts.baselineAscends
    hfacts.currentAscends
  refine (validate_updates_eq_ok hschema).mpr ⟨hascend, fun update hupdate =>
    ⟨hcount update hupdate, fun component hcomponent => ?_⟩⟩
  exact (scanned_component hschema (scanned_entries_fit hfacts) hupdate hcomponent).1

include hfacts in
/-- Both bodies of the update section have the layout of the same entries. -/
theorem listed_body_of_scanned {out : List UInt8} {scratch a : CodecScratch} {writer : BitWriter}
    (hrun : (Delta.encodeUpdateBodySparsePacked build schema baseline current
      (diff build schema baseline current).updates.length limits scratch).runOn (BitWriter.new out)
        = .ok (a, writer)) :
    (Delta.encodeUpdateBodySparsePackedFromUpdates build schema
      (diff build schema baseline current).updates limits
      (Delta.buildComponentLookup schema)).runOn (BitWriter.new out) = .ok ((), writer) := by
  have hwrites := @SparseFormat.writes_encode_update_body build schema limits 0 _ _
    sparsePackedFormat hschema baseline current (diff build schema baseline current).updates.length
    scratch
  rw [Call.runOn] at hrun ⊢
  cases hsparse : Delta.encodeUpdateBodySparsePacked build schema baseline current
    (diff build schema baseline current).updates.length limits scratch (BitWriter.new out) with
  | error e writer' =>
      rw [hsparse] at hrun
      cases hrun
  | ok a' writer' =>
      rw [hsparse] at hrun
      cases hrun
      have hsame := hwrites.same_of_ok (fun _ h => emits_encode_listed_body hschema h.1 h.2.1
        fun update hupdate component hcomponent =>
          (scanned_component hschema (scanned_entries_fit hfacts) hupdate hcomponent).2)
        (Nat.zero_le _) hsparse
      rw [BitWriter.new, hsame]

include hcount

/-- Where the scan path writes the payload of a delta, the list path writes the same. -/
theorem listed_payload_of_scanned {scratch scratch' : CodecScratch} {out out' : List UInt8}
    {n : Nat} (hlen : out.length ≤ isizeMax)
    (hscan : encodeDeltaPayloadWithMode build schema baselineTick baseline current limits
      .sparse scratch out = .ok ((scratch', n), out')) :
    encodeDeltaPayloadFromUpdates build schema (diff build schema baseline current).destroys
      (diff build schema baseline current).creates
      (diff build schema baseline current).updates limits out = .ok (n, out') := by
  obtain ⟨_, sections, -, hputs⟩ := @puts_delta_payload build schema limits baseline current hschema
    baselineTick .sparse scratch
  obtain ⟨hfacts, -⟩ := hputs.of_ok hlen hscan
  have hvalidate := scanned_updates_validated hschema hcount hfacts
  have hbody (out : List UInt8) (a : CodecScratch) (writer : BitWriter) :=
    @listed_body_of_scanned build schema limits baselineTick baseline current hschema sections
      hfacts out scratch a writer
  have hdestroysAscend := @diff_destroys_ascend build schema baseline current
    hfacts.baselineAscends hfacts.currentAscends
  have hcreatesAscend := @diff_creates_ascend build schema baseline current
    hfacts.baselineAscends hfacts.currentAscends
  obtain ⟨d, hd⟩ : ∃ d, d = diff build schema baseline current := ⟨_, rfl⟩
  rw [← hd] at hvalidate hbody hdestroysAscend hcreatesAscend ⊢
  have hdestroys : ensureEntityIdsSorted d.destroys = .ok () :=
    ensure_entity_ids_sorted_eq_ok.mpr hdestroysAscend
  have hcreates : ensureEntitiesSorted d.creates = .ok () :=
    ensure_entities_sorted_eq_ok.mpr hcreatesAscend
  have hflags : decide (d.destroys.length > 0) = !d.destroys.isEmpty
      ∧ decide (d.creates.length > 0) = !d.creates.isEmpty := by
    cases d.destroys <;> cases d.creates <;> simp
  -- the steps of the scan path, which has written the first two sections as the list path does
  rw [encodeDeltaPayloadWithMode, check_fail_eq_ok] at hscan
  obtain ⟨-, hscan⟩ := hscan
  obtain ⟨_, -, hscan⟩ := bind_eq_ok.mp hscan
  obtain ⟨_, -, hscan⟩ := bind_eq_ok.mp hscan
  obtain ⟨counts, hcounts, hscan⟩ := bind_eq_ok.mp hscan
  obtain rfl := diff_counts_eq hcounts
  simp only [encode_destroy_body_eq, encode_create_body_eq] at hscan
  rw [← hd, hflags.1, hflags.2, check_fail_eq_ok, check_fail_eq_ok, check_fail_eq_ok] at hscan
  obtain ⟨hcreateCount, hupdateCount, hdestroyCount, hscan⟩ := hscan
  obtain ⟨⟨⟨_, offset₁⟩, out₁⟩, hfirst, hscan⟩ := bind_eq_ok.mp hscan
  obtain ⟨⟨⟨_, offset₂⟩, out₂⟩, hsecond, hscan⟩ := bind_eq_ok.mp hscan
  rw [encodeDeltaPayloadFromUpdates, if_neg hdestroyCount, if_neg hcreateCount,
    if_neg hupdateCount]
  refine bind_eq_ok.mpr ⟨_, hdestroys, bind_eq_ok.mpr ⟨_, hcreates, bind_eq_ok.mpr ⟨_, hvalidate,
    bind_eq_ok.mpr ⟨_, hfirst, bind_eq_ok.mpr ⟨_, hsecond, ?_⟩⟩⟩⟩⟩
  -- the section of updates is the same where there is one
  have hthird : appendSection (!d.updates.isEmpty) .entityUpdateSparsePacked limits
      (Delta.encodeUpdateBodySparsePackedFromUpdates build schema d.updates limits
        (Delta.buildComponentLookup schema)) () offset₂ out₂ = .ok (((), n), out') := by
    cases hnil : d.updates with
    | nil =>
        rw [hnil] at hscan
        cases hscan
        rfl
    | cons first rest =>
        have hpos : d.updates.length > 0 := by
          rw [hnil]
          exact Nat.succ_pos _
        rw [← hnil]
        simp only [if_pos hpos] at hscan
        have hsome : (!d.updates.isEmpty) = true := by
          rw [hnil]
          rfl
        have hsection : appendSection true .entityUpdateSparsePacked limits
            (Delta.encodeUpdateBodySparsePacked build schema baseline current d.updates.length
              limits scratch) scratch offset₂ out₂ = .ok ((scratch', n), out') := hscan
        rw [hsome]
        exact append_section_congr (fun _ => hbody) hsection
  exact bind_eq_ok.mpr ⟨_, hthird, rfl⟩

end Payload

/-! ## The packet -/

/-- A packet depends on its payload only. -/
theorem encode_delta_packet_congr {α β : Type} {tick : SnapshotTick} {b : β}
    {x : List UInt8 → Outcome CodecError ((α × Nat) × List UInt8)}
    {y : List UInt8 → Outcome CodecError ((β × Nat) × List UInt8)} {out out' : List UInt8} {a : α}
    {n : Nat} (h : ∀ a n tail', x (out.drop HEADER_SIZE) = .ok ((a, n), tail') →
      y (out.drop HEADER_SIZE) = .ok ((b, n), tail'))
    (hrun : encodeDeltaPacket build schema tick baselineTick x out = .ok ((a, n), out')) :
    encodeDeltaPacket build schema tick baselineTick y out = .ok ((b, n), out') := by
  rw [encodeDeltaPacket, check_fail_eq_ok] at hrun ⊢
  obtain ⟨hroom, hrun⟩ := hrun
  refine ⟨hroom, ?_⟩
  rw [withTail, if_pos (Nat.le_of_not_lt hroom)] at hrun ⊢
  obtain ⟨⟨⟨a', payloadLen⟩, all⟩, htail, hrun⟩ := bind_eq_ok.mp hrun
  obtain ⟨⟨⟨_, _⟩, tail'⟩, hpayload, heq⟩ := bind_eq_ok.mp htail
  cases heq
  obtain ⟨out₁, hheader, hrun⟩ := bind_eq_ok.mp hrun
  obtain ⟨len, hadd, heq⟩ := bind_eq_ok.mp hrun
  cases heq
  exact bind_eq_ok.mpr ⟨((b, payloadLen), _), bind_eq_ok.mpr ⟨((b, payloadLen), tail'),
    h _ _ _ hpayload, rfl⟩, bind_eq_ok.mpr ⟨_, hheader, bind_eq_ok.mpr ⟨_, hadd, rfl⟩⟩⟩

/-- Where `encode_delta_snapshot_for_client` succeeds on two snapshots and no entity has more
updated components than an entity may have, `encode_delta_snapshot_from_updates` succeeds on the
changes between them, writes as many bytes and leaves the same buffer. -/
theorem scan_and_list_paths_agree {components : List ComponentDef} {tick : SnapshotTick}
    (hschema : Schema.new components = .ok schema)
    (hbaseline : Snapshot.WellFormed schema baseline.entities)
    (hcurrent : Snapshot.WellFormed schema current.entities)
    {out out' : List UInt8} {n : Nat} (hlen : out.length ≤ isizeMax)
    (hscan : encodeDeltaSnapshotForClient build schema tick baselineTick baseline current limits out
      = .ok (n, out'))
    (hcount : ∀ update ∈ expectedUpdates build schema baseline.entities current.entities,
      update.components.length ≤ limits.maxComponentsPerEntity) :
    encodeDeltaSnapshotFromUpdates build schema tick baselineTick
      (goneIds baseline.entities current.entities) (newEntities baseline.entities current.entities)
      (expectedUpdates build schema baseline.entities current.entities) limits out
        = .ok (n, out') := by
  have hvalid := (schema_new_eq_ok.mp hschema).2
  obtain ⟨scratch, hpacket⟩ := encode_delta_sparse hscan
  rw [← diff_updates_eq hbaseline.ascending hcurrent.ascending] at hcount ⊢
  rw [← @diff_destroys_eq build schema _ _ hbaseline.ascending hcurrent.ascending,
    ← @diff_creates_eq build schema _ _ hbaseline.ascending hcurrent.ascending]
  refine bind_eq_ok.mpr ⟨(((), n), out'), encode_delta_packet_congr (fun a m tail' hpayload => ?_)
    hpacket, rfl⟩
  have hdrop : (out.drop HEADER_SIZE).length ≤ isizeMax :=
    Nat.le_trans (List.length_drop ▸ Nat.sub_le _ _) hlen
  exact bind_eq_ok.mpr ⟨_, listed_payload_of_scanned hvalid hcount hdrop hpayload, rfl⟩

/-- One changed entity of `goldenSchema`. -/
theorem scan_and_list_paths_agree_golden :
    encodeDeltaSnapshotFromUpdates (goldenBuild false) goldenSchema ⟨7⟩ ⟨5⟩
      (goneIds goldenEntities goldenChanged) (newEntities goldenEntities goldenChanged)
      (expectedUpdates (goldenBuild false) goldenSchema goldenEntities goldenChanged) goldenLimits
      (List.replicate 42 0) = .ok (38, goldenDelta) := by
  have hscan : encodeDeltaSnapshotForClient (goldenBuild false) goldenSchema ⟨7⟩ ⟨5⟩
      ⟨⟨5⟩, goldenEntities⟩ ⟨⟨7⟩, goldenChanged⟩ goldenLimits (List.replicate 42 0)
      = .ok (38, goldenDelta) := by decide +kernel
  have hagree :=
    scan_and_list_paths_agree golden_schema_new (by decide) (by decide) (by decide) hscan
      (by decide +kernel)
  exact hagree

end Sdec
