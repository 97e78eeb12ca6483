import Sdec.RoundTrip.Delta

/-!
# The selection of an update encoding

`select_update_encoding` compares two estimates, of the bits of the field masks on one side and of
the bits of the field indices and of the keys of the sparse entries on the other. Read
`auto_encoding_minimal_iff` first: the packet is that of the encoding with the smaller estimate,
which is no longer than the other packets exactly when the sections are ranked as the estimates are.
The estimates leave out the ids and the masks of the entities in a masked section, and all padding.
-/

namespace Sdec

open Rust Bits Codec Wire Sorted

variable {build : Build} {schema : Schema} {limits : CodecLimits} {baseline current : Snapshot}

/-! ## The estimates -/

/-- The bits that a changed component adds to the estimate of the masked section. -/
def SparseEntry.maskEstimate (entry : SparseEntry) : Nat := entry.component.fields.length

/-- The bits that a changed component adds to the estimate of the sparse section. -/
def SparseEntry.sparseEstimate (entry : SparseEntry) : Nat :=
  (indexBits entry.component).toNat * entry.fields.length
    + varu32Size entry.entityId * 8
    + varu32Size entry.component.id.get.toUInt32 * 8
    + varu32Size (UInt32.ofNat entry.fields.length) * 8

/-- The encoding with the smaller estimate. Without a masked bit it is the masked one. -/
def estimatedEncoding (entries : List SparseEntry) : UpdateEncoding :=
  if (entries.map SparseEntry.maskEstimate).sum = 0 then .masked
  else if (entries.map SparseEntry.sparseEstimate).sum
    ≤ (entries.map SparseEntry.maskEstimate).sum then
    .sparse
  else .masked

/-- What a component of an entity in both snapshots adds to an estimate. -/
def componentWeight (build : Build) (weight : SparseEntry → Nat) (base curr : EntitySnapshot)
    (component : ComponentDef) : Nat :=
  match componentUpdate build base curr component with
  | some update => weight ⟨curr.id.raw, component, update.fields⟩
  | none => 0

theorem sum_component_weights (weight : SparseEntry → Nat) (base curr : EntitySnapshot) :
    (schema.components.map (componentWeight build weight base curr)).sum
      = ((scannedEntries build schema base curr).map weight).sum := by
  unfold scannedEntries
  induction schema.components with
  | nil => rfl
  | cons component components ih =>
      rw [List.map_cons, List.sum_cons, ih, List.filterMap_cons, componentWeight]
      cases componentUpdate build base curr component with
      | none => exact Nat.zero_add _
      | some update => rfl

/-- What a step along the snapshots adds to an estimate. -/
def stepWeight (build : Build) (schema : Schema) (weight : SparseEntry → Nat) :
    Step EntitySnapshot EntitySnapshot → Nat
  | .both base curr => (schema.components.map (componentWeight build weight base curr)).sum
  | _ => 0

theorem sum_step_weights (hschema : schema.Valid) (weight : SparseEntry → Nat) :
    ((mergeSteps baseline current).map (stepWeight build schema weight)).sum
      = ((updateEntries schema (diff build schema baseline current).updates).map weight).sum := by
  have hentries : updateEntries schema (diff build schema baseline current).updates
      = (mergeSteps baseline current).flatMap fun step =>
        updateEntries schema (updateStep build schema step).toList := by
    rw [diff, diffSteps, updateEntries, flatMap_filterMap]
    rfl
  rw [hentries]
  induction mergeSteps baseline current with
  | nil => rfl
  | cons step steps ih =>
      rw [List.map_cons, List.sum_cons, List.flatMap_cons, List.map_append, List.sum_append, ih]
      refine congrArg (· + _) ?_
      cases step with
      | left b => rfl
      | right c => rfl
      | both b c =>
          rw [stepWeight, sum_component_weights, scanned_entries_eq hschema]
          rfl

/-- One iteration of the loop over the components. -/
theorem select_component_eq {base curr : EntitySnapshot} {component : ComponentDef}
    {maskBits sparseBits maskBits' sparseBits' : Nat} {scratch scratch' : CodecScratch}
    (h : (do
      let (scanned, scratch) ← scanComponent build schema limits base curr component scratch
      match scanned with
      | some (_, fieldMask) =>
          let changed := fieldMask.count true
          if changed > 0 then
            return (maskBits + component.fields.length,
              sparseBits + (indexBits component).toNat * changed
                + varu32Size curr.id.raw * 8
                + varu32Size component.id.get.toUInt32 * 8
                + varu32Size (UInt32.ofNat changed) * 8, scratch)
          return (maskBits, sparseBits, scratch)
      | none =>
          return (maskBits, sparseBits, scratch)) = Except.ok (maskBits', sparseBits', scratch')) :
    maskBits' = maskBits + componentWeight build SparseEntry.maskEstimate base curr component
      ∧ sparseBits' = sparseBits + componentWeight build SparseEntry.sparseEstimate base curr
        component := by
  obtain ⟨⟨found, scanned'⟩, hscan, h⟩ := bind_eq_ok.mp h
  obtain ⟨hfound, hcomparable, -⟩ := scan_component_eq hscan
  cases found with
  | none =>
      cases h
      rw [componentWeight, componentWeight, component_update_of_none hfound.symm]
      exact ⟨rfl, rfl⟩
  | some p =>
      obtain ⟨snapshot, mask⟩ := p
      -- the mask counts the fields that an entry lists
      have hlength : (changedFields 0 mask snapshot.fields).length = mask.count true := by
        unfold scanned at hfound
        cases hbase : findComponent base component.id with
        | none =>
            rw [hbase] at hfound
            cases hfound
        | some b =>
            cases hcurr : findComponent curr component.id with
            | none =>
                rw [hbase, hcurr] at hfound
                cases hfound
            | some c =>
                rw [hbase, hcurr] at hfound
                cases hfound
                obtain ⟨hb, hc, -⟩ := hcomparable b snapshot hbase hcurr
                exact length_changed_fields 0 ((length_changed_mask hb hc).trans hc.symm)
      have hany : mask.any id ↔ 0 < mask.count true := by
        rw [List.count_pos_iff, List.any_eq_true]
        exact ⟨fun h => by obtain ⟨x, hx, rfl⟩ := h; exact hx, fun h => ⟨true, h, rfl⟩⟩
      rw [componentWeight, componentWeight, component_update_of_some hfound.symm]
      dsimp only at h
      -- a component without a change has no weight on either side
      by_cases hpos : mask.count true > 0
      · rw [if_pos hpos] at h
        cases h
        rw [if_pos (hany.mpr hpos)]
        dsimp only [SparseEntry.maskEstimate, SparseEntry.sparseEstimate]
        rw [hlength]
        exact ⟨rfl, by omega⟩
      · rw [if_neg hpos] at h
        cases h
        rw [if_neg fun h => hpos (hany.mp h)]
        exact ⟨rfl, rfl⟩

/-- The choice of an encoding. -/
theorem select_update_encoding_eq (hschema : schema.Valid) {scratch scratch' : CodecScratch}
    {encoding : UpdateEncoding}
    (h : selectUpdateEncoding build schema limits baseline current scratch
      = .ok (encoding, scratch')) :
    encoding
      = estimatedEncoding (updateEntries schema (diff build schema baseline current).updates) := by
  unfold selectUpdateEncoding at h
  obtain ⟨⟨maskBits, sparseBits, scratch''⟩, hloop, h⟩ := bind_eq_ok.mp h
  have hmask : maskBits = 0
      + ((mergeSteps baseline current).map
        (stepWeight build schema SparseEntry.maskEstimate)).sum := by
    refine @foldlM_sum_eq _ (Nat × Nat × CodecScratch) _ _ (fun s => s.1) _ _ _ _ hloop
      fun step _ s s' hs => ?_
    cases step with
    | left b => cases hs; rfl
    | right c => cases hs; rfl
    | both b c =>
        exact @foldlM_sum_eq _ (Nat × Nat × CodecScratch) _ _ (fun s => s.1) _ _ _ _ hs
          fun component _ t t' ht => (select_component_eq ht).1
  have hsparse : sparseBits = 0
      + ((mergeSteps baseline current).map
        (stepWeight build schema SparseEntry.sparseEstimate)).sum := by
    refine @foldlM_sum_eq _ (Nat × Nat × CodecScratch) _ _ (fun s => s.2.1) _ _ _ _ hloop
      fun step _ s s' hs => ?_
    cases step with
    | left b => cases hs; rfl
    | right c => cases hs; rfl
    | both b c =>
        exact @foldlM_sum_eq _ (Nat × Nat × CodecScratch) _ _ (fun s => s.2.1) _ _ _ _ hs
          fun component _ t t' ht => (select_component_eq ht).2
  rw [Nat.zero_add, sum_step_weights hschema] at hmask hsparse
  unfold estimatedEncoding
  rw [← hmask, ← hsparse]
  dsimp only at h
  by_cases hzero : maskBits = 0
  · rw [if_pos hzero] at h ⊢
    cases h
    rfl
  · rw [if_neg hzero] at h ⊢
    by_cases hle : sparseBits ≤ maskBits
    · rw [if_pos hle] at h ⊢
      cases h
      rfl
    · rw [if_neg hle] at h ⊢
      cases h
      rfl

/-! ## Lengths -/

/-- The length of a section whose body has a layout: the tag, the length and the body. -/
def sectionLength (items : Layout) : Nat :=
  1 + (varu32 (UInt32.ofNat (stop 0 items / 8))).length + stop 0 items / 8

/-- The other encoding of the updates. -/
def Codec.UpdateEncoding.other : UpdateEncoding → UpdateEncoding
  | .masked => .sparse
  | .sparse => .masked

/-- The length of the delta packet of two snapshots with an encoding of the updates. -/
def deltaLength (build : Build) (schema : Schema) (baseline current : Snapshot)
    (encoding : UpdateEncoding) : Nat :=
  let d := diff build schema baseline current
  HEADER_SIZE
    + ((if d.destroys.isEmpty then 0
        else sectionLength (countedLayout d.destroys.length (destroyLayout d.destroys)))
      + ((if d.creates.isEmpty then 0
          else sectionLength (countedLayout d.creates.length (createLayout schema d.creates)))
        + if d.updates.isEmpty then 0
          else sectionLength (encoding.layout build schema baseline current)))

theorem length_section_if {empty : Bool} {tag : SectionTag} {body : List UInt8} {items : Layout}
    (h : ofBytes body = render 0 items) :
    ((sectionIf (!empty) ⟨tag, body⟩).flatMap WireSection.bytes).length
      = if empty then 0 else sectionLength items := by
  have hbody : stop 0 items / 8 = body.length := by
    rw [stop, ← h, length_ofBytes]
    omega
  cases empty with
  | true => rfl
  | false =>
      show (WireSection.bytes ⟨tag, body⟩ ++ []).length = sectionLength items
      unfold sectionLength WireSection.bytes
      rw [hbody, List.append_nil, List.length_cons, List.length_append]
      show (varu32 (UInt32.ofNat body.length)).length + body.length + 1
        = 1 + (varu32 (UInt32.ofNat body.length)).length + body.length
      omega

/-- Without updates the encoding does not matter. -/
theorem delta_length_of_no_updates (h : (diff build schema baseline current).updates = [])
    (encoding other : UpdateEncoding) :
    deltaLength build schema baseline current encoding
      = deltaLength build schema baseline current other := by
  unfold deltaLength
  dsimp only
  rw [h]
  rfl

variable {tick baselineTick : SnapshotTick} {out out' : List UInt8} {n : Nat}
  {mode : EncodeUpdateMode} {scratch scratch' : CodecScratch}

theorem encode_delta_mode_length (hschema : schema.Valid) (hlen : out.length ≤ isizeMax)
    (hencode : encodeDeltaSnapshotWithScratchMode build schema tick baselineTick baseline
      current limits mode scratch out = .ok ((scratch', n), out')) :
    n = deltaLength build schema baseline current
      (chosenEncoding build schema limits baseline current mode scratch) := by
  obtain ⟨sections, hfacts, hbytes, hsize, -⟩ := encode_delta_mode_ok hschema hlen hencode
  obtain ⟨destroyBody, createBody, updateBody, hbodies, rfl⟩ := hfacts.bodies
  rw [hsize, hbytes, List.length_append, PacketHeader.length_bytes, deltaSections,
    List.flatMap_append, List.flatMap_append, List.length_append, List.length_append,
    length_section_if hbodies.destroys, length_section_if hbodies.creates,
    length_section_if hbodies.updates]
  rfl

/-- An encoder that has written updates has chosen an encoding. -/
theorem exists_choice (hupdates : (diff build schema baseline current).updates ≠ [])
    (hencode : encodeDeltaSnapshotWithScratchMode build schema tick baselineTick baseline
      current limits mode scratch out = .ok ((scratch', n), out')) :
    ∃ choice, chooseUpdateEncoding build schema baseline current limits scratch mode
      = .ok choice := by
  unfold encodeDeltaSnapshotWithScratchMode encodeDeltaPacket at hencode
  obtain ⟨-, hencode⟩ := check_fail_eq_ok.mp hencode
  obtain ⟨_, htail, -⟩ := bind_eq_ok.mp hencode
  unfold withTail at htail
  by_cases hroom : HEADER_SIZE ≤ out.length
  · rw [if_pos hroom] at htail
    obtain ⟨_, hpayload, -⟩ := bind_eq_ok.mp htail
    unfold encodeDeltaPayloadWithMode at hpayload
    obtain ⟨-, hpayload⟩ := check_fail_eq_ok.mp hpayload
    obtain ⟨_, _, hpayload⟩ := bind_eq_ok.mp hpayload
    obtain ⟨_, _, hpayload⟩ := bind_eq_ok.mp hpayload
    obtain ⟨counts, hcounts, hpayload⟩ := bind_eq_ok.mp hpayload
    obtain ⟨-, hpayload⟩ := check_fail_eq_ok.mp hpayload
    obtain ⟨-, hpayload⟩ := check_fail_eq_ok.mp hpayload
    obtain ⟨-, hpayload⟩ := check_fail_eq_ok.mp hpayload
    obtain ⟨_, _, hpayload⟩ := bind_eq_ok.mp hpayload
    obtain ⟨_, _, hpayload⟩ := bind_eq_ok.mp hpayload
    have hsome : counts.updates > 0 := by
      rw [diff_counts_eq hcounts]
      exact List.length_pos_iff.mpr hupdates
    dsimp only at hpayload
    rw [if_pos hsome] at hpayload
    obtain ⟨choice, hchoice, -⟩ := bind_eq_ok.mp hpayload
    exact ⟨choice, hchoice⟩
  · rw [if_neg hroom] at htail
    cases htail

/-- The packet of `encode_delta_snapshot` has the length of a packet with the encoding of the
smaller estimate, and that of `encode_delta_snapshot_for_client` the length of a sparse packet. The
first is no longer than a sparse and a masked packet exactly if there are no updates, or the section
of the encoding with the smaller estimate is no longer than that of the other one. -/
theorem auto_encoding_minimal_iff {components : List ComponentDef}
    (hschema : Schema.new components = .ok schema) (hlen : out.length ≤ isizeMax)
    (hauto : encodeDeltaSnapshot build schema tick baselineTick baseline current limits out
      = .ok (n, out'))
    {outSparse outSparse' : List UInt8} {m : Nat} (hlenSparse : outSparse.length ≤ isizeMax)
    (hsparse : encodeDeltaSnapshotForClient build schema tick baselineTick baseline current limits
      outSparse = .ok (m, outSparse')) :
    n = deltaLength build schema baseline current
        (estimatedEncoding (updateEntries schema (diff build schema baseline current).updates))
      ∧ m = deltaLength build schema baseline current .sparse
      ∧ (n ≤ m ∧ n ≤ deltaLength build schema baseline current .masked
        ↔ (diff build schema baseline current).updates = []
          ∨ sectionLength ((estimatedEncoding (updateEntries schema
                (diff build schema baseline current).updates)).layout build schema baseline current)
              ≤ sectionLength ((estimatedEncoding (updateEntries schema
                (diff build schema baseline current).updates)).other.layout build schema baseline
                  current)) := by
  have hvalid := (schema_new_eq_ok.mp hschema).2
  obtain ⟨_, hauto⟩ := encode_delta_auto hauto
  obtain ⟨_, hsparse⟩ := encode_delta_sparse hsparse
  have hm : m = deltaLength build schema baseline current .sparse := by
    rw [encode_delta_mode_length hvalid hlenSparse hsparse, chosen_encoding_sparse]
  have hn : n = deltaLength build schema baseline current
      (estimatedEncoding (updateEntries schema (diff build schema baseline current).updates)) := by
    have hlength := encode_delta_mode_length hvalid hlen hauto
    by_cases hupdates : (diff build schema baseline current).updates = []
    · rw [hlength]
      exact delta_length_of_no_updates hupdates _ _
    · obtain ⟨⟨encoding, scratch'⟩, hchoice⟩ := exists_choice hupdates hauto
      have hchosen : chosenEncoding build schema limits baseline current .auto .default
          = encoding := by
        unfold chosenEncoding
        rw [hchoice]
      change selectUpdateEncoding build schema limits baseline current _ = _ at hchoice
      rw [hlength, hchosen, select_update_encoding_eq hvalid hchoice]
  refine ⟨hn, hm, ?_⟩
  rw [hn, hm]
  by_cases hupdates : (diff build schema baseline current).updates = []
  · refine iff_of_true ⟨?_, ?_⟩ (.inl hupdates)
    · exact Nat.le_of_eq (delta_length_of_no_updates hupdates _ _)
    · exact Nat.le_of_eq (delta_length_of_no_updates hupdates _ _)
  · have hsome : ¬ (diff build schema baseline current).updates.isEmpty := fun h =>
      hupdates (List.isEmpty_iff.mp h)
    -- The packets differ in the update section only.
    have hle (a b : UpdateEncoding) : deltaLength build schema baseline current a
          ≤ deltaLength build schema baseline current b
        ↔ sectionLength (a.layout build schema baseline current)
          ≤ sectionLength (b.layout build schema baseline current) := by
      unfold deltaLength
      dsimp only
      rw [if_neg hsome, if_neg hsome]
      omega
    rw [hle, hle, or_iff_right hupdates]
    cases estimatedEncoding (updateEntries schema (diff build schema baseline current).updates) with
    | sparse => exact and_iff_right (Nat.le_refl _)
    | masked => exact and_iff_left (Nat.le_refl _)

/-- The delta of `goldenDelta`, as `encode_delta_snapshot` writes it into a buffer of 43 bytes. -/
def goldenMaskedDelta : List UInt8 :=
  [67, 69, 68, 83, 2, 0, 2, 0, 203, 95, 129, 138, 69, 190, 32, 147, 7, 0, 0, 0, 5, 0, 0, 0, 11, 0,
    0, 0, 3, 9, 1, 3, 0, 0, 0, 232, 1, 217, 0, 232, 1, 217, 0]

theorem auto_encoding_minimal_iff_golden :
    39 = deltaLength (goldenBuild false) goldenSchema ⟨⟨5⟩, goldenEntities⟩ ⟨⟨7⟩, goldenChanged⟩
        (estimatedEncoding (updateEntries goldenSchema
          (diff (goldenBuild false) goldenSchema ⟨⟨5⟩, goldenEntities⟩
            ⟨⟨7⟩, goldenChanged⟩).updates))
      ∧ 38 = deltaLength (goldenBuild false) goldenSchema ⟨⟨5⟩, goldenEntities⟩ ⟨⟨7⟩, goldenChanged⟩
        .sparse := by
  have hauto : encodeDeltaSnapshot (goldenBuild false) goldenSchema ⟨7⟩ ⟨5⟩ ⟨⟨5⟩, goldenEntities⟩
      ⟨⟨7⟩, goldenChanged⟩ goldenLimits (List.replicate 43 0) = .ok (39, goldenMaskedDelta) := by
    decide +kernel
  have hsparse : encodeDeltaSnapshotForClient (goldenBuild false) goldenSchema ⟨7⟩ ⟨5⟩
      ⟨⟨5⟩, goldenEntities⟩ ⟨⟨7⟩, goldenChanged⟩ goldenLimits (List.replicate 42 0)
      = .ok (38, goldenDelta) := by
    decide +kernel
  have h := auto_encoding_minimal_iff golden_schema_new (by decide) hauto (by decide) hsparse
  exact ⟨h.1, h.2.1⟩

/-- Three of four fields change. The estimate of the sparse section has two bits for each and the
bytes of three numbers, the estimate of the masked section four bits. The section is a byte longer,
for the id and the mask of the entity. -/
theorem auto_packet_longer_than_sparse :
    Schema.new goldenSchema.components = .ok goldenSchema
      ∧ Snapshot.WellFormed goldenSchema goldenEntities
      ∧ Snapshot.WellFormed goldenSchema goldenChanged
      ∧ ¬ ∀ n m out' outSparse',
        encodeDeltaSnapshot (goldenBuild false) goldenSchema ⟨7⟩ ⟨5⟩ ⟨⟨5⟩, goldenEntities⟩
            ⟨⟨7⟩, goldenChanged⟩ goldenLimits (List.replicate 43 0) = .ok (n, out') →
          encodeDeltaSnapshotForClient (goldenBuild false) goldenSchema ⟨7⟩ ⟨5⟩
              ⟨⟨5⟩, goldenEntities⟩ ⟨⟨7⟩, goldenChanged⟩ goldenLimits (List.replicate 43 0)
              = .ok (m, outSparse') →
            n ≤ m := by
  refine ⟨golden_schema_new, by decide, by decide, fun h => ?_⟩
  have hle : 39 ≤ 38 := h 39 38 goldenMaskedDelta (goldenDelta ++ [0]) (by decide +kernel)
    (by decide +kernel)
  exact absurd hle (by decide)

end Sdec
