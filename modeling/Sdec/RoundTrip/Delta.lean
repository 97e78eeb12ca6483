import Sdec.Format.Packet
import Sdec.RoundTrip.Updates

/-!
# Deltas round trip

What the decoders make of a delta packet that an encoder wrote from two snapshots.
-/

namespace Sdec

open Rust Bits Bitstream Codec Wire Sorted

variable {build : Build} {schema : Schema} {limits : CodecLimits}

/-! ## Sections -/

/-- The decoder of the section of an update encoding. -/
def Codec.UpdateEncoding.decodeBody : UpdateEncoding → Build → Schema → List UInt8 → CodecLimits →
    Outcome CodecError (List DeltaUpdateEntity)
  | .masked => Delta.decodeUpdateSectionMasked
  | .sparse => Delta.decodeUpdateSectionSparsePacked

/-- The entries of a section that is there if `c` holds. -/
def decodeIf {α : Type} (c : Bool) (decode : Outcome CodecError (List α)) :
    Outcome CodecError (List α) :=
  if c then decode else return []

theorem decode_if_eq_ok {α : Type} {xs ys result : List α} {decode : Outcome CodecError (List α)}
    {ok : Prop} (hempty : xs = [] → ys = [])
    (h : xs ≠ [] → (decode = .ok result ↔ ok ∧ ys = result)) :
    decodeIf (!xs.isEmpty) decode = .ok result ↔ (xs ≠ [] → ok) ∧ ys = result := by
  cases xs with
  | nil =>
      obtain rfl := hempty rfl
      show (pure [] : Outcome CodecError (List α)) = .ok result ↔ _
      rw [pure_eq_ok]
      exact (and_iff_right fun hne => absurd rfl hne).symm
  | cons x xs =>
      exact (h (List.cons_ne_nil _ _)).trans
        (and_congr_left fun _ => ⟨fun hok _ => hok, fun hok => hok (List.cons_ne_nil _ _)⟩)

/-- The sections of a delta are decoded one by one. -/
theorem decode_delta_sections_eq (header : PacketHeader) (d : Diff) (encoding : UpdateEncoding)
    (destroyBody createBody updateBody : List UInt8) :
    Delta.decodeDeltaSections build schema
        ⟨header, deltaSections d encoding.tag destroyBody createBody updateBody⟩ limits
      = do
        let destroys ← decodeIf (!d.destroys.isEmpty)
          (Delta.decodeDestroySection destroyBody limits)
        let creates ← decodeIf (!d.creates.isEmpty)
          (Delta.decodeCreateSection build schema createBody limits)
        let updates ← decodeIf (!d.updates.isEmpty)
          (encoding.decodeBody build schema updateBody limits)
        return (destroys, creates, updates) := by
  simp only [Delta.decodeDeltaSections, deltaSections, List.foldlM_append]
  cases !d.destroys.isEmpty <;> cases !d.creates.isEmpty <;> cases !d.updates.isEmpty <;>
    cases encoding <;>
    simp [sectionIf, decodeIf, Delta.decodeDeltaSection, Delta.ensureFirst, UpdateEncoding.tag,
      UpdateEncoding.decodeBody]

/-- The sections of a delta are decoded to its destroys, its creates and what its update section is
decoded to. -/
theorem decode_delta_bodies_eq_ok (hschema : schema.Valid) {header : PacketHeader} {d : Diff}
    {encoding : UpdateEncoding} {updateLayout : Layout}
    {destroyBody createBody updateBody : List UInt8} {updates : List DeltaUpdateEntity} {ok : Prop}
    (hbodies : DeltaBodies schema d updateLayout destroyBody createBody updateBody)
    (hadmits : AdmitBodies limits (deltaSections d encoding.tag destroyBody createBody updateBody))
    (hdestroys : d.destroys.Pairwise fun a b => a.raw < b.raw)
    (hdestroyCount : d.destroys.length ≤ limits.maxEntitiesDestroy)
    (hcreates : Ascending d.creates) (hcreateCount : d.creates.length ≤ limits.maxEntitiesCreate)
    (hshaped : ∀ entity ∈ d.creates, entity.Shaped schema)
    (hencodes : ∀ entity ∈ d.creates, entity.Encodes build schema limits)
    (hnone : d.updates = [] → updates = [])
    (hupdate : d.updates ≠ [] → updateBody.length ≤ limits.maxSectionBytes →
      updateBody.length < 2 ^ 32 →
      ∀ result, encoding.decodeBody build schema updateBody limits = .ok result ↔ ok
        ∧ updates = result)
    {result : List EntityId × List EntitySnapshot × List DeltaUpdateEntity} :
    Delta.decodeDeltaSections build schema
        ⟨header, deltaSections d encoding.tag destroyBody createBody updateBody⟩ limits
          = .ok result ↔
      ((∀ entity ∈ d.creates, entity.Readable build schema) ∧ (d.updates ≠ [] → ok))
      ∧ result = (d.destroys, d.creates, updates) := by
  have hempty {α : Type} (xs : List α) : (!xs.isEmpty) = true ↔ xs ≠ [] := by simp
  -- each section is read back from its body, if it is there
  have hdestroy {ids : List EntityId} := @decode_if_eq_ok _ d.destroys d.destroys ids
    (Delta.decodeDestroySection destroyBody limits) True id fun hne => by
      have haccept := hadmits ⟨.entityDestroy, destroyBody⟩ (by
        rw [deltaSections, List.mem_append, List.mem_append]
        exact .inl (mem_section_if.mpr ⟨(hempty _).mpr hne, rfl⟩))
      refine (decode_destroy_section_eq_ok ?_ hbodies.destroys haccept.2
        (Nat.lt_of_le_of_lt (length_keyed_le hbodies.destroys) haccept.2)).trans
        (and_congr_left fun _ => iff_true_intro ⟨haccept.1, hdestroyCount⟩)
      rw [ascend_from_none]
      exact List.pairwise_map.mpr hdestroys
  have hcreate {entities : List EntitySnapshot} := @decode_if_eq_ok _ d.creates d.creates entities
    (Delta.decodeCreateSection build schema createBody limits)
    (∀ entity ∈ d.creates, entity.Readable build schema) id fun hne => by
      have haccept := hadmits ⟨.entityCreate, createBody⟩ (by
        rw [deltaSections, List.mem_append, List.mem_append]
        exact .inr (.inl (mem_section_if.mpr ⟨(hempty _).mpr hne, rfl⟩)))
      refine (decode_create_section_eq_ok hschema hshaped hencodes ?_ hbodies.creates
        (bits_le_usize_max haccept.2)
        (Nat.lt_of_le_of_lt (length_keyed_le hbodies.creates) haccept.2)).trans
        (and_congr_left fun _ => ⟨fun h => h.2.2, fun h => ⟨haccept.1, hcreateCount, h⟩⟩)
      rw [ascend_from_none]
      exact List.pairwise_map.mpr hcreates
  -- for the updates that is an assumption on the encoding
  have hupdated {found : List DeltaUpdateEntity} := @decode_if_eq_ok _ d.updates updates found
    (encoding.decodeBody build schema updateBody limits) ok hnone fun hne => by
      have haccept := hadmits ⟨encoding.tag, updateBody⟩ (by
        rw [deltaSections, List.mem_append, List.mem_append]
        exact .inr (.inr (mem_section_if.mpr ⟨(hempty _).mpr hne, rfl⟩)))
      exact hupdate hne haccept.1 haccept.2 found
  rw [decode_delta_sections_eq]
  simp only [bind_eq_ok, pure_eq_ok, hdestroy, hcreate, hupdated]
  constructor
  · intro h
    obtain ⟨_, ⟨-, rfl⟩, _, ⟨hread, rfl⟩, _, ⟨haccept, rfl⟩, rfl⟩ := h
    exact ⟨⟨fun entity hentity => hread (List.ne_nil_of_mem hentity) entity hentity, haccept⟩, rfl⟩
  · intro h
    obtain ⟨⟨hread, haccept⟩, rfl⟩ := h
    exact ⟨_, ⟨fun _ => trivial, rfl⟩, _, ⟨fun _ => hread, rfl⟩, _, ⟨haccept, rfl⟩, rfl⟩

/-! ## Encoding -/

/-- The payload of a packet has a section. -/
def Carries (packet : List UInt8) (section_ : WireSection) : Prop :=
  ∃ sections, decodeSections (packet.drop HEADER_SIZE) .unlimited = .ok sections
    ∧ section_ ∈ sections

theorem carries_iff {header : PacketHeader} {sections : List WireSection}
    (hlen : (sections.flatMap WireSection.bytes).length ≤ isizeMax)
    (hbodies : ∀ s ∈ sections, s.body.length < 2 ^ 32) {section_ : WireSection} :
    Carries (header.bytes ++ sections.flatMap WireSection.bytes) section_
      ↔ section_ ∈ sections := by
  have hdecode := decode_sections_unlimited hlen hbodies
  rw [Carries, ← header.length_bytes, List.drop_left, hdecode]
  constructor
  · rintro ⟨_, h, hmem⟩
    cases h
    exact hmem
  · exact fun hmem => ⟨sections, rfl, hmem⟩

/-- The encoders of deltas that scan two snapshots. -/
def EncodesDelta (build : Build) (schema : Schema) (limits : CodecLimits)
    (tick baselineTick : SnapshotTick) (baseline current : Snapshot) (out out' : List UInt8)
    (n : Nat) : Prop :=
  encodeDeltaSnapshot build schema tick baselineTick baseline current limits out = .ok (n, out')
    ∨ encodeDeltaSnapshotForClient build schema tick baselineTick baseline current limits out
      = .ok (n, out')

variable {tick baselineTick : SnapshotTick} {baseline current : Snapshot} {out out' : List UInt8}
  {n : Nat}

/-- What an encoder of deltas has written in a mode. -/
theorem encode_delta_mode_ok (hschema : schema.Valid) (hlen : out.length ≤ isizeMax)
    {mode : EncodeUpdateMode} {scratch scratch' : CodecScratch}
    (hencode : encodeDeltaSnapshotWithScratchMode build schema tick baselineTick baseline
      current limits mode scratch out = .ok ((scratch', n), out')) :
    ∃ sections, SnapshotSections build schema limits baselineTick baseline current
        (chosenEncoding build schema limits baseline current mode scratch) sections
      ∧ out'.take n
        = (PacketHeader.deltaSnapshot (schemaHash build schema) tick.raw baselineTick.raw
        (UInt32.ofNat (sections.flatMap WireSection.bytes).length)).bytes
        ++ sections.flatMap WireSection.bytes
      ∧ n = (out'.take n).length ∧ n ≤ isizeMax := by
  obtain ⟨_, sections, -, hputs⟩ := @puts_delta_payload build schema limits baseline current
    hschema baselineTick mode scratch
  obtain ⟨hfacts, rfl, -, rest, rfl, hrest⟩ :=
    (@puts_encode_delta_packet build schema _ tick baselineTick _ _ _ _ hputs).of_ok hlen hencode
  exact ⟨sections, hfacts, List.take_left, by rw [List.take_left], by omega⟩

/-- `encode_delta_snapshot` chooses the encoding of the updates. -/
theorem encode_delta_auto
    (hencode : encodeDeltaSnapshot build schema tick baselineTick baseline current
    limits out = .ok (n, out')) :
    ∃ scratch, encodeDeltaSnapshotWithScratchMode build schema tick baselineTick baseline
      current limits .auto .default out = .ok ((scratch, n), out') := by
  obtain ⟨⟨⟨scratch, _⟩, _⟩, h, heq⟩ := bind_eq_ok.mp hencode
  cases heq
  exact ⟨scratch, h⟩

/-- `encode_delta_snapshot_for_client` takes the sparse one. -/
theorem encode_delta_sparse (hencode : encodeDeltaSnapshotForClient build schema tick baselineTick
    baseline current limits out = .ok (n, out')) :
    ∃ scratch, encodeDeltaSnapshotWithScratchMode build schema tick baselineTick baseline
      current limits .sparse .default out = .ok ((scratch, n), out') := by
  obtain ⟨⟨⟨scratch, _⟩, _⟩, h, heq⟩ := bind_eq_ok.mp hencode
  cases heq
  exact ⟨scratch, h⟩

theorem chosen_encoding_sparse {scratch : CodecScratch} :
    chosenEncoding build schema limits baseline current .sparse scratch = .sparse := rfl

/-- What an encoder of deltas has written. -/
theorem encodes_delta_ok (hschema : schema.Valid) (hlen : out.length ≤ isizeMax)
    (hencode : EncodesDelta build schema limits tick baselineTick baseline current out out' n) :
    ∃ sections encoding,
      SnapshotSections build schema limits baselineTick baseline current encoding sections
      ∧ out'.take n
        = (PacketHeader.deltaSnapshot (schemaHash build schema) tick.raw baselineTick.raw
        (UInt32.ofNat (sections.flatMap WireSection.bytes).length)).bytes
        ++ sections.flatMap WireSection.bytes
      ∧ n = (out'.take n).length ∧ n ≤ isizeMax := by
  obtain ⟨mode, scratch, hencode⟩ :
      ∃ mode scratch, encodeDeltaSnapshotWithScratchMode build schema tick
      baselineTick baseline current limits mode .default out = .ok ((scratch, n), out') := by
    rcases hencode with h | h
    · exact ⟨.auto, encode_delta_auto h⟩
    · exact ⟨.sparse, encode_delta_sparse h⟩
  obtain ⟨sections, h⟩ := encode_delta_mode_ok hschema hlen hencode
  exact ⟨sections, _, h⟩

/-- The sparse delta from `goldenEntities` at tick 5 to `goldenChanged` at tick 7, in a buffer of 42
bytes. -/
def goldenDelta : List UInt8 :=
  [67, 69, 68, 83, 2, 0, 2, 0, 203, 95, 129, 138, 69, 190, 32, 147, 7, 0, 0, 0, 5, 0, 0, 0, 10, 0,
    0, 0, 5, 8, 1, 3, 10, 3, 8, 3, 236, 128, 8, 3, 236, 128]

/-! ## Acceptance of sparse sections -/

/-- The sparse sections that the encoders of deltas write are accepted exactly if in every surviving
entity the ids of the changed components ascend, and no changed value panics in its reader. -/
theorem encoded_sparse_section_accepted_iff {components : List ComponentDef}
    (hschema : Schema.new components = .ok schema) (hlen : out.length ≤ isizeMax)
    (hencode : EncodesDelta build schema limits tick baselineTick baseline current out out' n)
    {section_ : WireSection} (hsection : Carries (out'.take n) section_)
    (htag : section_.tag = .entityUpdateSparsePacked) :
    (∃ updates, Delta.decodeUpdateSectionSparsePacked build schema section_.body limits
      = .ok updates)
      ↔ ComponentsAscend (expectedUpdates build schema baseline.entities current.entities)
        ∧ UpdatesReadable build schema
          (expectedUpdates build schema baseline.entities current.entities) := by
  have hvalid := (schema_new_eq_ok.mp hschema).2
  obtain ⟨sections, encoding, hfacts, hbytes, hsize, hmax⟩ := encodes_delta_ok hvalid hlen hencode
  rw [hbytes, List.length_append] at hsize
  rw [hbytes, carries_iff (by omega) fun s hs => (hfacts.admits s hs).2] at hsection
  obtain ⟨destroyBody, createBody, updateBody, hbodies, rfl⟩ := hfacts.bodies
  have haccept := hfacts.admits section_ hsection
  obtain ⟨hsome, rfl, rfl⟩ := mem_delta_sections_sparse.mp ⟨hsection, htag⟩
  obtain ⟨hlimit, hfits⟩ := hfacts.updates hsome
  rw [← diff_updates_eq hfacts.baselineAscends hfacts.currentAscends]
  have hdecode {result : List DeltaUpdateEntity} :=
    @SparseFormat.decode_diff_section_eq_ok build schema limits _ _ sparsePackedFormat
      baseline current
      updateBody hvalid hfacts.baselineAscends hfacts.currentAscends hfacts.updateCount hlimit hfits
      hbodies.updates haccept.1 haccept.2 result
  show (∃ updates, Delta.decodeUpdateSectionSparse _ build schema updateBody limits = .ok updates)
    ↔ _
  simp only [hdecode]
  exact ⟨fun ⟨_, h, _⟩ => h, fun h => ⟨_, h, rfl⟩⟩

/-- One changed entity of `goldenSchema`. -/
theorem encoded_sparse_section_accepted_iff_golden :
    (∃ updates, Delta.decodeUpdateSectionSparsePacked (goldenBuild false) goldenSchema
        [1, 3, 10, 3, 8, 3, 236, 128] goldenLimits = .ok updates)
      ↔ ComponentsAscend
        (expectedUpdates (goldenBuild false) goldenSchema goldenEntities goldenChanged)
        ∧ UpdatesReadable (goldenBuild false) goldenSchema
          (expectedUpdates (goldenBuild false) goldenSchema goldenEntities goldenChanged) := by
  have hencode : encodeDeltaSnapshotForClient (goldenBuild false) goldenSchema ⟨7⟩ ⟨5⟩
      ⟨⟨5⟩, goldenEntities⟩ ⟨⟨7⟩, goldenChanged⟩ goldenLimits (List.replicate 42 0)
      = .ok (38, goldenDelta) := by decide +kernel
  have hcarries : Carries (goldenDelta.take 38)
      ⟨.entityUpdateSparsePacked, [1, 3, 10, 3, 8, 3, 236, 128]⟩ :=
    ⟨[⟨.entityUpdateSparsePacked, [1, 3, 10, 3, 8, 3, 236, 128]⟩], by decide +kernel, by decide⟩
  have hiff :=
    encoded_sparse_section_accepted_iff golden_schema_new (by decide) (.inr hencode) hcarries
      rfl
  exact hiff

/-- A schema whose components are not in the order of their ids. -/
def swappedSchema : Schema where
  components := [
    { id := ⟨2, nonzero_two⟩
      fields := [{ id := ⟨1, nonzero_one⟩, codec := .bool, change := .always }] },
    { id := ⟨1, nonzero_one⟩
      fields := [{ id := ⟨1, nonzero_one⟩, codec := .bool, change := .always }] }]

/-- A release build with the digest that BLAKE3 has for `swappedSchema`. -/
def swappedBuild : Build where
  overflowChecks := false
  blake3 _ := #v[
    50, 116, 101, 139, 217, 101, 31, 183, 140, 165, 210, 203, 155, 114, 109, 26,
    72, 184, 63, 237, 122, 72, 58, 187, 86, 98, 17, 119, 105, 104, 45, 152]

/-- An entity with both components of `swappedSchema`. -/
def swappedEntity (v : Bool) : EntitySnapshot :=
  ⟨⟨3⟩, [⟨⟨2, nonzero_two⟩, [.bool v]⟩, ⟨⟨1, nonzero_one⟩, [.bool v]⟩]⟩

/-- The sparse delta of an entity whose components both change. -/
def swappedDelta : List UInt8 :=
  [67, 69, 68, 83, 2, 0, 2, 0, 50, 116, 101, 139, 217, 101, 31, 183, 7, 0, 0, 0, 5, 0, 0, 0, 11, 0,
    0, 0, 5, 9, 2, 3, 2, 1, 128, 3, 1, 1, 128]

/-- Its section is refused, although the schema is valid and both snapshots are well-formed. -/
theorem encoded_sparse_section_refused :
    Schema.new swappedSchema.components = .ok swappedSchema
      ∧ Snapshot.WellFormed swappedSchema [swappedEntity false]
      ∧ Snapshot.WellFormed swappedSchema [swappedEntity true]
      ∧ (encodeDeltaSnapshotForClient swappedBuild swappedSchema ⟨7⟩ ⟨5⟩
        ⟨⟨5⟩, [swappedEntity false]⟩ ⟨⟨7⟩, [swappedEntity true]⟩ goldenLimits
        (List.replicate 64 0)).map (fun result => result.2.take result.1) = .ok swappedDelta
      ∧ Carries swappedDelta ⟨.entityUpdateSparsePacked, [2, 3, 2, 1, 128, 3, 1, 1, 128]⟩
      ∧ Delta.decodeUpdateSectionSparsePacked swappedBuild swappedSchema
        [2, 3, 2, 1, 128, 3, 1, 1, 128] goldenLimits = .error (.err (.invalidEntityOrder 3 3)) :=
  ⟨by decide, by decide, by decide, by decide +kernel,
    ⟨[⟨.entityUpdateSparsePacked, [2, 3, 2, 1, 128, 3, 1, 1, 128]⟩], by decide +kernel, by decide⟩,
    by decide +kernel⟩

/-! ## Round trip -/

/-- In a checked build, what the encoders can write the decoders can read. -/
def ReadsWhatItWrites (build : Build) (schema : Schema) : Prop :=
  build.overflowChecks → ∀ d ∈ schema.components, ∀ field ∈ d.fields, field.codec ≠ .sint 63

/-- The updates whose values can be read in an encoding, without a panic. -/
def Codec.UpdateEncoding.Readable (encoding : UpdateEncoding) (build : Build) (schema : Schema)
    (baseline current : Snapshot) : Prop :=
  match encoding with
  | .masked => ChangesReadable build schema (changedPairs build schema baseline current)
  | .sparse => UpdatesReadable build schema (diff build schema baseline current).updates

/-- The deltas whose values can be read without a panic. -/
def DeltaReadable (build : Build) (schema : Schema) (encoding : UpdateEncoding)
    (baseline current : Snapshot) : Prop :=
  (∀ entity ∈ (diff build schema baseline current).creates, entity.Readable build schema)
    ∧ ((diff build schema baseline current).updates ≠ [] →
      encoding.Readable build schema baseline current)

section Decode

variable {encoding : UpdateEncoding} {sections : List WireSection}
  (hschema : schema.Valid) (hreads : ReadsWhatItWrites build schema)
  (hcurrent : Snapshot.WellFormed schema current.entities)
  (hfacts : SnapshotSections build schema limits baselineTick baseline current encoding sections)

section Writable

include hreads

theorem updates_readable_of_fits
    (hfits : ∀ entry ∈ updateEntries schema (diff build schema baseline current).updates,
      entry.Fits build limits) :
    UpdatesReadable build schema (diff build schema baseline current).updates := by
  intro entry hentry p hp field hfield
  obtain ⟨_, -, _, -, hfind, -⟩ := mem_update_entries.mp hentry
  obtain ⟨field', hfield', -, hwritable⟩ := (hfits entry hentry).1 p hp
  obtain rfl := Option.some.inj (hfield.symm.trans hfield')
  exact FieldCodec.readable_of_writable hwritable fun hchecks =>
    hreads hchecks _ (List.mem_of_find?_eq_some hfind) field (List.mem_of_getElem? hfield)

theorem changes_readable_of_fits
    (hfits : ChangesFit build schema limits (changedPairs build schema baseline current)) :
    ChangesReadable build schema (changedPairs build schema baseline current) := by
  intro pair hpair d hd snapshot mask hscan p hp hchanged
  have hany : mask.any id :=
    List.any_eq_true.mpr ⟨p.2, (List.of_mem_zip hp).2, hchanged⟩
  obtain ⟨-, -, -, hencodes⟩ := hfits pair hpair d hd snapshot mask hscan hany
  have hfield := (List.of_mem_zip (List.of_mem_zip hp).1).1
  exact FieldCodec.readable_of_writable (hencodes p hp hchanged).2 fun hchecks =>
    hreads hchecks d hd _ hfield

theorem entity_readable_of_encodes {entity : EntitySnapshot}
    (hencodes : entity.Encodes build schema limits) : entity.Readable build schema := by
  intro d hd c hc p hp
  exact FieldCodec.readable_of_writable ((hencodes d hd c hc).values p hp).2 fun hchecks =>
    hreads hchecks d hd _ (List.of_mem_zip hp).1

include hfacts

/-- What an encoder has written can be read, where the build reads whatever it writes. -/
theorem delta_readable_of_writes : DeltaReadable build schema encoding baseline current := by
  refine ⟨fun entity hentity => entity_readable_of_encodes hreads (hfacts.creates entity hentity),
    fun hne => ?_⟩
  have hfits := hfacts.updates hne
  cases encoding with
  | masked => exact changes_readable_of_fits hreads hfits
  | sparse => exact updates_readable_of_fits hreads hfits.2

end Writable

include hschema hcurrent hfacts

/-- The sections that an encoder has written are decoded to the delta, exactly if its values can be
read and the entries of a sparse section are in order. -/
theorem decode_encoded_sections_eq_ok (header : PacketHeader)
    {result : List EntityId × List EntitySnapshot × List DeltaUpdateEntity} :
    Delta.decodeDeltaSections build schema ⟨header, sections⟩ limits = .ok result ↔
      (DeltaReadable build schema encoding baseline current
        ∧ (encoding = .sparse → (diff build schema baseline current).updates ≠ [] →
          ComponentsAscend (diff build schema baseline current).updates))
      ∧ result = ((diff build schema baseline current).destroys,
        (diff build schema baseline current).creates,
        (diff build schema baseline current).updates) := by
  obtain ⟨destroyBody, createBody, updateBody, hbodies, rfl⟩ := hfacts.bodies
  have hdestroys := @diff_destroys_ascend build schema baseline current hfacts.baselineAscends
    hfacts.currentAscends
  have hcreates := @diff_creates_ascend build schema baseline current hfacts.baselineAscends
    hfacts.currentAscends
  refine (decode_delta_bodies_eq_ok hschema hbodies hfacts.admits hdestroys hfacts.destroyCount
    hcreates hfacts.createCount (fun entity hentity => (hcurrent.entities entity ((mem_diff_creates
      hfacts.baselineAscends hfacts.currentAscends).mp hentity).1).shaped) hfacts.creates id
    fun hne hmax hlong result => (?_ : _ ↔ (encoding.Readable build schema baseline current
      ∧ (encoding = .sparse → ComponentsAscend (diff build schema baseline current).updates))
        ∧ _)).trans
    (and_congr_left fun _ => ?_)
  · have hfits := hfacts.updates hne
    cases encoding with
    | masked =>
        have hpairs : (changedPairs build schema baseline current).length ≤ updateBody.length :=
          length_keyed_le hbodies.updates
        rw [← List.length_map (f := fun p : EntitySnapshot × EntitySnapshot =>
          DeltaUpdateEntity.mk p.2.id (componentUpdates build schema p.1 p.2)),
            changed_pairs_updates]
          at hpairs
        refine (decode_masked_section_eq_ok hschema hfacts.baselineAscends
          hfacts.currentAscends hfits
          rfl hbodies.updates hlong (Nat.lt_of_le_of_lt hpairs hlong)).trans
          (and_congr_left fun _ => ⟨fun h => ⟨h.2.2, fun hno => by cases hno⟩,
            fun h => ⟨hmax, hfacts.updateCount, h.1⟩⟩)
    | sparse =>
        exact (sparsePackedFormat.decode_diff_section_eq_ok hschema hfacts.baselineAscends
          hfacts.currentAscends hfacts.updateCount hfits.1 hfits.2 hbodies.updates hmax hlong).trans
          (and_congr_left fun _ => ⟨fun h => ⟨h.2, fun _ => h.1⟩, fun h => ⟨h.2 rfl, h.1⟩⟩)
  · constructor
    · intro h
      exact ⟨⟨h.1, fun hne => (h.2 hne).1⟩, fun hsparse hne => (h.2 hne).2 hsparse⟩
    · intro h
      exact ⟨h.1.1, fun hne => ⟨h.1.2 hne, fun hsparse => h.2 hsparse hne⟩⟩

/-- What applying the sections that an encoder has written makes of the baseline, behind a header
that names the baseline and the schema. -/
theorem apply_encoded_sections_eq_ok (hbaseline : Snapshot.WellFormed schema baseline.entities)
    {header : PacketHeader} (hflags : header.flags.isDeltaSnapshot)
    (hhash : header.schemaHash = schemaHash build schema)
    (hbase : header.baselineTick = baseline.tick.raw)
    (hsorted : encoding = .sparse → (diff build schema baseline current).updates ≠ [] →
      ComponentsAscend (diff build schema baseline current).updates) {s : Snapshot} :
    applyDeltaSnapshotFromPacket build schema baseline ⟨header, sections⟩ limits = .ok s ↔
      (baseline.tick.raw ≠ 0 ∧ current.entities.length ≤ limits.maxTotalEntitiesAfterApply
        ∧ DeltaReadable build schema encoding baseline current)
      ∧ s = ⟨⟨header.tick⟩, reconstruct build schema baseline.entities current.entities⟩ := by
  have hdecode {result : List EntityId × List EntitySnapshot × List DeltaUpdateEntity} :=
    @decode_encoded_sections_eq_ok build schema limits baselineTick baseline current
      encoding sections hschema hcurrent hfacts header result
  obtain ⟨remaining, hremaining, hmerged⟩ :=
    @apply_destroys_creates_eq build schema baseline current
      hfacts.baselineAscends hfacts.currentAscends
  have hupdated := @apply_diff_updates_eq build schema hschema baseline current hbaseline hcurrent
    fun _ hb _ hc hid => hfacts.same_presence hb hc hid
  rw [apply_delta_packet_eq_ok]
  constructor
  · intro h
    obtain ⟨⟨-, hnonzero, -, -⟩, destroys, creates, updates, remaining', merged, hread, -, -, hleft,
      hmerge, htotal, hupdate, htick⟩ := h
    obtain ⟨⟨hreadable, -⟩, hresult⟩ := hdecode.mp hread
    cases hresult
    rw [hremaining] at hleft
    cases hleft
    rw [hmerged] at hmerge
    cases hmerge
    rw [hupdated] at hupdate
    rw [List.length_map] at htotal
    obtain ⟨tick', entities⟩ := s
    obtain rfl : tick' = ⟨header.tick⟩ := htick
    cases hupdate
    exact ⟨⟨hbase ▸ hnonzero, htotal, hreadable⟩, rfl⟩
  · intro h
    obtain ⟨⟨hnonzero, htotal, hreadable⟩, rfl⟩ := h
    exact ⟨⟨hflags, by rw [hbase]; exact hnonzero, hbase, hhash⟩, _, _, _, remaining, _,
      hdecode.mpr ⟨⟨hreadable, hsorted⟩, rfl⟩,
      ensure_entities_sorted_eq_ok.mpr hfacts.baselineAscends, ensure_entities_sorted_eq_ok.mpr
        (diff_creates_ascend hfacts.baselineAscends hfacts.currentAscends),
      hremaining, hmerged, by rwa [List.length_map], hupdated, rfl⟩

end Decode

/-- A delta that was encoded and is applied to its baseline gives the current snapshot, in which a
field that counts as unchanged keeps its value from the baseline. -/
theorem apply_encoded_delta {components : List ComponentDef}
    (hschema : Schema.new components = .ok schema) (hreads : ReadsWhatItWrites build schema)
    (hbaseline : Snapshot.WellFormed schema baseline.entities)
    (hcurrent : Snapshot.WellFormed schema current.entities) (hnonzero : baseline.tick.raw ≠ 0)
    (htotal : current.entities.length ≤ limits.maxTotalEntitiesAfterApply)
    (hlen : out.length ≤ isizeMax)
    (hencode : EncodesDelta build schema limits tick baselineTick baseline current out out' n)
    (hn : n < 2 ^ 32)
    (hsorted :
      (∀ section_, Carries (out'.take n) section_ → section_.tag ≠ .entityUpdateSparsePacked)
      ∨ schema.components.Pairwise fun a b => a.id.get < b.id.get)
    {wireLimits : Wire.Limits} (haccept : wireLimits.Admit (out'.take n)) :
    ∃ s, applyDeltaSnapshot build schema baseline (out'.take n) wireLimits limits = .ok s
      ∧ s.tick = tick
      ∧ s.entities = reconstruct build schema baseline.entities current.entities
      ∧ ((∀ d ∈ schema.components, ∀ field ∈ d.fields, field.change = .always) →
        s.entities = current.entities) := by
  have hvalid := (schema_new_eq_ok.mp hschema).2
  obtain ⟨sections, encoding, hfacts, hbytes, hsize, hmax⟩ := encodes_delta_ok hvalid hlen hencode
  obtain rfl := hfacts.tick
  rw [hbytes, List.length_append] at hsize
  have hbodies : ∀ s ∈ sections, s.body.length < 2 ^ 32 := fun s hs => (hfacts.admits s hs).2
  have hascend : encoding = .sparse → (diff build schema baseline current).updates ≠ [] →
      ComponentsAscend (diff build schema baseline current).updates := by
    rintro rfl hne
    refine hsorted.elim (fun hno => ?_) fun h => components_ascend_of_sorted h _ _
    obtain ⟨_, _, updateBody, -, rfl⟩ := hfacts.bodies
    obtain ⟨hmem, htag⟩ := mem_delta_sections_sparse.mpr ⟨hne, rfl, rfl⟩
    rw [hbytes] at hno
    exact absurd htag (hno _ ((carries_iff (by omega) hbodies).mpr hmem))
  rw [hbytes] at haccept ⊢
  have hpacket :=
    decode_packet_of_sections (PacketHeader.delta_snapshot_valid (schemaHash build schema)
      tick.raw (UInt32.ofNat _) hnonzero) rfl (by omega) hbodies haccept
  refine ⟨⟨tick, reconstruct build schema baseline.entities current.entities⟩, ?_, rfl, rfl,
    fun halways => reconstruct_of_always hvalid halways hbaseline hcurrent⟩
  rw [applyDeltaSnapshot, hpacket]
  exact (apply_encoded_sections_eq_ok hvalid hcurrent hfacts hbaseline
    (by decide : PacketFlags.deltaSnapshot.isDeltaSnapshot) rfl rfl hascend).mpr
    ⟨⟨hnonzero, htotal, delta_readable_of_writes hreads hfacts⟩, rfl⟩

/-- One changed entity of `goldenSchema`. -/
theorem apply_encoded_delta_golden :
    ∃ s, applyDeltaSnapshot (goldenBuild false) goldenSchema ⟨⟨5⟩, goldenEntities⟩
        (goldenDelta.take 38) .unlimited goldenLimits = .ok s
      ∧ s.tick = ⟨7⟩
      ∧ s.entities = reconstruct (goldenBuild false) goldenSchema goldenEntities goldenChanged
      ∧ ((∀ d ∈ goldenSchema.components, ∀ field ∈ d.fields, field.change = .always) →
        s.entities = goldenChanged) := by
  have hencode : encodeDeltaSnapshotForClient (goldenBuild false) goldenSchema ⟨7⟩ ⟨5⟩
      ⟨⟨5⟩, goldenEntities⟩ ⟨⟨7⟩, goldenChanged⟩ goldenLimits (List.replicate 42 0)
      = .ok (38, goldenDelta) := by decide +kernel
  have happly := apply_encoded_delta golden_schema_new (fun h => absurd h Bool.false_ne_true)
    (by decide) (by decide) (by decide) (by decide) (by decide) (.inr hencode) (by decide)
    (.inr (by decide)) (by decide +kernel : Wire.Limits.unlimited.Admit (goldenDelta.take 38))
  exact happly

/-- The field that has changed by less than its threshold keeps its value from the baseline. -/
example : reconstruct (goldenBuild false) goldenSchema goldenEntities goldenChanged
    = [⟨⟨3⟩, [⟨⟨10, by decide⟩, [.bool false, .sint 7, .uint 17, .fixedPoint (-100)]⟩]⟩,
      ⟨⟨9⟩, []⟩] := by
  decide +kernel

end Sdec
