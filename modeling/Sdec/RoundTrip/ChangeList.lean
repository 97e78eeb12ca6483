import Sdec.Format.AcceptedPacket
import Sdec.Format.ChangeList
import Sdec.RoundTrip.Acceptance

/-!
# Change lists round trip

`encode_delta_from_changes` checks the lists that it is given before it writes them, but not the
order of the components of an update, nor that of the fields of a component. Read
`listed_delta_decoded_iff` first: it says which of the packets that it reports as written are
decoded to the lists.
-/

namespace Sdec

open Rust Bits Bitstream Codec Wire Sorted

variable {build : Build} {schema : Schema} {limits : CodecLimits} {d : Diff}

/-! ## The update section -/

/-- The updates that change anything. -/
def keptUpdates (updates : List DeltaUpdateEntity) : List DeltaUpdateEntity :=
  updates.filter fun update => !update.components.isEmpty

/-- An update without components has no entries. -/
theorem update_entries_kept (updates : List DeltaUpdateEntity) :
    updateEntries schema (keptUpdates updates) = updateEntries schema updates := by
  induction updates with
  | nil => rfl
  | cons update updates ih =>
      obtain ⟨id, components⟩ := update
      cases components with
      | nil => exact ih
      | cons component components =>
          show updateEntries schema (⟨id, component :: components⟩ :: keptUpdates updates) = _
          rw [updateEntries, List.flatMap_cons, ← updateEntries, ih]
          rfl

section Updates

variable (hschema : schema.Valid) (h : ListsChecked build schema limits d)

include hschema h

/-- The entries of updates that the encoder has checked. -/
theorem listed_entry {entry : SparseEntry} (hentry : entry ∈ updateEntries schema d.updates) :
    entry.component ∈ schema.components ∧ entry.Encodes build ∧ entry.fields ≠ []
      ∧ entry.fields.length ≤ limits.maxFieldsPerComponent := by
  obtain ⟨update, hupdate, component, hcomponent, hfind, -, hfields⟩ := mem_update_entries.mp hentry
  obtain ⟨-, -, -, hne, hlimit, -⟩ := h.components update hupdate component hcomponent
  obtain ⟨definition, hmem, hid, hencodes⟩ := h.updates update hupdate component hcomponent
  rw [hid, find_definition_of_mem hschema hmem] at hfind
  obtain rfl := Option.some.inj hfind
  rw [SparseEntry.Encodes, hfields]
  exact ⟨hmem, hencodes, hne, hlimit⟩

omit hschema in
theorem listed_known : KnownComponents schema d.updates := by
  intro update hupdate component hcomponent
  obtain ⟨definition, hmem, hid, -⟩ := h.updates update hupdate component hcomponent
  exact ⟨definition, hmem, hid⟩

/-- What the decoder makes of the update section of checked updates whose field indices ascend. -/
theorem decode_listed_section_eq_ok (hindices : IndicesAscend d.updates) {body : List UInt8}
    (hbody : ofBytes body = render 0 (listedLayout schema d.updates))
    (hmax : body.length ≤ limits.maxSectionBytes) (hlong : body.length < 2 ^ 32)
    (result : List DeltaUpdateEntity) :
    Delta.decodeUpdateSectionSparsePacked build schema body limits = .ok result ↔
      (ComponentsAscend d.updates ∧ UpdatesReadable build schema d.updates)
      ∧ keptUpdates d.updates = result := by
  have hknown := listed_known h
  have hfields {entry : SparseEntry} (hentry : entry ∈ updateEntries schema d.updates) :
      (entry.fields.map Prod.fst).Pairwise (· < ·) := by
    obtain ⟨update, hupdate, component, hcomponent, -, -, hfields⟩ := mem_update_entries.mp hentry
    rw [hfields]
    exact hindices update hupdate component hcomponent
  have hencode : EntriesEncode build schema (updateEntries schema d.updates) := {
    known := fun entry hentry => (listed_entry hschema h hentry).1
    values := fun entry hentry => (listed_entry hschema h hentry).2.1
    counts := fun entry hentry => by
      obtain ⟨hmem, hencodes, -, -⟩ := listed_entry hschema h hentry
      have hcount := FieldsEncode.length_le hencodes (hfields hentry)
      have hmax := (hschema.components _ hmem).length_fields_le
      omega }
  have hkept : groupEntries [] (updateEntries schema d.updates) = keptUpdates d.updates := by
    have hgroup := @group_update_entries schema hschema [] (keptUpdates d.updates)
      ((h.updatesAscend.imp fun {a b} hlt heq => absurd (heq ▸ hlt)
        (UInt32.lt_irrefl b.id.raw)).filter _)
      (fun update hupdate => hknown update (List.mem_of_mem_filter hupdate))
      fun update hupdate => by simpa using (List.mem_filter.mp hupdate).2
    rwa [update_entries_kept, List.nil_append] at hgroup
  have hgrouped : (keptUpdates d.updates).length ≤ limits.maxEntitiesUpdate :=
    Nat.le_trans (List.length_filter_le _ _) h.updateCount
  rw [listedLayout, ← length_update_entries hschema hknown] at hbody
  rw [Delta.decodeUpdateSectionSparsePacked, sparsePackedFormat.decode_section_eq_ok hschema hencode
    hbody hlong (Nat.lt_of_le_of_lt (sparsePackedFormat.length_entries_le hbody) hlong), hkept,
    update_entries_keys_ascend hschema hknown h.updatesAscend]
  refine and_congr_left fun _ => ⟨fun haccept => ?_, fun haccept => ?_⟩
  · exact ⟨haccept.2.2.1, fun entry hentry => (haccept.2.2.2.1 entry hentry).readable⟩
  · refine ⟨hmax, h.entryCount, haccept.1, fun entry hentry => ?_, hgrouped⟩
    obtain ⟨-, -, hne, hlimit⟩ := listed_entry hschema h hentry
    exact ⟨hne, hlimit, hfields hentry, haccept.2 entry hentry⟩

end Updates

/-! ## The sections -/

section Sections

variable {header : PacketHeader} {sections : List WireSection} (hschema : schema.Valid)
  (h : ListedSections build schema limits d sections)

include hschema h

/-- Updates that are decoded have ascending field indices, and so have those that were written if
the decoder returns them. -/
theorem indices_ascend_of_decoded
    (hdecode : Delta.decodeDeltaSections build schema ⟨header, sections⟩ limits
      = .ok (d.destroys, d.creates, keptUpdates d.updates)) : IndicesAscend d.updates := by
  obtain ⟨destroyBody, createBody, updateBody, -, rfl⟩ := h.bodies
  have hsome : (!d.updates.isEmpty) = true ∨ d.updates = [] := by
    cases d.updates with
    | nil => exact .inr rfl
    | cons update updates => exact .inl rfl
  rcases hsome with hsome | hnil
  · have hsections := @decode_delta_sections_eq build schema limits header d .sparse destroyBody
      createBody updateBody
    rw [show (UpdateEncoding.sparse).tag = .entityUpdateSparsePacked from rfl, hdecode] at hsections
    obtain ⟨destroys, -, hrest⟩ := bind_eq_ok.mp hsections.symm
    obtain ⟨creates, -, hrest⟩ := bind_eq_ok.mp hrest
    obtain ⟨updates, hupdates, hrest⟩ := bind_eq_ok.mp hrest
    cases hrest
    rw [decodeIf, if_pos hsome] at hupdates
    have hensures := @decode_update_section_sparse_ensures build schema limits True hschema
      (fun _ _ => trivial) _ sparse_packed_reader_safe updateBody
    have hkept := (hensures.of_ok hupdates).2
    intro update hupdate component hcomponent
    refine hkept update (List.mem_filter.mpr ⟨hupdate, ?_⟩) component hcomponent
    rw [Bool.not_eq_true', List.isEmpty_eq_false_iff]
    exact List.ne_nil_of_mem hcomponent
  · rw [hnil]
    exact List.forall_mem_nil _

/-- What the decoder makes of the sections of change lists whose field indices ascend. -/
theorem decode_listed_sections_eq_ok (hindices : IndicesAscend d.updates)
    (hshaped : ∀ entity ∈ d.creates, entity.Shaped schema)
    {result : List EntityId × List EntitySnapshot × List DeltaUpdateEntity} :
    Delta.decodeDeltaSections build schema ⟨header, sections⟩ limits = .ok result ↔
      ((∀ entity ∈ d.creates, entity.Readable build schema)
        ∧ ComponentsAscend d.updates ∧ UpdatesReadable build schema d.updates)
      ∧ result = (d.destroys, d.creates, keptUpdates d.updates) := by
  obtain ⟨destroyBody, createBody, updateBody, hbodies, rfl⟩ := h.bodies
  have hchecked := h.checked
  have hnone (hnil : d.updates = []) : keptUpdates d.updates = [] := by
    rw [hnil]
    rfl
  refine (@decode_delta_bodies_eq_ok _ _ _ hschema _ _ .sparse _ _ _ _ _ _ hbodies h.admits
    hchecked.destroysAscend hchecked.destroyCount hchecked.createsAscend
      hchecked.createCount hshaped
    hchecked.creates hnone fun _ hmax hlong result =>
      decode_listed_section_eq_ok hschema hchecked hindices hbodies.updates hmax hlong result).trans
    (and_congr_left fun _ => and_congr_right fun _ => ⟨fun hupdates => ?_, fun h _ => h⟩)
  by_cases hnil : d.updates = []
  · rw [ComponentsAscend, UpdatesReadable, hnil]
    exact ⟨List.forall_mem_nil _, List.forall_mem_nil _⟩
  · exact hupdates hnil

end Sections

/-! ## The packet -/

/-- The number of bytes of the payload of change lists. -/
def listedSize (schema : Schema) (d : Diff) : Nat :=
  sectionSize (!d.destroys.isEmpty) (countedLayout d.destroys.length (destroyLayout d.destroys))
    + (sectionSize (!d.creates.isEmpty)
      (countedLayout d.creates.length (createLayout schema d.creates))
      + sectionSize (!d.updates.isEmpty) (listedLayout schema d.updates))

theorem ListedSections.length_bytes {sections : List WireSection}
    (h : ListedSections build schema limits d sections) :
    (sections.flatMap WireSection.bytes).length = listedSize schema d := by
  obtain ⟨destroyBody, createBody, updateBody, hbodies, rfl⟩ := h.bodies
  rw [deltaSections, List.flatMap_append, List.flatMap_append, List.length_append,
    List.length_append, length_section_bytes hbodies.destroys, length_section_bytes hbodies.creates,
    length_section_bytes hbodies.updates]
  rfl

/-- What a decoder needs of change lists beyond what the encoder checks. -/
structure ListsDecodable (build : Build) (schema : Schema) (d : Diff) : Prop where
  components : ComponentsAscend d.updates
  indices : IndicesAscend d.updates
  size : listedSize schema d < 2 ^ 32
  creates : ∀ entity ∈ d.creates, entity.Readable build schema
  updates : UpdatesReadable build schema d.updates

variable {tick baselineTick : SnapshotTick} {creates : List EntitySnapshot}
  {destroys : List EntityId} {updates : List DeltaUpdateEntity} {out out' : List UInt8} {n : Nat}

/-- What the encoder of change lists has written. -/
theorem encode_from_changes_ok (hschema : schema.Valid) (hlen : out.length ≤ isizeMax)
    (hencode : encodeDeltaFromChanges build ⟨schema, limits⟩ tick baselineTick creates
      destroys updates out = .ok (n, out')) :
    ∃ sections, ListedSections build schema limits ⟨destroys, creates, updates⟩ sections
      ∧ out'.take n
        = (PacketHeader.deltaSnapshot (schemaHash build schema) tick.raw baselineTick.raw
        (UInt32.ofNat (sections.flatMap WireSection.bytes).length)).bytes
        ++ sections.flatMap WireSection.bytes
      ∧ n = (out'.take n).length ∧ n ≤ isizeMax := by
  obtain ⟨_, sections, hputs⟩ := @puts_listed_payload build schema limits hschema
    ⟨destroys, creates, updates⟩
  obtain ⟨⟨⟨_, _⟩, _⟩, hpacket, heq⟩ := bind_eq_ok.mp hencode
  cases heq
  obtain ⟨hfacts, rfl, -, rest, rfl, hrest⟩ :=
    (@puts_encode_delta_packet build schema _ tick baselineTick _ _ _ _ hputs).of_ok hlen hpacket
  exact ⟨sections, hfacts, List.take_left, by rw [List.take_left], by omega⟩

/-- Of the change lists that the encoder reports as written, exactly those are decoded to the same
destroys, the same creates and the same updates, less the empty ones, in which the component ids of
each update and the field indices of each component ascend, whose payload length fits into its
field, and whose values the build can read. -/
theorem listed_delta_decoded_iff {components : List ComponentDef}
    (hschema : Schema.new components = .ok schema) (hnonzero : baselineTick.raw ≠ 0)
    (hshaped : ∀ entity ∈ creates, entity.Shaped schema) (hlen : out.length ≤ isizeMax)
    (hencode : encodeDeltaFromChanges build ⟨schema, limits⟩ tick baselineTick creates
      destroys updates out = .ok (n, out'))
    {wireLimits : Wire.Limits} (haccept : wireLimits.Admit (out'.take n)) :
    (∃ packet decoded, decodePacket (out'.take n) wireLimits = .ok packet
        ∧ decodeDeltaPacket build schema packet limits = .ok decoded
        ∧ decoded.destroys = destroys ∧ decoded.creates = creates
        ∧ decoded.updates = keptUpdates updates)
      ↔ ListsDecodable build schema ⟨destroys, creates, updates⟩ := by
  have hvalid := (schema_new_eq_ok.mp hschema).2
  obtain ⟨sections, hfacts, hbytes, hsize, hmax⟩ := encode_from_changes_ok hvalid hlen hencode
  rw [hbytes, List.length_append] at hsize
  have hbodies : ∀ s ∈ sections, s.body.length < 2 ^ 32 := fun s hs => (hfacts.admits s hs).2
  have hlength : (sections.flatMap WireSection.bytes).length ≤ isizeMax := by omega
  obtain ⟨header, hheader⟩ : ∃ header, header = PacketHeader.deltaSnapshot (schemaHash build schema)
    tick.raw baselineTick.raw (UInt32.ofNat (sections.flatMap WireSection.bytes).length) := ⟨_, rfl⟩
  have hdelta : header.flags.isDeltaSnapshot ∧ header.baselineTick ≠ 0
      ∧ header.schemaHash = schemaHash build schema := by
    rw [hheader]
    exact ⟨(by decide : PacketFlags.deltaSnapshot.isDeltaSnapshot), hnonzero, rfl⟩
  have hheaderValid : header.Valid := hheader ▸ PacketHeader.delta_snapshot_valid _ _ _ hnonzero
  have hpayload : header.payloadLen = UInt32.ofNat (sections.flatMap WireSection.bytes).length :=
    hheader ▸ rfl
  rw [hbytes, ← hheader] at haccept ⊢
  have hcut (hshort : (sections.flatMap WireSection.bytes).length < 2 ^ 32) :=
    decode_packet_of_sections hheaderValid hpayload hshort hbodies haccept
  constructor
  · intro h
    obtain ⟨packet, decoded, hpacket, hdecoded, hdestroys, hcreates, hupdates⟩ := h
    obtain ⟨-, hmatch, -, -⟩ := (decode_packet_eq_ok hheaderValid).mp hpacket
    have hshort : (sections.flatMap WireSection.bytes).length < 2 ^ 32 := by
      rw [hpayload, UInt32.toNat_ofNat'] at hmatch
      omega
    rw [hcut hshort] at hpacket
    cases hpacket
    obtain ⟨-, hsections, -⟩ := decode_delta_packet_eq_ok.mp hdecoded
    rw [hdestroys, hcreates, hupdates] at hsections
    have hindices := indices_ascend_of_decoded hvalid hfacts hsections
    obtain ⟨⟨hread, hcomponents, hupdatesRead⟩, -⟩ :=
      (decode_listed_sections_eq_ok hvalid hfacts hindices hshaped).mp hsections
    exact ⟨hcomponents, hindices, hfacts.length_bytes ▸ hshort, hread, hupdatesRead⟩
  · intro h
    have hshort : (sections.flatMap WireSection.bytes).length < 2 ^ 32 := by
      rw [hfacts.length_bytes]
      exact h.size
    refine ⟨_, ⟨⟨header.tick⟩, ⟨header.baselineTick⟩, destroys, creates, keptUpdates updates⟩,
      hcut hshort, decode_delta_packet_eq_ok.mpr ⟨hdelta, ?_, rfl, rfl⟩, rfl, rfl, rfl⟩
    exact (decode_listed_sections_eq_ok hvalid hfacts h.indices hshaped).mpr
      ⟨⟨h.creates, h.components, h.updates⟩, rfl⟩

/-- The packet of a destroyed entity and two updates of which the second is empty, in a buffer of 48
bytes. -/
def goldenListed : List UInt8 :=
  [67, 69, 68, 83, 2, 0, 2, 0, 203, 95, 129, 138, 69, 190, 32, 147, 7, 0, 0, 0, 5, 0, 0, 0, 16, 0,
    0, 0, 2, 5, 1, 4, 0, 0, 0, 5, 7, 1, 3, 10, 2, 40, 3, 128, 2, 40, 3, 128]

theorem listed_delta_decoded_iff_golden :
    (∃ packet decoded, decodePacket (goldenListed.take 44) .unlimited = .ok packet
        ∧ decodeDeltaPacket (goldenBuild false) goldenSchema packet goldenLimits = .ok decoded
        ∧ decoded.destroys = [⟨4⟩] ∧ decoded.creates = []
        ∧ decoded.updates = keptUpdates
          [⟨⟨3⟩, [⟨⟨10, nonzero_ten⟩, [(0, .bool true), (1, .sint 7)]⟩]⟩, ⟨⟨9⟩, []⟩])
      ↔ ListsDecodable (goldenBuild false) goldenSchema
        ⟨[⟨4⟩], [],
          [⟨⟨3⟩, [⟨⟨10, nonzero_ten⟩, [(0, .bool true), (1, .sint 7)]⟩]⟩, ⟨⟨9⟩, []⟩]⟩ := by
  have hencode : encodeDeltaFromChanges (goldenBuild false) ⟨goldenSchema, goldenLimits⟩ ⟨7⟩ ⟨5⟩ []
      [⟨4⟩] [⟨⟨3⟩, [⟨⟨10, nonzero_ten⟩, [(0, .bool true), (1, .sint 7)]⟩]⟩, ⟨⟨9⟩, []⟩]
      (List.replicate 48 0) = .ok (44, goldenListed) := by decide +kernel
  have hiff := listed_delta_decoded_iff golden_schema_new (by decide)
    (fun entity hentity => by cases hentity) (by decide) hencode
    (by decide +kernel : Wire.Limits.unlimited.Admit (goldenListed.take 44))
  exact hiff

/-- The update of `swappedEntity` with its components in the order of the schema. -/
def swappedUpdates : List DeltaUpdateEntity :=
  [⟨⟨3⟩, [⟨⟨2, nonzero_two⟩, [(0, .bool true)]⟩, ⟨⟨1, nonzero_one⟩, [(0, .bool true)]⟩]⟩]

/-- It is written, and refused by the decoder. -/
theorem listed_delta_refused :
    Schema.new swappedSchema.components = .ok swappedSchema
      ∧ (encodeDeltaFromChanges swappedBuild ⟨swappedSchema, goldenLimits⟩ ⟨7⟩ ⟨5⟩ [] []
        swappedUpdates (List.replicate 64 0)).map (fun result => result.2.take result.1)
        = .ok swappedDelta
      ∧ Wire.Limits.unlimited.Admit swappedDelta
      ∧ (decodePacket swappedDelta .unlimited).toOption.map (fun packet =>
          decodeDeltaPacket swappedBuild swappedSchema packet goldenLimits)
        = some (.error (.err (.invalidEntityOrder 3 3))) :=
  ⟨by decide, by decide +kernel, by decide +kernel, by decide +kernel⟩

end Sdec
