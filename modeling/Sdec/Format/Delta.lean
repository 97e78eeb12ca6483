import Sdec.Format.Listed
import Sdec.Format.MaskedSection

/-!
# The format of delta payloads

A delta payload is a destroy section, a create section and an update section, each left out if it
has no entries. `puts_delta_payload` says what the encoders put into a buffer from two snapshots.
-/

namespace Sdec

open Rust Bits Bitstream Codec Wire Sorted

variable {build : Build} {schema : Schema} {limits : CodecLimits}

/-! ## Sections -/

/-- The sections of a delta with the given bodies. -/
def deltaSections (d : Diff) (tag : SectionTag) (destroyBody createBody updateBody : List UInt8) :
    List WireSection :=
  sectionIf (!d.destroys.isEmpty) ⟨.entityDestroy, destroyBody⟩
    ++ (sectionIf (!d.creates.isEmpty) ⟨.entityCreate, createBody⟩
      ++ sectionIf (!d.updates.isEmpty) ⟨tag, updateBody⟩)

/-- The room that the encoders need for the sections: each is written behind the longest length
varint before it is moved to its place. -/
def deltaRoom (d : Diff) (destroyBody createBody updateBody : List UInt8) : Nat :=
  max (if !d.destroys.isEmpty then 6 + destroyBody.length else 0)
    (((sectionIf (!d.destroys.isEmpty) ⟨.entityDestroy, destroyBody⟩).flatMap
      WireSection.bytes).length
      + max (if !d.creates.isEmpty then 6 + createBody.length else 0)
        (((sectionIf (!d.creates.isEmpty) ⟨.entityCreate, createBody⟩).flatMap
          WireSection.bytes).length
          + if !d.updates.isEmpty then 6 + updateBody.length else 0))

/-- The longest length varint is four bytes longer than the shortest. -/
theorem delta_room_le {d : Diff} {tag : SectionTag}
    {destroyBody createBody updateBody : List UInt8} :
    deltaRoom d destroyBody createBody updateBody
      ≤ ((deltaSections d tag destroyBody createBody updateBody).flatMap WireSection.bytes).length
        + 4 := by
  have hsection (c : Bool) (section_ : WireSection) :
      (if c then 6 + section_.body.length else 0)
        ≤ ((sectionIf c section_).flatMap WireSection.bytes).length + 4 := by
    cases c with
    | false => exact Nat.zero_le _
    | true =>
        have hpos := length_varu32_pos (UInt32.ofNat section_.body.length)
        simp only [sectionIf, if_true, List.flatMap_cons, List.flatMap_nil, List.append_nil,
          WireSection.bytes, List.length_cons, List.length_append]
        omega
  have hdestroy := hsection (!d.destroys.isEmpty) ⟨.entityDestroy, destroyBody⟩
  have hcreate := hsection (!d.creates.isEmpty) ⟨.entityCreate, createBody⟩
  have hupdate := hsection (!d.updates.isEmpty) ⟨tag, updateBody⟩
  rw [deltaRoom, deltaSections, List.flatMap_append, List.flatMap_append, List.length_append,
    List.length_append]
  simp only at hdestroy hcreate hupdate
  omega

/-- The bodies of a delta with the given layout of the updates. -/
structure DeltaBodies (schema : Schema) (d : Diff) (updateLayout : Layout)
    (destroyBody createBody updateBody : List UInt8) : Prop where
  destroys : ofBytes destroyBody
    = render 0 (countedLayout d.destroys.length (destroyLayout d.destroys))
  creates : ofBytes createBody
    = render 0 (countedLayout d.creates.length (createLayout schema d.creates))
  updates : ofBytes updateBody = render 0 updateLayout

/-- The sparse section of a delta. -/
theorem mem_delta_sections_sparse {d : Diff} {encoding : UpdateEncoding}
    {destroyBody createBody updateBody : List UInt8} {section_ : WireSection} :
    section_ ∈ deltaSections d encoding.tag destroyBody createBody updateBody
        ∧ section_.tag = .entityUpdateSparsePacked
      ↔ d.updates ≠ [] ∧ encoding = .sparse
        ∧ section_ = ⟨.entityUpdateSparsePacked, updateBody⟩ := by
  have hsome : (!d.updates.isEmpty) = true ↔ d.updates ≠ [] := by simp
  rw [deltaSections, List.mem_append, List.mem_append, mem_section_if, mem_section_if,
    mem_section_if, hsome]
  constructor
  · rintro ⟨⟨-, rfl⟩ | ⟨-, rfl⟩ | ⟨hne, rfl⟩, htag⟩
    · cases htag
    · cases htag
    · cases encoding with
      | masked => cases htag
      | sparse => exact ⟨hne, rfl, rfl⟩
  · rintro ⟨hne, rfl, rfl⟩
    exact ⟨.inr (.inr ⟨hne, rfl⟩), rfl⟩

/-- A section body is a whole number of bytes. -/
theorem exists_body (count : Nat) (entries : Layout) :
    ∃ body, ofBytes body = render 0 (countedLayout count entries) := by
  have hstop := stop_counted_layout_mod 0 count entries
  rw [stop, Nat.zero_add] at hstop
  exact exists_ofBytes_eq ((render 0 (countedLayout count entries)).length / 8) (by omega)

/-- A destroy section, a create section, and what comes behind them. -/
theorem appends_delta_sections {α : Type} {destroys creates : Bool}
    {writeDestroys writeCreates : Call CodecError BitWriter Unit}
    {next : Nat → List UInt8 → Outcome CodecError ((α × Nat) × List UInt8)}
    {destroyFacts createFacts : Prop} {facts : α → Prop} {destroyItems createItems : Layout}
    {destroyBody createBody bytes : List UInt8} {need : Nat}
    (hdestroys : Writes 0 writeDestroys (fun _ => destroyFacts) destroyItems)
    (hcreates : Writes 0 writeCreates (fun _ => createFacts) createItems)
    (hdestroyBody : ofBytes destroyBody = render 0 destroyItems)
    (hcreateBody : ofBytes createBody = render 0 createItems)
    (hnext : Appends next facts need bytes) :
    Appends (fun offset out => do
        let ((_, offset), out) ← appendSection destroys .entityDestroy limits
          writeDestroys () offset out
        let ((_, offset), out) ← appendSection creates .entityCreate limits
          writeCreates () offset out
        next offset out)
      (fun a => facts a ∧ (destroys → destroyFacts) ∧ (creates → createFacts)
        ∧ AdmitBodies limits (sectionIf destroys ⟨.entityDestroy, destroyBody⟩)
        ∧ AdmitBodies limits (sectionIf creates ⟨.entityCreate, createBody⟩))
      (max (if destroys then 6 + destroyBody.length else 0)
        (((sectionIf destroys ⟨.entityDestroy, destroyBody⟩).flatMap WireSection.bytes).length
          + max (if creates then 6 + createBody.length else 0)
            (((sectionIf creates ⟨.entityCreate, createBody⟩).flatMap WireSection.bytes).length
              + need)))
      ((sectionIf destroys ⟨.entityDestroy, destroyBody⟩).flatMap WireSection.bytes
        ++ ((sectionIf creates ⟨.entityCreate, createBody⟩).flatMap WireSection.bytes
          ++ bytes)) := by
  have hdestroyed := @appends_section limits destroyItems Unit destroys .entityDestroy writeDestroys
    (fun _ => destroys → destroyFacts) destroyBody (fun _ => hdestroys.mono fun _ h _ => h)
    hdestroyBody () fun hno h => absurd h hno
  have hcreated := @appends_section limits createItems Unit creates .entityCreate writeCreates
    (fun _ => creates → createFacts) createBody (fun _ => hcreates.mono fun _ h _ => h)
    hcreateBody () fun hno h => absurd h hno
  refine hdestroyed.bind fun _ hd => (?_ : Appends (fun offset out => do
    let ((_, offset), out) ← appendSection creates .entityCreate limits writeCreates () offset out
    next offset out) _ _ _)
  refine hcreated.bind fun _ hc => (?_ : Appends (fun offset out => next offset out) _ _ _)
  exact hnext.mono fun a ha => ⟨ha, hd.1, hc.1, hd.2, hc.2⟩

/-! ## Payloads of two snapshots -/

section Snapshots

variable {baseline current : Snapshot}

/-- The layout of the update section between two snapshots. -/
def Codec.UpdateEncoding.layout (encoding : UpdateEncoding) (build : Build) (schema : Schema)
    (baseline current : Snapshot) : Layout :=
  match encoding with
  | .masked => countedLayout (diff build schema baseline current).updates.length
      (maskedSectionLayout build schema baseline current)
  | .sparse =>
      countedLayout (updateEntries schema (diff build schema baseline current).updates).length
        (sparsePackedFormat.entriesLayout
          (updateEntries schema (diff build schema baseline current).updates))

/-- What the updates between two snapshots are if an encoding can be written. -/
def Codec.UpdateEncoding.Fits (encoding : UpdateEncoding) (build : Build) (schema : Schema)
    (limits : CodecLimits) (baseline current : Snapshot) : Prop :=
  match encoding with
  | .masked => ChangesFit build schema limits (changedPairs build schema baseline current)
  | .sparse => (updateEntries schema (diff build schema baseline current).updates).length
      ≤ saturatingMul limits.maxEntitiesUpdate limits.maxComponentsPerEntity
    ∧ ∀ entry ∈ updateEntries schema (diff build schema baseline current).updates,
      entry.Fits build limits

theorem writes_update_body (hschema : schema.Valid) (encoding : UpdateEncoding)
    (scratch : CodecScratch) :
    Writes 0 (encoding.encodeBody build schema baseline current
        (diff build schema baseline current).updates.length limits scratch)
      (fun _ => encoding.Fits build schema limits baseline current)
      (encoding.layout build schema baseline current) := by
  cases encoding with
  | masked => exact writes_encode_masked_body.mono fun _ h => h.2
  | sparse =>
      exact (sparsePackedFormat.writes_encode_update_body hschema).mono fun _ h => h.2

/-- The destroy section between two snapshots is that of the list of destroyed entities. -/
theorem encode_destroy_body_eq :
    Delta.encodeDestroyBody baseline current
      (diff build schema baseline current).destroys.length limits
      = Delta.encodeDestroyBodyFromList (diff build schema baseline current).destroys limits := by
  rw [Delta.encodeDestroyBody, Delta.encodeDestroyBodyFromList,
    forM_filterMap (f := destroyStep) (g := fun id => Delta.writeDestroy id.raw)
      fun step => by cases step <;> rfl]
  rfl

/-- The create section between two snapshots is that of the list of created entities. -/
theorem encode_create_body_eq :
    Delta.encodeCreateBody build schema baseline current
        (diff build schema baseline current).creates.length limits
      = Delta.encodeCreateBodyFromList build schema (diff build schema baseline current).creates
        limits := by
  rw [Delta.encodeCreateBody, Delta.encodeCreateBodyFromList,
    forM_filterMap (f := createStep) (g := fun entity =>
      Delta.writeCreateEntity build schema entity limits) fun step => by cases step <;> rfl]
  rfl

/-- What is known of the sections that an encoder has written for two snapshots. -/
structure SnapshotSections (build : Build) (schema : Schema) (limits : CodecLimits)
    (baselineTick : SnapshotTick) (baseline current : Snapshot) (encoding : UpdateEncoding)
    (sections : List WireSection) : Prop where
  tick : baseline.tick = baselineTick
  baselineAscends : Ascending baseline.entities
  currentAscends : Ascending current.entities
  presence : ∀ b c, .both b c ∈ mergeSteps baseline current → SamePresence schema b c
  destroyCount : (diff build schema baseline current).destroys.length ≤ limits.maxEntitiesDestroy
  createCount : (diff build schema baseline current).creates.length ≤ limits.maxEntitiesCreate
  updateCount : (diff build schema baseline current).updates.length ≤ limits.maxEntitiesUpdate
  creates : ∀ entity ∈ (diff build schema baseline current).creates,
    entity.Encodes build schema limits
  updates : (diff build schema baseline current).updates ≠ [] →
    encoding.Fits build schema limits baseline current
  bodies : ∃ destroyBody createBody updateBody,
    DeltaBodies schema (diff build schema baseline current)
      (encoding.layout build schema baseline current) destroyBody createBody updateBody
    ∧ sections
      = deltaSections (diff build schema baseline current) encoding.tag destroyBody createBody
      updateBody
  admits : AdmitBodies limits sections

/-- An entity in both snapshots has the same components in both. -/
theorem SnapshotSections.same_presence {baselineTick : SnapshotTick} {encoding : UpdateEncoding}
    {sections : List WireSection}
    (h : SnapshotSections build schema limits baselineTick baseline current encoding sections)
    {b c : EntitySnapshot} (hb : b ∈ baseline.entities) (hc : c ∈ current.entities)
    (hid : b.id = c.id) : SamePresence schema b c :=
  h.presence b c ((mem_walk_both h.baselineAscends h.currentAscends).mpr
    ⟨hb, hc, congrArg EntityId.raw hid⟩)

theorem ensure_entities_sorted_eq_ok {entities : List EntitySnapshot} {u : Unit} :
    ensureEntitiesSorted entities = .ok u ↔ Ascending entities := by
  rw [ensureEntitiesSorted, ensure_sorted_eq_ok, ascend_from_none]
  exact List.pairwise_map

/-- The update encoding that a mode chooses, if it can choose one. -/
def chosenEncoding (build : Build) (schema : Schema) (limits : CodecLimits)
    (baseline current : Snapshot) (mode : EncodeUpdateMode) (scratch : CodecScratch) :
    UpdateEncoding :=
  match chooseUpdateEncoding build schema baseline current limits scratch mode with
  | .ok choice => choice.1
  | .error _ => .masked

/-- The section of updates, whose encoding is chosen after the other sections are written. -/
theorem appends_update_section (hschema : schema.Valid) {mode : EncodeUpdateMode}
    {scratch : CodecScratch} {encoding : UpdateEncoding} {updateBody : List UInt8}
    {updates : List DeltaUpdateEntity}
    (hencoding : encoding = chosenEncoding build schema limits baseline current mode scratch)
    (hupdates : updates = (diff build schema baseline current).updates)
    (hlayout : ofBytes updateBody = render 0 (encoding.layout build schema baseline current)) :
    Appends (fun offset out => do
      if updates.length > 0 then
        let choice ← chooseUpdateEncoding build schema baseline current limits scratch mode
        appendSection true choice.1.tag limits
          (choice.1.encodeBody build schema baseline current updates.length limits choice.2)
          choice.2 offset out
      else
        return ((scratch, offset), out))
      (fun _ => (updates ≠ [] → encoding.Fits build schema limits baseline current)
        ∧ AdmitBodies limits (sectionIf (!updates.isEmpty) ⟨encoding.tag, updateBody⟩))
      (if !updates.isEmpty then 6 + updateBody.length else 0)
      ((sectionIf (!updates.isEmpty) ⟨encoding.tag, updateBody⟩).flatMap WireSection.bytes) := by
  cases hsome : updates with
  | nil => exact Appends.pure ⟨fun h => absurd rfl h, fun s hs => by cases hs⟩
  | cons first rest =>
      cases hchoose : chooseUpdateEncoding build schema baseline current limits scratch mode with
      | error e => exact .inl fun _ _ _ => ⟨e, rfl⟩
      | ok p =>
          obtain rfl : encoding = p.1 := by rw [hencoding, chosenEncoding, hchoose]
          have hbody := @writes_update_body build schema limits baseline current hschema p.1 p.2
          rw [← hupdates, hsome] at hbody
          have hsection := @appends_section limits _ _ true p.1.tag _ _ updateBody
            (fun _ => hbody) hlayout p.2 fun h => absurd rfl h
          exact hsection.mono fun _ h => ⟨fun _ => h.1, h.2⟩

/-- What an encoder puts into a buffer for two snapshots. -/
theorem puts_delta_payload (hschema : schema.Valid) (baselineTick : SnapshotTick)
    (mode : EncodeUpdateMode) (scratch : CodecScratch) :
    ∃ need sections, need ≤ (sections.flatMap WireSection.bytes).length + 4 ∧ Puts
      (encodeDeltaPayloadWithMode build schema baselineTick baseline current limits mode scratch)
      (fun _ => SnapshotSections build schema limits baselineTick baseline current
        (chosenEncoding build schema limits baseline current mode scratch) sections)
      need (sections.flatMap WireSection.bytes) := by
  obtain ⟨d, hd⟩ : ∃ d, d = diff build schema baseline current := ⟨_, rfl⟩
  obtain ⟨encoding, hencoding⟩ : ∃ encoding,
      encoding = chosenEncoding build schema limits baseline current mode scratch := ⟨_, rfl⟩
  obtain ⟨destroyBody, hdestroy⟩ := exists_body d.destroys.length (destroyLayout d.destroys)
  obtain ⟨createBody, hcreate⟩ := exists_body d.creates.length (createLayout schema d.creates)
  obtain ⟨updateBody, hupdate⟩ : ∃ body,
      ofBytes body = render 0 (encoding.layout build schema baseline current) := by
    cases encoding <;> exact exists_body _ _
  have hflags : decide (d.destroys.length > 0) = !d.destroys.isEmpty
      ∧ decide (d.creates.length > 0) = !d.creates.isEmpty := by
    cases d.destroys <;> cases d.creates <;> simp
  have hupdates := @appends_update_section build schema limits baseline current hschema mode scratch
    encoding updateBody d.updates hencoding (congrArg Diff.updates hd) hupdate
  have hsections :=
    @appends_delta_sections limits _ (!d.destroys.isEmpty) (!d.creates.isEmpty) _ _ _
      _ _ _ _ _ _ _ _ _ (@writes_encode_destroy_body limits 0 d.destroys)
      (@writes_encode_create_body build schema limits 0 d.creates) hdestroy hcreate hupdates
  refine ⟨deltaRoom d destroyBody createBody updateBody,
    deltaSections d encoding.tag destroyBody createBody updateBody, delta_room_le, ?_⟩
  -- the checks of the source, in its order
  unfold encodeDeltaPayloadWithMode deltaRoom
  refine Puts.check fun htick => Puts.lift fun _ hbaseline => Puts.lift fun _ hcurrent =>
    Puts.lift fun counts hcounts => ?_
  have hpresence {b c : EntitySnapshot} :=
    @diff_counts_presence build schema limits _ _ _ hcounts b c
  obtain rfl := diff_counts_eq hcounts
  simp only [encode_destroy_body_eq, encode_create_body_eq]
  rw [← hd, hflags.1, hflags.2]
  refine Puts.check fun hcreates => Puts.check fun hupdated => Puts.check fun hdestroys => ?_
  rw [deltaSections, List.flatMap_append, List.flatMap_append]
  refine (hsections.mono fun a h => ?_).puts
  obtain ⟨⟨hfits, hadmits₃⟩, _, hcreated, hadmits₁, hadmits₂⟩ := h
  subst hd
  rw [← hencoding]
  exact {
    tick := Decidable.not_not.mp htick
    baselineAscends := ensure_entities_sorted_eq_ok.mp hbaseline
    currentAscends := ensure_entities_sorted_eq_ok.mp hcurrent
    presence := fun _ _ => hpresence
    destroyCount := Nat.le_of_not_lt hdestroys
    createCount := Nat.le_of_not_lt hcreates
    updateCount := Nat.le_of_not_lt hupdated
    creates := fun entity hentity => by
      refine (hcreated ?_).2 entity hentity
      rw [Bool.not_eq_true', List.isEmpty_eq_false_iff_exists_mem]
      exact ⟨entity, hentity⟩
    updates := hfits
    bodies := ⟨destroyBody, createBody, updateBody, ⟨hdestroy, hcreate, hupdate⟩, rfl⟩
    admits := List.forall_mem_append.mpr
      ⟨hadmits₁, List.forall_mem_append.mpr ⟨hadmits₂, hadmits₃⟩⟩ }

end Snapshots

end Sdec
