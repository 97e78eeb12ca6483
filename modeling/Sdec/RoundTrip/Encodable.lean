import Sdec.Format.Succeeds
import Sdec.RoundTrip.ChangeList

/-!
# Which change lists can be encoded

`encode_delta_from_changes` checks the lists, the values and the sizes of the sections. Read
`encode_from_changes_iff` first: with room for the packet, nothing else makes it fail.
-/

namespace Sdec

open Rust Bits Bitstream Codec Wire Sorted

variable {build : Build} {schema : Schema} {limits : CodecLimits} {pos : Nat}

/-! ## Bodies -/

theorem emits_encode_destroy_body {destroys : List EntityId}
    (hcount : destroys.length ≤ limits.maxEntitiesDestroy) :
    Emits pos (Delta.encodeDestroyBodyFromList destroys limits) True
      (countedLayout destroys.length (destroyLayout destroys)) () := by
  unfold Delta.encodeDestroyBodyFromList
  rw [if_neg (Nat.not_lt.mpr hcount), countedLayout, ← List.singleton_append]
  refine emits_align.seq ?_
  refine (emits_write_varu32 (by rw [stop_align, add_padding_mod]) _).map_err.seq ?_
  refine Emits.seq (a := PUnit.unit) (Emits.forM fun id _ pos => ?_) emits_align
  rw [List.append_nil, ← List.singleton_append]
  exact emits_align.seq (emits_write_u32_aligned (by rw [stop_align, add_padding_mod]) _).map_err

theorem emits_write_full_component {component : ComponentDef} {snapshot : ComponentSnapshot}
    (h : component.Encodes build limits snapshot.fields) :
    Emits pos (Delta.writeFullComponent build component snapshot limits) True
      (denseLayout component snapshot.fields) () := by
  have hlimit := h.limit
  have hlength := h.length
  unfold Delta.writeFullComponent
  rw [if_neg (by omega), if_neg (by omega)]
  exact emits_write_all_fields h

theorem emits_write_create_entity {entity : EntitySnapshot}
    (hknown : ensureKnownComponents schema entity = .ok ())
    (hencodes : entity.Encodes build schema limits) :
    Emits pos (Delta.writeCreateEntity build schema entity limits) True
      (.align :: (bytes (leBytes 4 entity.id.raw.toNat)
        ++ componentsLayout schema (denseContent entity))) () := by
  have hmask {pos : Nat} : Emits pos (writeComponentMask schema entity) True
      (flags (schema.components.map fun component => (denseContent entity component).isSome))
      () := by
    simp only [denseContent, Option.isSome_map]
    exact emits_mask _ _
  unfold Delta.writeCreateEntity
  rw [← List.singleton_append, componentsLayout]
  refine emits_align.seq ?_
  refine (emits_write_u32_aligned (by rw [stop_align, add_padding_mod]) _).map_err.seq ?_
  rw [hknown]
  refine hmask.seq (Emits.forM fun component hcomponent pos => ?_)
  rw [denseContent]
  cases hfind : findComponent entity component.id with
  | none => exact Emits.pure PUnit.unit
  | some snapshot =>
      exact emits_write_full_component (hencodes component hcomponent snapshot hfind)

theorem emits_encode_create_body {creates : List EntitySnapshot}
    (hcount : creates.length ≤ limits.maxEntitiesCreate)
    (hknown : ∀ entity ∈ creates, ensureKnownComponents schema entity = .ok ())
    (hencodes : ∀ entity ∈ creates, entity.Encodes build schema limits) :
    Emits pos (Delta.encodeCreateBodyFromList build schema creates limits) True
      (countedLayout creates.length (createLayout schema creates)) () := by
  unfold Delta.encodeCreateBodyFromList
  rw [if_neg (Nat.not_lt.mpr hcount), countedLayout, ← List.singleton_append]
  refine emits_align.seq ?_
  refine (emits_write_varu32 (by rw [stop_align, add_padding_mod]) _).map_err.seq ?_
  refine Emits.seq (a := PUnit.unit) (Emits.forM fun entity hentity pos => ?_) emits_align
  exact emits_write_create_entity (hknown entity hentity) (hencodes entity hentity)

/-! ## Sections -/

/-- The room that a section needs while it is written: its length is first put behind the longest
varint. -/
theorem append_section_ok (tag : SectionTag) {c : Bool}
    {writeBody : Call CodecError BitWriter Unit} {items : Layout} {body : List UInt8}
    (done rest : List UInt8)
    (h : c = true → Emits 0 writeBody True items ()) (hbody : ofBytes body = render 0 items)
    (hadmits : AdmitBodies limits (sectionIf c ⟨tag, body⟩))
    (hlen : (done ++ rest).length ≤ isizeMax)
    (hroom : (if c then 6 + body.length else 0) ≤ rest.length) :
    ∃ tail, appendSection c tag limits writeBody () done.length (done ++ rest)
        = .ok (((), (done ++ (sectionIf c ⟨tag, body⟩).flatMap WireSection.bytes).length),
          done ++ (sectionIf c ⟨tag, body⟩).flatMap WireSection.bytes ++ tail)
      ∧ ((sectionIf c ⟨tag, body⟩).flatMap WireSection.bytes).length + tail.length
        = rest.length := by
  cases c with
  | false => exact ⟨rest, by simp [appendSection, sectionIf], by simp [sectionIf]⟩
  | true =>
      obtain ⟨hmax, hlong⟩ := hadmits ⟨tag, body⟩ (mem_section_if.mpr ⟨rfl, rfl⟩)
      obtain ⟨tail, hwrite, hlength⟩ :=
        @write_section_ok limits items Unit tag writeBody () body rest (h rfl) hbody hmax hlong
          hroom
      have hadd : done.length + (WireSection.bytes ⟨tag, body⟩).length ≤ usizeMax := by
        rw [List.length_append] at hlen
        simp only [isizeMax, usizeMax] at *
        omega
      refine ⟨tail, ?_, by simpa [sectionIf] using hlength⟩
      rw [appendSection, if_pos rfl, withTail, if_pos (by simp), List.drop_left, List.take_left,
        hwrite]
      simp only [ok_bind, pure_bind, usize_add_of_le hadd, sectionIf, if_true, List.flatMap_cons,
        List.flatMap_nil, List.append_nil, List.length_append, List.append_assoc]
      rfl

/-- A section of the layout is within the limits. -/
def SectionFits (limits : CodecLimits) (items : Layout) : Prop :=
  bodySize items ≤ limits.maxSectionBytes ∧ bodySize items < 2 ^ 32

/-- The change lists that can be encoded. -/
structure ListsEncodable (build : Build) (schema : Schema) (limits : CodecLimits) (d : Diff) :
    Prop where
  checked : ListsChecked build schema limits d
  known : ∀ entity ∈ d.creates, ∀ c ∈ entity.components, ∃ definition ∈ schema.components,
    c.id = definition.id
  destroys : d.destroys ≠ [] →
    SectionFits limits (countedLayout d.destroys.length (destroyLayout d.destroys))
  creates : d.creates ≠ [] →
    SectionFits limits (countedLayout d.creates.length (createLayout schema d.creates))
  updates : d.updates ≠ [] → SectionFits limits (listedLayout schema d.updates)

theorem body_size_eq {items : Layout} {body : List UInt8} (hbody : ofBytes body = render 0 items) :
    bodySize items = body.length := by
  rw [bodySize, ← hbody, length_ofBytes, Nat.mul_div_cancel_left _ (by omega)]

theorem admit_bodies_of_fits {α : Type} {xs : List α} {tag : SectionTag} {items : Layout}
    {body : List UInt8} (h : xs ≠ [] → SectionFits limits items)
    (hbody : ofBytes body = render 0 items) :
    AdmitBodies limits (sectionIf (!xs.isEmpty) ⟨tag, body⟩) := by
  intro s hs
  obtain ⟨hsome, rfl⟩ := mem_section_if.mp hs
  have hfits := h (by simpa using hsome)
  rwa [SectionFits, body_size_eq hbody] at hfits

variable {d : Diff} {out : List UInt8}

/-- The payload of lists that can be encoded. -/
theorem encode_listed_payload_ok (hschema : schema.Valid)
    (h : ListsEncodable build schema limits d) (hlen : out.length ≤ isizeMax)
    (hroom : listedSize schema d + 4 ≤ out.length) :
    ∃ n out', encodeDeltaPayloadFromUpdates build schema d.destroys d.creates d.updates limits out
        = .ok (n, out') ∧ n ≤ out.length ∧ out'.length = out.length := by
  have hchecked := h.checked
  have hentries := length_update_entries hschema fun update hupdate component hcomponent => by
    obtain ⟨definition, hmem, hid, -⟩ := hchecked.components update hupdate component hcomponent
    exact ⟨definition, hmem, hid⟩
  have hknown (entity : EntitySnapshot) (hentity : entity ∈ d.creates) :
      ensureKnownComponents schema entity = .ok () := ensure_known_of_mem (h.known entity hentity)
  obtain ⟨destroyBody, hdestroy⟩ := exists_body d.destroys.length (destroyLayout d.destroys)
  obtain ⟨createBody, hcreate⟩ := exists_body d.creates.length (createLayout schema d.creates)
  obtain ⟨updateBody, hupdate⟩ : ∃ body, ofBytes body = render 0 (listedLayout schema d.updates) :=
    exists_body _ _
  have hsize : ((deltaSections d .entityUpdateSparsePacked destroyBody createBody
      updateBody).flatMap WireSection.bytes).length = listedSize schema d := by
    rw [deltaSections, List.flatMap_append, List.flatMap_append, List.length_append,
      List.length_append, length_section_bytes hdestroy, length_section_bytes hcreate,
      length_section_bytes hupdate]
    rfl
  have hneed := @delta_room_le d .entityUpdateSparsePacked destroyBody createBody updateBody
  rw [hsize, deltaRoom] at hneed
  have hupdateEmits : Emits 0 (Delta.encodeUpdateBodySparsePackedFromUpdates build schema d.updates
      limits (Delta.buildComponentLookup schema)) True (listedLayout schema d.updates) () := by
    rw [listedLayout, ← hentries]
    exact emits_encode_listed_body hschema hchecked.updateCount hchecked.entryCount hchecked.updates
  obtain ⟨rest₁, hfirst, hrest₁⟩ := append_section_ok .entityDestroy [] out
    (c := !d.destroys.isEmpty)
    (fun _ => emits_encode_destroy_body hchecked.destroyCount) hdestroy
    (admit_bodies_of_fits h.destroys hdestroy) hlen (by omega)
  rw [List.nil_append] at hfirst
  obtain ⟨first, hfirstEq⟩ : ∃ first, first = (sectionIf (!d.destroys.isEmpty)
    ⟨.entityDestroy, destroyBody⟩).flatMap WireSection.bytes := ⟨_, rfl⟩
  rw [← hfirstEq] at hfirst hrest₁ hneed
  obtain ⟨rest₂, hsecond, hrest₂⟩ := append_section_ok .entityCreate first rest₁
    (c := !d.creates.isEmpty)
    (fun _ => emits_encode_create_body hchecked.createCount hknown hchecked.creates) hcreate
    (admit_bodies_of_fits h.creates hcreate) (by rw [List.length_append]; omega) (by omega)
  obtain ⟨second, hsecondEq⟩ : ∃ second, second = (sectionIf (!d.creates.isEmpty)
    ⟨.entityCreate, createBody⟩).flatMap WireSection.bytes := ⟨_, rfl⟩
  rw [← hsecondEq] at hsecond hrest₂ hneed
  obtain ⟨rest₃, hthird, hrest₃⟩ := append_section_ok .entityUpdateSparsePacked
    (first ++ second) rest₂ (c := !d.updates.isEmpty) (fun _ => hupdateEmits)
    hupdate (admit_bodies_of_fits h.updates hupdate)
    (by rw [List.length_append, List.length_append]; omega) (by omega)
  obtain ⟨third, hthirdEq⟩ : ∃ third, third = (sectionIf (!d.updates.isEmpty)
    ⟨.entityUpdateSparsePacked, updateBody⟩).flatMap WireSection.bytes := ⟨_, rfl⟩
  rw [← hthirdEq] at hthird hrest₃
  refine ⟨(first ++ second ++ third).length, first ++ second ++ third ++ rest₃, ?_, ?_, ?_⟩
  · unfold encodeDeltaPayloadFromUpdates
    rw [if_neg (Nat.not_lt.mpr hchecked.destroyCount),
      if_neg (Nat.not_lt.mpr hchecked.createCount), if_neg (Nat.not_lt.mpr hchecked.updateCount),
      (ensure_entity_ids_sorted_eq_ok (u := ())).mpr hchecked.destroysAscend,
      (ensure_entities_sorted_eq_ok (u := ())).mpr hchecked.createsAscend]
    simp only [ok_bind]
    rw [(validate_updates_eq_ok hschema (u := ())).mpr ⟨hchecked.updatesAscend, fun update hmem =>
      ⟨hchecked.componentCount update hmem, hchecked.components update hmem⟩⟩]
    simp only [ok_bind]
    rw [show appendSection (!d.destroys.isEmpty) .entityDestroy limits
      (Delta.encodeDestroyBodyFromList d.destroys limits) () 0 out = _ from hfirst]
    simp only [ok_bind, List.nil_append, hsecond, hthird]
    rfl
  · simp only [List.length_append]
    omega
  · simp only [List.length_append]
    omega

/-! ## Packets -/

variable {tick baselineTick : SnapshotTick}

/-- The packet of lists that can be encoded. -/
theorem encode_from_changes_succeeds (hschema : schema.Valid)
    (h : ListsEncodable build schema limits d) (hlen : out.length ≤ isizeMax)
    (hroom : HEADER_SIZE + listedSize schema d + 4 ≤ out.length) :
    ∃ result, encodeDeltaFromChanges build ⟨schema, limits⟩ tick baselineTick d.creates d.destroys
      d.updates out = .ok result := by
  have hheader : HEADER_SIZE ≤ out.length := by omega
  have hdrop : (out.drop HEADER_SIZE).length = out.length - HEADER_SIZE := List.length_drop
  obtain ⟨n, tail, hpayload, hn, htail⟩ := @encode_listed_payload_ok build schema limits d
    (out.drop HEADER_SIZE) hschema h (by omega) (by omega)
  have hadd : HEADER_SIZE + n ≤ usizeMax := by
    simp only [isizeMax, usizeMax] at *
    omega
  have hwrite := @write_header_eq (PacketHeader.deltaSnapshot (schemaHash build schema) tick.raw
    baselineTick.raw (UInt32.ofNat n)) (out.take HEADER_SIZE ++ tail) (by
      rw [List.length_append, List.length_take]
      omega)
  unfold encodeDeltaFromChanges encodeDeltaSnapshotFromUpdates encodeDeltaPacket
  rw [if_neg (Nat.not_lt.mpr hheader), withTail, if_pos hheader]
  simp only [hpayload, ok_bind, pure_bind, hwrite, usize_add_of_le hadd]
  exact ⟨_, rfl⟩

/-! ## Unknown components -/

theorem append_section_facts {c : Bool} {tag : SectionTag} {α : Type} {a : α}
    {writeBody : Call CodecError BitWriter α} {facts : α → Prop} {items : Layout}
    {body : List UInt8} {offset : Nat} {result : (α × Nat) × List UInt8}
    (h : Writes 0 writeBody facts items) (hbody : ofBytes body = render 0 items)
    (hrun : appendSection c tag limits writeBody a offset out = .ok result) (hc : c = true) :
    ∃ a, facts a := by
  rw [appendSection, if_pos hc] at hrun
  obtain ⟨_, htail, -⟩ := bind_eq_ok.mp hrun
  rw [withTail] at htail
  split at htail
  case isFalse => cases htail
  case isTrue hoffset =>
    obtain ⟨_, hsection, -⟩ := bind_eq_ok.mp htail
    unfold writeSection at hsection
    obtain ⟨-, hsection⟩ := check_fail_eq_ok.mp hsection
    obtain ⟨_, hslice, hsection⟩ := bind_eq_ok.mp hsection
    obtain ⟨⟨a, writer⟩, hbodyRun, -⟩ := bind_eq_ok.mp hsection
    exact ⟨a, (run_on_of_writes h hbody hbodyRun).1⟩

theorem ensure_known_eq_ok {entity : EntitySnapshot} {u : Unit} :
    ensureKnownComponents schema entity = .ok u
      ↔ ∀ c ∈ entity.components, ∃ definition ∈ schema.components, c.id = definition.id := by
  refine ⟨fun h c hc => ?_, ensure_known_of_mem⟩
  have hcheck := forM_eq_ok.mp h c hc
  split at hcheck
  case isTrue => cases hcheck
  case isFalse hno =>
    simpa [@eq_comm _ c.id] using hno

/-- Creates that the encoder has written have components of the schema. -/
theorem writes_encode_known_body (creates : List EntitySnapshot) :
    Writes pos (Delta.encodeCreateBodyFromList build schema creates limits)
      (fun _ => ∀ entity ∈ creates, ∀ c ∈ entity.components, ∃ definition ∈ schema.components,
        c.id = definition.id)
      (countedLayout creates.length (createLayout schema creates)) := by
  unfold Delta.encodeCreateBodyFromList
  refine Writes.check fun _ => writes_counted fun pos => ?_
  refine (Writes.forM fun entity _ pos => ?_).bind fun _ h => writes_align.mono fun _ _ => h
  unfold Delta.writeCreateEntity
  refine writes_align.cons fun _ _ => (writes_write_id entity.id.raw).bind fun _ _ => ?_
  refine Writes.lift fun _ hknown => ?_
  refine (writes_write_component_mask entity).bind fun _ _ => ?_
  exact (writes_write_components fun component snapshot _ =>
    writes_write_full_component component snapshot).mono fun _ _ => ensure_known_eq_ok.mp hknown

/-- The encoder checks the components of the creates while it writes them. -/
theorem creates_known_of_payload {result : Nat × List UInt8} {createBody : List UInt8}
    (hbody : ofBytes createBody
      = render 0 (countedLayout d.creates.length (createLayout schema d.creates)))
    (hpayload : encodeDeltaPayloadFromUpdates build schema d.destroys d.creates d.updates limits out
      = .ok result) :
    ∀ entity ∈ d.creates, ∀ c ∈ entity.components, ∃ definition ∈ schema.components,
      c.id = definition.id := by
  intro entity hentity
  unfold encodeDeltaPayloadFromUpdates at hpayload
  obtain ⟨-, hpayload⟩ := check_fail_eq_ok.mp hpayload
  obtain ⟨-, hpayload⟩ := check_fail_eq_ok.mp hpayload
  obtain ⟨-, hpayload⟩ := check_fail_eq_ok.mp hpayload
  obtain ⟨_, -, hpayload⟩ := bind_eq_ok.mp hpayload
  obtain ⟨_, -, hpayload⟩ := bind_eq_ok.mp hpayload
  obtain ⟨_, -, hpayload⟩ := bind_eq_ok.mp hpayload
  obtain ⟨_, -, hpayload⟩ := bind_eq_ok.mp hpayload
  obtain ⟨_, hcreates, -⟩ := bind_eq_ok.mp hpayload
  obtain ⟨_, hknown⟩ := append_section_facts (writes_encode_known_body d.creates) hbody hcreates
    (by simpa using List.ne_nil_of_mem hentity)
  exact hknown entity hentity

/-- On a buffer with room for the packet and four more bytes, the encoder of change lists succeeds
exactly on the lists that pass its checks: counts and section sizes within the limits, ids
that ascend, components and fields of the schema, and values in the ranges of their codecs. -/
theorem encode_from_changes_iff {components : List ComponentDef}
    (hschema : Schema.new components = .ok schema) (hlen : out.length ≤ isizeMax)
    (hroom : HEADER_SIZE + listedSize schema d + 4 ≤ out.length) :
    (∃ result, encodeDeltaFromChanges build ⟨schema, limits⟩ tick baselineTick d.creates d.destroys
        d.updates out = .ok result)
      ↔ ListsEncodable build schema limits d := by
  have hvalid := (schema_new_eq_ok.mp hschema).2
  refine ⟨fun ⟨⟨n, out'⟩, hencode⟩ => ?_, fun h => encode_from_changes_succeeds hvalid h hlen hroom⟩
  obtain ⟨sections, hfacts, -⟩ := encode_from_changes_ok hvalid hlen hencode
  obtain ⟨destroyBody, createBody, updateBody, hbodies, rfl⟩ := hfacts.bodies
  have hadmits := hfacts.admits
  simp only [AdmitBodies, deltaSections, List.forall_mem_append] at hadmits
  have hfits {α : Type} {xs : List α} {tag : SectionTag} {items : Layout} {body : List UInt8}
      (hbody : ofBytes body = render 0 items)
      (h : AdmitBodies limits (sectionIf (!xs.isEmpty) ⟨tag, body⟩)) (hne : xs ≠ []) :
      SectionFits limits items := by
    rw [SectionFits, body_size_eq hbody]
    exact h _ (mem_section_if.mpr ⟨by simpa using hne, rfl⟩)
  refine ⟨hfacts.checked, fun entity hentity => ?_, hfits hbodies.destroys hadmits.1,
    hfits hbodies.creates hadmits.2.1, hfits hbodies.updates hadmits.2.2⟩
  obtain ⟨_, hpacket, -⟩ := bind_eq_ok.mp hencode
  unfold encodeDeltaPacket at hpacket
  obtain ⟨-, hpacket⟩ := check_fail_eq_ok.mp hpacket
  obtain ⟨_, htail, -⟩ := bind_eq_ok.mp hpacket
  rw [withTail, if_pos (by omega)] at htail
  obtain ⟨_, hpayload, -⟩ := bind_eq_ok.mp htail
  obtain ⟨_, hpayload, -⟩ := bind_eq_ok.mp hpayload
  exact creates_known_of_payload hbodies.creates hpayload entity hentity

/-- A destroy and two updates can be encoded, but not with the updates the other way round. -/
theorem encode_from_changes_iff_golden :
    ListsEncodable (goldenBuild false) goldenSchema goldenLimits
        ⟨[⟨4⟩], [],
          [⟨⟨3⟩, [⟨⟨10, nonzero_ten⟩, [(0, .bool true), (1, .sint 7)]⟩]⟩, ⟨⟨9⟩, []⟩]⟩
      ∧ ¬ ∃ result, encodeDeltaFromChanges (goldenBuild false) ⟨goldenSchema, goldenLimits⟩ ⟨7⟩ ⟨5⟩
        [] [⟨4⟩] [⟨⟨9⟩, []⟩, ⟨⟨3⟩, [⟨⟨10, nonzero_ten⟩, [(0, .bool true), (1, .sint 7)]⟩]⟩]
        (List.replicate 48 0) = .ok result := by
  constructor
  · refine (@encode_from_changes_iff (goldenBuild false) goldenSchema goldenLimits
      ⟨[⟨4⟩], [], [⟨⟨3⟩, [⟨⟨10, nonzero_ten⟩, [(0, .bool true), (1, .sint 7)]⟩]⟩, ⟨⟨9⟩, []⟩]⟩
      (List.replicate 48 0) ⟨7⟩ ⟨5⟩ _ golden_schema_new (by decide) (by decide +kernel)).mp
      ⟨(44, [67, 69, 68, 83, 2, 0, 2, 0, 203, 95, 129, 138, 69, 190, 32, 147, 7, 0, 0, 0, 5, 0, 0,
        0, 16, 0, 0, 0, 2, 5, 1, 4, 0, 0, 0, 5, 7, 1, 3, 10, 2, 40, 3, 128, 2, 40, 3, 128]), ?_⟩
    decide +kernel
  · intro hencode
    have hlists := (@encode_from_changes_iff (goldenBuild false) goldenSchema goldenLimits
      ⟨[⟨4⟩], [], [⟨⟨9⟩, []⟩, ⟨⟨3⟩, [⟨⟨10, nonzero_ten⟩, [(0, .bool true), (1, .sint 7)]⟩]⟩]⟩
      (List.replicate 48 0) ⟨7⟩ ⟨5⟩ _ golden_schema_new (by decide) (by decide +kernel)).mp hencode
    exact absurd hlists.checked.updatesAscend (by decide)

end Sdec
