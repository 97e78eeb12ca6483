import Sdec.Diff.MapUpdate
import Sdec.Format.AcceptedSection
import Sdec.RoundTrip.Delta
import Sdec.RoundTrip.Full
import Sdec.Wire.Framing

/-!
# The two create codecs

`snapshot.rs` and `delta.rs` both implement the create section. The writers succeed on the same
entities with the same bytes, the readers return the same on every body, and so a delta from an
empty baseline carries what a full snapshot carries.
-/

namespace Sdec

open Rust Bits Bitstream Codec Wire Sorted

variable {build : Build} {schema : Schema} {limits : CodecLimits}

/-! ## Writers -/

/-- Two calls that succeed on the same states, with the same results. -/
def SameSuccess {ε σ α : Type} (x y : Call ε σ α) : Prop :=
  ∀ s a s', x s = .ok a s' ↔ y s = .ok a s'

namespace SameSuccess

variable {ε σ α β : Type} {x y : Call ε σ α}

theorem refl (x : Call ε σ α) : SameSuccess x x := fun _ _ _ => Iff.rfl

theorem bind {f g : α → Call ε σ β} (h : SameSuccess x y) (hnext : ∀ a, SameSuccess (f a) (g a)) :
    SameSuccess (x >>= f) (y >>= g) := by
  intro s b s'
  have hinv (z : Call ε σ α) (k : α → Call ε σ β) :
      (z >>= k) s = .ok b s' ↔ ∃ a t, z s = .ok a t ∧ k a t = .ok b s' := by
    rw [bind_apply]
    cases z s with
    | ok a t => simp
    | error e t => simp
  rw [hinv, hinv]
  constructor
  · intro ⟨a, t, hx, hf⟩
    exact ⟨a, t, (h s a t).mp hx, (hnext a t b s').mp hf⟩
  · intro ⟨a, t, hy, hg⟩
    exact ⟨a, t, (h s a t).mpr hy, (hnext a t b s').mpr hg⟩

/-- The same calls in front. -/
theorem cons {f g : α → Call ε σ β} (hnext : ∀ a, SameSuccess (f a) (g a)) :
    SameSuccess (x >>= f) (x >>= g) :=
  (refl x).bind hnext

theorem of_fail {f g : α → Call ε σ β} {error error' : ε} :
    SameSuccess (Rust.fail error >>= f) (Rust.fail error' >>= g) :=
  fun _ _ _ => ⟨fun h => (nomatch h), fun h => nomatch h⟩

/-- A check that only the left call makes, and that never fires. -/
theorem check_left {c : Prop} [Decidable c] {error : ε} {next : Unit → Call ε σ α}
    (hc : ¬ c) (h : SameSuccess (next ()) y) :
    SameSuccess (if c then Rust.fail error >>= next else next ()) y := by
  rw [if_neg hc]
  exact h

/-- A check that only the right call makes, and that never fires. -/
theorem check_right {c : Prop} [Decidable c] {error : ε} {next : Unit → Call ε σ α}
    (hc : ¬ c) (h : SameSuccess x (next ())) :
    SameSuccess x (if c then Rust.fail error >>= next else next ()) := by
  rw [if_neg hc]
  exact h

theorem forM {γ : Type} {f g : γ → Call ε σ Unit} {xs : List γ}
    (h : ∀ x ∈ xs, SameSuccess (f x) (g x)) : SameSuccess (xs.forM f) (xs.forM g) := by
  induction xs with
  | nil => exact refl _
  | cons x xs ih =>
      exact (h x List.mem_cons_self).bind fun _ => ih fun y hy => h y (List.mem_cons_of_mem _ hy)

end SameSuccess

/-- The writers of a component check the same things in another order. -/
theorem write_component_same (component : ComponentDef) (snapshot : ComponentSnapshot) :
    SameSuccess (Full.writeComponentFields build component snapshot limits)
      (Delta.writeFullComponent build component snapshot limits) := by
  unfold Full.writeComponentFields Delta.writeFullComponent
  by_cases hlength : snapshot.fields.length = component.fields.length
  · simp only [hlength, ne_eq, not_true, if_false]
    by_cases hlimit : component.fields.length > limits.maxFieldsPerComponent
    · simp only [if_pos hlimit]
      exact SameSuccess.of_fail
    · simp only [if_neg hlimit]
      exact SameSuccess.refl _
  · simp only [ne_eq, hlength, not_false_eq_true, if_true]
    by_cases hlimit : component.fields.length > limits.maxFieldsPerComponent
    · simp only [if_pos hlimit]
      exact SameSuccess.of_fail
    · simp only [if_neg hlimit]
      exact SameSuccess.of_fail

/-- The entities, where the ids ascend and no entity has too many components. -/
theorem write_entities_same {entities : List EntitySnapshot} {prev : Option UInt32}
    (hascend : AscendFrom (· < ·) prev (entities.map fun entity => entity.id.raw))
    (hcomponents : ∀ entity ∈ entities,
      entity.components.length ≤ limits.maxComponentsPerEntity) :
    SameSuccess (Full.writeEntities build schema limits prev entities)
      (entities.forM fun entity => Delta.writeCreateEntity build schema entity limits) := by
  induction entities generalizing prev with
  | nil => exact SameSuccess.refl _
  | cons entity rest ih =>
      rw [List.map_cons, ids_ascend_cons] at hascend
      have hafter : ensureAfter prev entity.id.raw = .ok () := ensure_after_eq_ok.mpr hascend.1
      have hrest := ih hascend.2 fun other hother =>
        hcomponents other (List.mem_cons_of_mem _ hother)
      have hcount := hcomponents entity List.mem_cons_self
      have hpass {α : Type} (next : Unit → Call CodecError BitWriter α) :
          (liftM (ensureAfter prev entity.id.raw) >>= next) = next () := by
        funext writer
        rw [hafter]
        rfl
      rw [Full.writeEntities, hpass]
      show SameSuccess _ (Delta.writeCreateEntity build schema entity limits >>= fun _ =>
        rest.forM fun entity => Delta.writeCreateEntity build schema entity limits)
      unfold Delta.writeCreateEntity
      simp only [bind_assoc]
      refine SameSuccess.cons fun _ => ?_
      refine SameSuccess.cons fun _ => ?_
      refine SameSuccess.check_left (Nat.not_lt.mpr hcount) ?_
      refine SameSuccess.cons fun _ => ?_
      refine SameSuccess.cons fun _ => ?_
      refine (SameSuccess.forM fun component _ => ?_).bind fun _ => hrest
      cases findComponent entity component.id with
      | none => exact SameSuccess.refl _
      | some snapshot => exact write_component_same component snapshot

/-- The bodies of create sections. -/
theorem create_bodies_same {entities : List EntitySnapshot} (hascend : Ascending entities)
    (hschema : schema.components.length ≤ limits.maxComponentsPerEntity)
    (hcount : entities.length ≤ limits.maxEntitiesCreate)
    (hcomponents : ∀ entity ∈ entities,
      entity.components.length ≤ limits.maxComponentsPerEntity) :
    SameSuccess (Full.encodeCreateBody build schema entities limits)
      (Delta.encodeCreateBodyFromList build schema entities limits) := by
  unfold Full.encodeCreateBody Delta.encodeCreateBodyFromList
  refine SameSuccess.check_left (Nat.not_lt.mpr hschema) ?_
  refine SameSuccess.check_right (Nat.not_lt.mpr hcount) ?_
  refine SameSuccess.cons fun _ => ?_
  refine SameSuccess.cons fun _ => ?_
  refine (write_entities_same ?_ hcomponents).bind fun _ => SameSuccess.refl _
  exact ascend_from_none.mpr (List.pairwise_map.mpr hascend)

/-! ## Readers -/

theorem create_sections_same (hschema : schema.components.length ≤ limits.maxComponentsPerEntity)
    (body : List UInt8) :
    Full.decodeCreateSection build schema body limits
      = Delta.decodeCreateSection build schema body limits := by
  unfold Full.decodeCreateSection Delta.decodeCreateSection
  simp only [read_known_entity_eq, if_neg (Nat.not_lt.mpr hschema)]

/-! ## Deltas from an empty baseline -/

variable {tick tick' baselineTick : SnapshotTick} {entities : List EntitySnapshot}

/-- Everything is created. -/
theorem diff_from_empty (current : Snapshot) :
    diff build schema ⟨baselineTick, []⟩ current = ⟨[], current.entities, []⟩ := by
  have hsteps : mergeSteps ⟨baselineTick, []⟩ current = current.entities.map .right := walk_nil _
  unfold diff diffSteps
  rw [hsteps]
  simp only [List.filterMap_map, Diff.mk.injEq]
  refine ⟨?_, ?_, ?_⟩
  · exact List.filterMap_eq_nil_iff.mpr fun _ _ => rfl
  · exact List.filterMap_some
  · exact List.filterMap_eq_nil_iff.mpr fun _ _ => rfl

/-- The only section of both packets. -/
def createSections (entities : List EntitySnapshot) (body : List UInt8) : List WireSection :=
  sectionIf (!entities.isEmpty) ⟨.entityCreate, body⟩

theorem decode_full_create_sections (body : List UInt8) :
    decodeFullSections build schema limits none (createSections entities body)
      = decodeIf (!entities.isEmpty) (Full.decodeCreateSection build schema body limits) := by
  unfold createSections sectionIf decodeIf
  cases !entities.isEmpty with
  | false => rfl
  | true =>
      simp only [if_true, decodeFullSections, Option.isSome_none, Bool.false_eq_true, if_false]
      cases Full.decodeCreateSection build schema body limits <;> rfl

theorem decode_delta_create_sections (header : PacketHeader) (body : List UInt8) :
    Delta.decodeDeltaSections build schema ⟨header, createSections entities body⟩ limits
      = (decodeIf (!entities.isEmpty) (Delta.decodeCreateSection build schema body limits)).map
        fun creates => ([], creates, []) := by
  have h :=
    @decode_delta_sections_eq build schema limits header ⟨[], entities, []⟩ .masked [] body []
  have hsections : deltaSections ⟨[], entities, []⟩ UpdateEncoding.masked.tag [] body []
      = createSections entities body := by
    simp [deltaSections, createSections, sectionIf]
  rw [hsections] at h
  rw [h]
  cases decodeIf (!entities.isEmpty) (Delta.decodeCreateSection build schema body limits) <;> rfl

/-- Applying creates alone to no entities. -/
theorem apply_passes_creates {creates result : List EntitySnapshot} :
    applyPasses limits [] [] creates [] = .ok result ↔
      creates.length ≤ limits.maxTotalEntitiesAfterApply ∧ result = creates := by
  have hcreates : Delta.applyCreates [] creates = .ok creates := by
    rw [apply_creates_eq_ok, walk_nil]
    refine ⟨fun step hstep b c heq => ?_, ?_⟩
    · obtain ⟨_, _, rfl⟩ := List.mem_map.mp hstep
      cases heq
    · rw [List.filterMap_map]
      exact List.filterMap_some.symm
  have hpasses : applyPasses limits [] [] creates [] = (do
      if creates.length > limits.maxTotalEntitiesAfterApply then
        fail (.limitsExceeded .totalEntitiesAfterApply limits.maxTotalEntitiesAfterApply
          creates.length)
      return creates) := by
    unfold applyPasses
    show (Delta.applyCreates [] creates >>= _) = _
    rw [hcreates]
    rfl
  rw [hpasses, check_fail_eq_ok, Nat.not_lt, pure_eq_ok, @eq_comm _ creates]

/-- The wire decoder accepts the packet of the sections, and finds them again. -/
def CutsBack (wireLimits : Wire.Limits) (sections : List WireSection) : Prop :=
  HEADER_SIZE + (sections.flatMap WireSection.bytes).length ≤ wireLimits.maxPacketBytes
    ∧ (UInt32.ofNat (sections.flatMap WireSection.bytes).length).toNat
      = (sections.flatMap WireSection.bytes).length
    ∧ decodeSections (sections.flatMap WireSection.bytes) wireLimits = .ok sections

/-- Whether a packet is accepted does not depend on its header. -/
theorem decode_packet_cuts_back {header : PacketHeader} {sections : List WireSection}
    {wireLimits : Wire.Limits} {packet : WirePacket} (hheader : header.Valid)
    (hpayload : header.payloadLen = UInt32.ofNat (sections.flatMap WireSection.bytes).length)
    (hmax : (sections.flatMap WireSection.bytes).length ≤ isizeMax)
    (hshort : ∀ s ∈ sections, s.body.length < 2 ^ 32) :
    decodePacket (header.bytes ++ sections.flatMap WireSection.bytes) wireLimits = .ok packet ↔
      CutsBack wireLimits sections ∧ packet = ⟨header, sections⟩ := by
  rw [decode_packet_eq_ok hheader, hpayload]
  constructor
  · intro ⟨hsize, hlength, hsections, hpacket⟩
    have hsame := decode_sections_unique hmax hshort hsections
    refine ⟨⟨hsize, hlength, hsame ▸ hsections⟩, ?_⟩
    rw [← hsame, ← hpacket]
  · intro ⟨⟨hsize, hlength, hsections⟩, hpacket⟩
    rw [hpacket]
    exact ⟨hsize, hlength, hsections, rfl⟩

section Packets

variable {entities : List EntitySnapshot} {body : List UInt8} {wireLimits : Wire.Limits}
  (hmax : ((createSections entities body).flatMap WireSection.bytes).length ≤ isizeMax)
  (hshort : ∀ s ∈ createSections entities body, s.body.length < 2 ^ 32)

include hmax hshort

/-- What is decoded from a full snapshot. -/
theorem decode_full_creates_iff
    (hcomponents : schema.components.length ≤ limits.maxComponentsPerEntity)
    (decoded : List EntitySnapshot) :
    decodeFullSnapshot build schema
        ((PacketHeader.fullSnapshot (schemaHash build schema) tick.raw (UInt32.ofNat
          ((createSections entities body).flatMap WireSection.bytes).length)).bytes
          ++ (createSections entities body).flatMap WireSection.bytes) wireLimits limits
        = .ok ⟨tick, decoded⟩ ↔
      CutsBack wireLimits (createSections entities body)
        ∧ decodeIf (!entities.isEmpty) (Delta.decodeCreateSection build schema body limits)
          = .ok decoded := by
  rw [decodeFullSnapshot, bind_eq_ok]
  simp only [map_err_eq_ok, decode_packet_cuts_back
    (PacketHeader.full_snapshot_valid (schemaHash build schema) tick.raw (UInt32.ofNat _)) rfl hmax
    hshort, decode_full_packet_eq_ok]
  constructor
  · intro h
    obtain ⟨_, ⟨hcuts, rfl⟩, _, _, _, hdecode, _⟩ := h
    rw [decode_full_create_sections, create_sections_same hcomponents] at hdecode
    exact ⟨hcuts, hdecode⟩
  · intro h
    obtain ⟨hcuts, hdecode⟩ := h
    refine ⟨_, ⟨hcuts, rfl⟩, (by decide : PacketFlags.fullSnapshot.isFullSnapshot), rfl, rfl, ?_,
      rfl⟩
    rw [decode_full_create_sections, create_sections_same hcomponents]
    exact hdecode

/-- What a delta of creates makes of an empty baseline. -/
theorem apply_delta_creates_iff (hschema : schema.Valid) (hbaselineTick : baselineTick.raw ≠ 0)
    (decoded : List EntitySnapshot) :
    applyDeltaSnapshot build schema ⟨baselineTick, []⟩
        ((PacketHeader.deltaSnapshot (schemaHash build schema) tick.raw baselineTick.raw
          (UInt32.ofNat ((createSections entities body).flatMap WireSection.bytes).length)).bytes
          ++ (createSections entities body).flatMap WireSection.bytes) wireLimits limits
        = .ok ⟨tick, decoded⟩ ↔
      CutsBack wireLimits (createSections entities body)
        ∧ decodeIf (!entities.isEmpty) (Delta.decodeCreateSection build schema body limits)
          = .ok decoded
        ∧ decoded.length ≤ limits.maxTotalEntitiesAfterApply := by
  obtain ⟨creates, hcreates⟩ : ∃ creates, creates = decodeIf (!entities.isEmpty)
      (Delta.decodeCreateSection build schema body limits) := ⟨_, rfl⟩
  have hascending {found : List EntitySnapshot} (h : creates = .ok found) : Ascending found := by
    rw [hcreates] at h
    unfold decodeIf at h
    split at h
    · exact ((@decode_create_section_ensures build schema limits True hschema
        (fun _ _ => trivial) body).of_ok h).ascending
    · cases h
      exact List.Pairwise.nil
  have hdecode (header : PacketHeader) := @decode_delta_create_sections build schema limits
    entities header body
  rw [← hcreates] at hdecode ⊢
  rw [applyDeltaSnapshot, bind_eq_ok]
  simp only [map_err_eq_ok, decode_packet_cuts_back
    (PacketHeader.delta_snapshot_valid (schemaHash build schema) tick.raw (UInt32.ofNat _)
      hbaselineTick) rfl hmax hshort, apply_delta_packet_passes]
  constructor
  · intro h
    obtain ⟨_, ⟨hcuts, rfl⟩, _, destroys, found, updates, hread, _, _, hpasses, _⟩ := h
    rw [hdecode] at hread
    cases hfound : creates with
    | error e =>
        rw [hfound] at hread
        cases hread
    | ok creates' =>
        rw [hfound] at hread
        cases hread
        obtain ⟨hlimit, rfl⟩ := apply_passes_creates.mp hpasses
        exact ⟨hcuts, rfl, hlimit⟩
  · intro h
    obtain ⟨hcuts, hfound, hlimit⟩ := h
    refine ⟨_, ⟨hcuts, rfl⟩, ⟨(by decide : PacketFlags.deltaSnapshot.isDeltaSnapshot),
      hbaselineTick, rfl, rfl⟩, [], decoded, [], ?_, ensure_entities_sorted_eq_ok.mpr
      List.Pairwise.nil, ensure_entities_sorted_eq_ok.mpr (hascending hfound),
      apply_passes_creates.mpr ⟨hlimit, rfl⟩, rfl⟩
    rw [hdecode, hfound]
    rfl

end Packets

/-- What is decoded from a full snapshot is what a delta from an empty baseline is applied to. -/
theorem decode_full_iff_apply_delta (hschema : schema.Valid)
    (hcomponents : schema.components.length ≤ limits.maxComponentsPerEntity)
    (hbaselineTick : baselineTick.raw ≠ 0) {current : Snapshot}
    {out out' outDelta outDelta' : List UInt8} {n m : Nat} (hlen : out.length ≤ isizeMax)
    (hlenDelta : outDelta.length ≤ isizeMax)
    (hfull : encodeFullSnapshot build schema tick current.entities limits out = .ok (n, out'))
    (hdelta : EncodesDelta build schema limits tick' baselineTick ⟨baselineTick, []⟩
      current outDelta outDelta' m)
    {wireLimits : Wire.Limits}
    (htotal : ∀ snapshot,
      decodeFullSnapshot build schema (out'.take n) wireLimits limits = .ok snapshot →
        snapshot.entities.length ≤ limits.maxTotalEntitiesAfterApply)
    (decoded : List EntitySnapshot) :
    decodeFullSnapshot build schema (out'.take n) wireLimits limits = .ok ⟨tick, decoded⟩ ↔
      applyDeltaSnapshot build schema ⟨baselineTick, []⟩ (outDelta'.take m) wireLimits limits
        = .ok ⟨tick', decoded⟩ := by
  obtain ⟨body, hfacts, hbytes, hsize, hn⟩ := encode_full_snapshot_ok hlen hfull
  obtain ⟨sections, encoding, hsections, hdeltaBytes, -, -⟩ :=
    encodes_delta_ok hschema hlenDelta hdelta
  obtain ⟨destroyBody, createBody, updateBody, hbodies, rfl⟩ := hsections.bodies
  rw [diff_from_empty] at hbodies hdeltaBytes
  -- The packets have the same payload.
  have hsame : createBody = body := ofBytes_injective (hbodies.creates.trans hfacts.layout.symm)
  have hpayload : deltaSections ⟨[], current.entities, []⟩ encoding.tag destroyBody createBody
      updateBody = createSections current.entities body := by
    rw [hsame]
    simp [deltaSections, createSections, sectionIf]
  rw [hpayload] at hdeltaBytes
  have hpayload' : sectionIf (!current.entities.isEmpty) ⟨.entityCreate, body⟩
      = createSections current.entities body := rfl
  rw [hpayload'] at hbytes
  have hmax : ((createSections current.entities body).flatMap WireSection.bytes).length
      ≤ isizeMax := by
    rw [hbytes, List.length_append] at hsize
    omega
  have hshort : ∀ s ∈ createSections current.entities body, s.body.length < 2 ^ 32 :=
    fun s hs => (hfacts.admits s hs).2
  have hfullIff := @decode_full_creates_iff build schema limits tick _ _ wireLimits hmax hshort
    hcomponents decoded
  rw [hbytes] at htotal ⊢
  rw [hdeltaBytes, hfullIff, apply_delta_creates_iff hmax hshort hschema hbaselineTick]
  constructor
  · intro h
    exact ⟨h.1, h.2, htotal ⟨tick, decoded⟩ (hfullIff.mpr h)⟩
  · intro h
    exact ⟨h.1, h.2.1⟩

/-- The two create codecs agree, for schemas within the limit of components. The writers of bodies
succeed on the same buffers with the same bytes, for ascending entities within the limits; the
readers return the same on every body; and, for a valid schema, a delta from an empty baseline is
applied to what the full snapshot is decoded to. -/
theorem create_codecs_agree (build : Build) (schema : Schema) (limits : CodecLimits)
    (hcomponents : schema.components.length ≤ limits.maxComponentsPerEntity) :
    (∀ entities, Ascending entities → entities.length ≤ limits.maxEntitiesCreate →
      (∀ entity ∈ entities, entity.components.length ≤ limits.maxComponentsPerEntity) →
        ∀ writer writer', Full.encodeCreateBody build schema entities limits writer = .ok () writer'
          ↔ Delta.encodeCreateBodyFromList build schema entities limits writer = .ok () writer')
    ∧ (∀ body, Full.decodeCreateSection build schema body limits
        = Delta.decodeCreateSection build schema body limits)
    ∧ ∀ components tick tick' baselineTick current out out' outDelta outDelta' n m wireLimits,
        Schema.new components = .ok schema →
        baselineTick.raw ≠ 0 → out.length ≤ isizeMax → outDelta.length ≤ isizeMax →
        encodeFullSnapshot build schema tick current.entities limits out = .ok (n, out') →
        EncodesDelta build schema limits tick' baselineTick ⟨baselineTick, []⟩ current outDelta
          outDelta' m →
        (∀ snapshot,
          decodeFullSnapshot build schema (out'.take n) wireLimits limits = .ok snapshot →
            snapshot.entities.length ≤ limits.maxTotalEntitiesAfterApply) →
        ∀ decoded,
          decodeFullSnapshot build schema (out'.take n) wireLimits limits = .ok ⟨tick, decoded⟩ ↔
            applyDeltaSnapshot build schema ⟨baselineTick, []⟩ (outDelta'.take m) wireLimits limits
              = .ok ⟨tick', decoded⟩ := by
  refine ⟨fun entities hascend hcount hsmall writer writer' =>
    create_bodies_same hascend hcomponents hcount hsmall writer () writer',
    create_sections_same hcomponents, ?_⟩
  intro components tick tick' baselineTick current out out' outDelta outDelta' n m wireLimits
    hschema hbaselineTick hlen hlenDelta hfull hdelta htotal decoded
  exact decode_full_iff_apply_delta (schema_new_eq_ok.mp hschema).2 hcomponents hbaselineTick hlen
    hlenDelta hfull hdelta htotal decoded

/-- The delta from an empty snapshot of tick 5 to `goldenEntities` at tick 7, in a buffer of 49
bytes. -/
def goldenCreateDelta : List UInt8 :=
  [67, 69, 68, 83, 2, 0, 2, 0, 203, 95, 129, 138, 69, 190, 32, 147, 7, 0, 0, 0, 5, 0, 0, 0, 17, 0,
    0, 0, 1, 15, 2, 3, 0, 0, 0, 255, 254, 227, 119, 0, 9, 0, 0, 0, 0, 0, 0, 0, 0]

/-- Applied to the empty snapshot, the delta makes the entities of the full packet; and the body
that both packets carry is read to them and written from them. -/
theorem create_codecs_agree_golden :
    applyDeltaSnapshot (goldenBuild false) goldenSchema ⟨⟨5⟩, []⟩ (goldenCreateDelta.take 45)
        .unlimited goldenLimits = .ok ⟨⟨7⟩, goldenEntities⟩
      ∧ Full.decodeCreateSection (goldenBuild false) goldenSchema
          ((goldenCreateDelta.take 45).drop 30) goldenLimits = .ok goldenEntities
      ∧ Delta.encodeCreateBodyFromList (goldenBuild false) goldenSchema goldenEntities goldenLimits
          (BitWriter.new (List.replicate 15 0)) = .ok () ⟨(goldenPacket.take 45).drop 30, 120⟩ := by
  obtain ⟨hwriters, hreaders, hpackets⟩ :=
    create_codecs_agree (goldenBuild false) goldenSchema goldenLimits (by decide)
  have hdecode : decodeFullSnapshot (goldenBuild false) goldenSchema (goldenPacket.take 45)
      .unlimited goldenLimits = .ok ⟨⟨7⟩, goldenEntities⟩ := by decide +kernel
  have htotal (snapshot : Snapshot) (h : decodeFullSnapshot (goldenBuild false) goldenSchema
      (goldenPacket.take 45) .unlimited goldenLimits = .ok snapshot) :
      snapshot.entities.length ≤ goldenLimits.maxTotalEntitiesAfterApply := by
    cases hdecode.symm.trans h
    decide
  have hfull : encodeFullSnapshot (goldenBuild false) goldenSchema ⟨7⟩ goldenEntities goldenLimits
      (List.replicate 49 0) = .ok (45, goldenPacket) := by decide +kernel
  have hdelta : encodeDeltaSnapshot (goldenBuild false) goldenSchema ⟨7⟩ ⟨5⟩ ⟨⟨5⟩, []⟩
      ⟨⟨7⟩, goldenEntities⟩ goldenLimits (List.replicate 49 0) = .ok (45, goldenCreateDelta) := by
    decide +kernel
  refine ⟨?_, ?_, ?_⟩
  · exact (hpackets _ ⟨7⟩ ⟨7⟩ ⟨5⟩ ⟨⟨7⟩, goldenEntities⟩ _ _ _ _ 45 45 .unlimited golden_schema_new
      (by decide) (by decide) (by decide) hfull (.inl hdelta) htotal goldenEntities).mp hdecode
  · rw [hreaders]
    decide +kernel
  · exact (hwriters goldenEntities (by decide) (by decide) (by decide) _ _).mp (by decide +kernel)

/-- The writer of `delta.rs` checks the number of entities itself, which `encode_full_snapshot` does
before it calls the other one. -/
theorem create_bodies_differ_over_limit :
    Full.encodeCreateBody (goldenBuild false) goldenSchema [⟨⟨3⟩, []⟩]
        { goldenLimits with maxEntitiesCreate := 0 } (BitWriter.new (List.replicate 8 0))
        = .ok () ⟨[1, 3, 0, 0, 0, 0, 0, 0], 48⟩
      ∧ Delta.encodeCreateBodyFromList (goldenBuild false) goldenSchema [⟨⟨3⟩, []⟩]
        { goldenLimits with maxEntitiesCreate := 0 } (BitWriter.new (List.replicate 8 0))
        = .error (.err (.limitsExceeded .entitiesCreate 0 1))
          (BitWriter.new (List.replicate 8 0)) :=
  ⟨by decide +kernel, by decide +kernel⟩

end Sdec
