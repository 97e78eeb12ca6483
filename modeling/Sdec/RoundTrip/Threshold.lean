import Sdec.Diff.Values
import Sdec.RoundTrip.Acceptance
import Sdec.Wire.Framing

/-!
# Threshold fields over many ticks

A sender that encodes each tick against its own previous snapshot, and a receiver that applies every
delta to what it has reconstructed. Read `within_thresholds_iff` first: what the receiver holds of a
field is the value it had when it last counted as changed, which can be any number of thresholds
away.
-/

namespace Sdec

open Rust Bits Bitstream Codec Wire Sorted

variable {build : Build} {schema : Schema} {limits : CodecLimits}

/-! ## Deliveries -/

/-- The payload of a packet that is decoded is cut into its sections. -/
theorem decode_packet_sections {buf : List UInt8} {wireLimits : Wire.Limits} {packet : WirePacket}
    (h : decodePacket buf wireLimits = .ok packet) :
    decodeSections (buf.drop HEADER_SIZE) wireLimits = .ok packet.sections := by
  simp only [decodePacket, check_fail_eq_ok, bind_eq_ok, pure_eq_ok] at h
  -- Only the last checks are about the payload.
  obtain ⟨hsize, -, _, -, -, _, -, -, _, -, -, _, -, _, -, _, -, _, -, -, -, _, -, -, payload,
    hpayload, sections, hsections, rfl⟩ := h
  rw [slice_of_le (Nat.le_of_not_lt hsize) (Nat.le_refl _), List.take_length] at hpayload
  cases hpayload
  exact hsections

/-- A receiver that holds `held` is given the delta from `previous` to `current`, as a packet of
either encoder of standard packets or as a compact packet, and then holds `held'`. -/
inductive Delivers (build : Build) (schema : Schema) (previous current held held' : Snapshot) : Prop
  | standard {limits : CodecLimits} {mode : EncodeUpdateMode} {scratch scratch' : CodecScratch}
      {out out' : List UInt8} {n : Nat} {wireLimits : Wire.Limits} (hlen : out.length ≤ isizeMax)
      (hencode : encodeDeltaSnapshotWithScratchMode build schema current.tick previous.tick previous
        current limits mode scratch out = .ok ((scratch', n), out'))
      (happly : applyDeltaSnapshot build schema held (out'.take n) wireLimits limits = .ok held')
  | compact {limits : CodecLimits} {out out' : List UInt8} {n : Nat}
      {lastTick lastTick' : SnapshotTick} {session session' : SessionState} {packet : WirePacket}
      {wireLimits : Wire.Limits} (hlen : out.length ≤ isizeMax)
      (hencode : encodeDeltaSnapshotForClientSession build schema current.tick previous.tick
        previous current limits out lastTick = .ok (n, out') lastTick')
      (hsize : deltaSize build schema .sparse previous current < 2 ^ 32)
      (hdecode : decodeSessionPacket build schema (out'.take n) wireLimits session
        = .ok packet session')
      (happly : applyDeltaSnapshotFromPacket build schema held packet limits = .ok held')

variable {previous current held held' : Snapshot}

/-- Either way the receiver applies the sections that the encoder has written. -/
theorem Delivers.applies (hschema : schema.Valid)
    (h : Delivers build schema previous current held held') :
    ∃ limits encoding sections header,
      SnapshotSections build schema limits previous.tick previous current encoding sections
      ∧ applyDeltaSnapshotFromPacket build schema held ⟨header, sections⟩ limits = .ok held' := by
  cases h with
  | @standard limits mode scratch scratch' out out' n wireLimits hlen hencode happly =>
      obtain ⟨sections, hfacts, hbytes, hsize, hmax⟩ := encode_delta_mode_ok hschema hlen hencode
      obtain ⟨packet, hpacket, hs⟩ := bind_eq_ok.mp happly
      rw [hbytes, List.length_append] at hsize
      have hcut := decode_packet_sections (map_err_eq_ok.mp hpacket)
      rw [hbytes, List.drop_left' (PacketHeader.length_bytes _)] at hcut
      have hsame := decode_sections_unique (by omega) (fun s hs => (hfacts.admits s hs).2) hcut
      rw [← hsame] at hfacts
      exact ⟨limits, _, packet.sections, packet.header, hfacts, hs⟩
  | @compact limits out out' n lastTick lastTick' session session' packet wireLimits hlen hencode
      hsize hdecode happly =>
      obtain ⟨sections, hfacts, hcompact⟩ := encode_session_ok hschema hlen hencode
      have hshort := hcompact.length_le
      have hbytes := hcompact.bytes_eq
      rw [hbytes] at hshort hdecode
      obtain ⟨header, found, hreceived, rfl, -⟩ := (decode_session_packet_eq_ok hshort).mp hdecode
      obtain ⟨-, -, -, hcut⟩ := (receives_compact_iff hcompact.after hcompact.baseline_le hshort).mp
        hreceived
      have hlength := hfacts.length_bytes
      rw [take_counted (by omega)] at hcut
      have hmax : (sections.flatMap WireSection.bytes).length ≤ isizeMax := by
        simp only [isizeMax]
        omega
      have hsame := decode_sections_unique hmax (fun s hs => (hfacts.admits s hs).2) hcut
      rw [← hsame] at hfacts
      exact ⟨limits, _, found, _, hfacts, happly⟩

/-! ## What was sent last -/

/-- The value that a field had in a history of snapshots, the newest first, when it last counted as
changed from one snapshot to the next, or appeared. -/
def LastSent (build : Build) (field : FieldDef) (e : EntityId) (c : ComponentId) (k : Nat) :
    List Snapshot → FieldValue → Prop
  | [], _ => False
  | [first], value => Holds first.entities e c k value
  | current :: previous :: history, value =>
      (Holds current.entities e c k value ∧ ∀ b, ¬ Holds previous.entities e c k b)
      ∨ ∃ b w, Holds previous.entities e c k b ∧ Holds current.entities e c k w
        ∧ if hasChanged build c field b w then value = w
          else LastSent build field e c k (previous :: history) value

variable {field : FieldDef} {e : EntityId} {c : ComponentId} {k : Nat} {value : FieldValue}
  {history : List Snapshot}

/-- A field that is there was sent. -/
theorem exists_last_sent {w : FieldValue} (h : Holds current.entities e c k w) :
    ∃ v, LastSent build field e c k (current :: history) v := by
  induction history generalizing current w with
  | nil => exact ⟨w, h⟩
  | cons previous history ih =>
      by_cases hprevious : ∃ b, Holds previous.entities e c k b
      · obtain ⟨b, hb⟩ := hprevious
        by_cases hchanged : hasChanged build c field b w
        · exact ⟨w, .inr ⟨b, w, hb, h, by rw [if_pos hchanged]⟩⟩
        · obtain ⟨v, hv⟩ := ih hb
          exact ⟨v, .inr ⟨b, w, hb, h, by rw [if_neg hchanged]; exact hv⟩⟩
      · exact ⟨w, .inl ⟨h, not_exists.mp hprevious⟩⟩

/-- A field that was sent is there. -/
theorem holds_of_last_sent (h : LastSent build field e c k (current :: history) value) :
    ∃ w, Holds current.entities e c k w := by
  cases history with
  | nil => exact ⟨value, h⟩
  | cons previous history =>
      rcases h with ⟨h, -⟩ | ⟨_, w, -, h, -⟩
      · exact ⟨value, h⟩
      · exact ⟨w, h⟩

/-! ## Runs -/

/-- A receiver that starts with the first snapshot of the sender and is given the delta of every
tick, each encoded against the previous snapshot of the sender. The snapshots of the sender are
listed with the newest first. -/
inductive ThresholdRun (build : Build) (schema : Schema) : List Snapshot → Snapshot → Prop
  | start {first : Snapshot} (hfirst : Snapshot.WellFormed schema first.entities) :
      ThresholdRun build schema [first] first
  | tick {previous current held held' : Snapshot} {history : List Snapshot}
      (run : ThresholdRun build schema (previous :: history) held)
      (hcurrent : Snapshot.WellFormed schema current.entities)
      (hdelivers : Delivers build schema previous current held held') :
      ThresholdRun build schema (current :: previous :: history) held'

/-- The state of a run: the newest snapshot is well-formed, and the receiver holds what was sent
last. -/
structure HoldsLastSent (build : Build) (schema : Schema) (current : Snapshot)
    (history : List Snapshot) (held : Snapshot) : Prop where
  wellFormed : Snapshot.WellFormed schema current.entities
  distinct : ∀ entity ∈ held.entities, entity.Distinct
  lastSent : ∀ d ∈ schema.components, ∀ k field, d.fields[k]? = some field → ∀ e value,
    Holds held.entities e d.id k value
      ↔ LastSent build field e d.id k (current :: history) value

section Tick

variable (hschema : schema.Valid) (hprevious : Snapshot.WellFormed schema previous.entities)
  (hcurrent : Snapshot.WellFormed schema current.entities)
  (hsame : ∀ b ∈ previous.entities, ∀ c ∈ current.entities, b.id = c.id → SamePresence schema b c)
  {d : ComponentDef} (hd : d ∈ schema.components) (hfield : d.fields[k]? = some field)

include hschema hprevious hcurrent hsame hd hfield

/-- An entity that is not destroyed keeps its fields. -/
theorem exists_holds_of_kept {b : FieldValue} (hb : Holds previous.entities e d.id k b)
    (hkept : e ∉ (diff build schema previous current).destroys) :
    ∃ w, Holds current.entities e d.id k w := by
  refine hb.of_same_presence hschema hprevious hcurrent hd hfield fun entity hentity hid => ?_
  obtain ⟨c, hc, hcid⟩ : ∃ c ∈ current.entities, c.id = e := by
    by_contra hno
    exact hkept ((mem_diff_destroys hprevious.ascending hcurrent.ascending).mpr
      ⟨⟨entity, hentity, hid⟩, fun c hc hcid => hno ⟨c, hc, hcid⟩⟩)
  exact ⟨c, hc, hcid, hsame entity hentity c hc (hid.trans hcid.symm) d hd⟩

/-- The fields of the created entities are those that were not there before. -/
theorem holds_creates_iff :
    Holds (diff build schema previous current).creates e d.id k value
      ↔ Holds current.entities e d.id k value ∧ ∀ b, ¬ Holds previous.entities e d.id k b := by
  constructor
  · intro h
    obtain ⟨entity, hentity, rfl, hrest⟩ := h
    obtain ⟨hc, hfresh⟩ := (mem_diff_creates hprevious.ascending hcurrent.ascending).mp hentity
    refine ⟨⟨entity, hc, rfl, hrest⟩, fun b hb => ?_⟩
    obtain ⟨other, hother, hid, -⟩ := hb
    exact hfresh other hother hid
  · intro h
    obtain ⟨hvalue, hno⟩ := h
    obtain ⟨entity, hentity, rfl, hrest⟩ := hvalue
    refine ⟨entity, (mem_diff_creates hprevious.ascending hcurrent.ascending).mpr
      ⟨hentity, fun b hb hid => ?_⟩, rfl, hrest⟩
    -- an entity with that id would have had the component
    obtain ⟨v, hv⟩ := Holds.of_same_presence hschema hcurrent hprevious hd hfield
      (fun c hc hcid => ⟨b, hb, hid, (hsame b hb c hc (hid.trans hcid.symm) d hd).symm⟩)
      ⟨entity, hentity, rfl, hrest⟩
    exact hno v hv

omit hschema hsame hd hfield in
/-- An entity with a field is not destroyed. -/
theorem not_destroyed_of_holds {w : FieldValue} (hw : Holds current.entities e d.id k w) :
    e ∉ (diff build schema previous current).destroys := by
  obtain ⟨entity, hentity, hid, -⟩ := hw
  intro hdestroyed
  exact ((mem_diff_destroys hprevious.ascending hcurrent.ascending).mp hdestroyed).2
    entity hentity hid

omit hsame in
/-- A field that does not count as changed is not written. -/
theorem last_write_of_not_changed {b w : FieldValue} (hb : Holds previous.entities e d.id k b)
    (hw : Holds current.entities e d.id k w) (hchanged : ¬ hasChanged build d.id field b w) :
    lastWrite (deltaWrites build schema previous current) e d.id k = none := by
  refine last_write_of_no_change hschema hprevious hcurrent hd hfield fun b' w' hb' hw' => ?_
  rw [hb'.unique hprevious.ascending
      (fun entity hentity => (hprevious.entities entity hentity).distinct hschema) hb,
    hw'.unique hcurrent.ascending
      (fun entity hentity => (hcurrent.entities entity hentity).distinct hschema) hw]
  exact hchanged

/-- The fields that were sent last, before and after a tick: those of a survivor that were written
or kept, and those of the created entities. -/
theorem last_sent_cons_iff :
    LastSent build field e d.id k (current :: previous :: history) value
      ↔ ∃ old, ((LastSent build field e d.id k (previous :: history) old
            ∧ e ∉ (diff build schema previous current).destroys)
          ∨ Holds (diff build schema previous current).creates e d.id k old)
        ∧ value = (lastWrite (deltaWrites build schema previous current) e d.id k).getD old := by
  have hwrite {v : FieldValue} := @last_write_eq_some build schema e k v previous current hschema
    hprevious hcurrent d field hd hfield
  have hcreates {v : FieldValue} := @holds_creates_iff build schema previous current field e k v
    hschema hprevious hcurrent hsame d hd hfield
  have hnew (hno : ∀ b, ¬ Holds previous.entities e d.id k b) :
      lastWrite (deltaWrites build schema previous current) e d.id k = none :=
    last_write_of_no_change hschema hprevious hcurrent hd hfield fun b _ hb => absurd hb (hno b)
  constructor
  · intro hlast
    rcases hlast with ⟨hvalue, hno⟩ | ⟨b, w, hb, hw, hrest⟩
    · refine ⟨value, .inr (hcreates.mpr ⟨hvalue, hno⟩), ?_⟩
      rw [hnew hno]
      rfl
    · have hkept : e ∉ (diff build schema previous current).destroys :=
        not_destroyed_of_holds hprevious hcurrent hw
      by_cases hchanged : hasChanged build d.id field b w
      · rw [if_pos hchanged] at hrest
        obtain ⟨old, hold⟩ := @exists_last_sent build _ field e d.id k history b hb
        refine ⟨old, .inl ⟨hold, hkept⟩, ?_⟩
        rw [hwrite.mpr ⟨b, hb, hw, hchanged⟩]
        exact hrest
      · rw [if_neg hchanged] at hrest
        refine ⟨value, .inl ⟨hrest, hkept⟩, ?_⟩
        rw [last_write_of_not_changed hschema hprevious hcurrent hd hfield hb hw hchanged]
        rfl
  · intro h
    obtain ⟨old, hold, hvalue⟩ := h
    rcases hold with ⟨hsent, hkept⟩ | hcreated
    · -- a survivor, whose field was written if it counts as changed
      obtain ⟨b, hb⟩ := holds_of_last_sent hsent
      obtain ⟨w, hw⟩ :=
        exists_holds_of_kept hschema hprevious hcurrent hsame hd hfield hb hkept
      refine .inr ⟨b, w, hb, hw, ?_⟩
      by_cases hchanged : hasChanged build d.id field b w
      · rw [if_pos hchanged, hvalue, hwrite.mpr ⟨b, hb, hw, hchanged⟩]
        rfl
      · rw [if_neg hchanged, hvalue,
          last_write_of_not_changed hschema hprevious hcurrent hd hfield hb hw hchanged]
        exact hsent
    · obtain ⟨hheld, hno⟩ := hcreates.mp hcreated
      rw [hvalue, hnew hno]
      exact .inl ⟨hheld, hno⟩

end Tick

/-- The fields of the entities that survive the passes over the destroyed and the created. -/
theorem holds_merged_iff {entities merged creates : List EntitySnapshot} {destroys : List EntityId}
    (hmem : ∀ entity, entity ∈ merged ↔ Survives entities destroys creates entity) :
    Holds merged e c k value ↔ (Holds entities e c k value ∧ e ∉ destroys)
      ∨ Holds creates e c k value := by
  constructor
  · intro h
    obtain ⟨entity, hentity, rfl, hrest⟩ := h
    rcases (hmem entity).mp hentity with ⟨hold, hkept⟩ | hnew
    · exact .inl ⟨⟨entity, hold, rfl, hrest⟩, hkept⟩
    · exact .inr ⟨entity, hnew, rfl, hrest⟩
  · intro h
    rcases h with ⟨⟨entity, hold, rfl, hrest⟩, hkept⟩ | ⟨entity, hnew, rfl, hrest⟩
    · exact ⟨entity, (hmem entity).mpr (.inl ⟨hold, hkept⟩), rfl, hrest⟩
    · exact ⟨entity, (hmem entity).mpr (.inr hnew), rfl, hrest⟩

/-- One tick. -/
theorem HoldsLastSent.tick (hschema : schema.Valid)
    (h : HoldsLastSent build schema previous history held)
    (hcurrent : Snapshot.WellFormed schema current.entities)
    (hdelivers : Delivers build schema previous current held held') :
    HoldsLastSent build schema current (previous :: history) held' := by
  obtain ⟨limits, encoding, sections, header, hfacts, happly⟩ := hdelivers.applies hschema
  obtain ⟨-, destroys, creates, updates, remaining, merged, hread, hsorted, hcreated, hleft, hmerge,
    -, hupdate, -⟩ := apply_delta_packet_eq_ok.mp happly
  obtain ⟨-, hresult⟩ := (decode_encoded_sections_eq_ok hschema hcurrent hfacts header).mp hread
  simp only [Prod.mk.injEq] at hresult
  obtain ⟨rfl, rfl, rfl⟩ := hresult
  have hdestroys := @diff_destroys_ascend build schema previous current hfacts.baselineAscends
    hfacts.currentAscends
  obtain ⟨-, -, hascend, hmem⟩ := merged_survives (ensure_entities_sorted_eq_ok.mp hsorted)
    hdestroys (ensure_entities_sorted_eq_ok.mp hcreated) hleft hmerge
  have hdistinct : ∀ entity ∈ merged, entity.Distinct := by
    intro entity hentity
    rcases (hmem entity).mp hentity with ⟨hold, -⟩ | hnew
    · exact h.distinct entity hold
    · exact (hcurrent.entities entity ((mem_diff_creates hfacts.baselineAscends
        hfacts.currentAscends).mp hnew).1).distinct hschema
  obtain ⟨-, hentities⟩ := (apply_updates_eq_ok hascend hdistinct).mp hupdate
  refine ⟨hcurrent, ?_, fun d hd k field hfield e value => ?_⟩
  · rw [hentities]
    exact List.forall_mem_map.mpr fun entity hentity => (hdistinct entity hentity).after
  · rw [hentities, holds_after, last_sent_cons_iff hschema h.wellFormed hcurrent
      (fun _ hb _ hc hid => hfacts.same_presence hb hc hid) hd hfield]
    refine exists_congr fun old => and_congr_left fun _ => ?_
    rw [holds_merged_iff hmem, h.lastSent d hd k field hfield e old]

/-- A whole run. -/
theorem ThresholdRun.holds_last_sent (hschema : schema.Valid)
    (run : ThresholdRun build schema (current :: history) held) :
    HoldsLastSent build schema current history held := by
  obtain ⟨snapshots, hsnapshots⟩ : ∃ snapshots, snapshots = current :: history := ⟨_, rfl⟩
  rw [← hsnapshots] at run
  induction run generalizing current history with
  | start hfirst =>
      cases hsnapshots
      exact ⟨hfirst, fun entity hentity => (hfirst.entities entity hentity).distinct hschema,
        fun _ _ _ _ _ _ _ => Iff.rfl⟩
  | tick _ hcurrent hdelivers ih =>
      cases hsnapshots
      exact (ih rfl).tick hschema hcurrent hdelivers

/-! ## Thresholds -/

/-- The number of a numeric value. -/
def FieldValue.number : FieldValue → Option Int
  | .bool _ => none
  | .uint v | .varUInt v => some v.toNat
  | .sint v | .varSInt v | .fixedPoint v => some v.toInt

/-- Two values that differ by no more than a threshold, if they are numbers. -/
def WithinThreshold (threshold : UInt32) (value value' : FieldValue) : Prop :=
  ∀ x y, value.number = some x → value'.number = some y → (x - y).natAbs ≤ threshold.toNat

/-- Every numeric threshold field that the receiver holds differs from that of the sender by no more
than its threshold. -/
def WithinThresholds (schema : Schema) (current held : Snapshot) : Prop :=
  ∀ d ∈ schema.components, ∀ k field threshold, d.fields[k]? = some field →
    field.change = .threshold threshold → ∀ e value value', Holds held.entities e d.id k value →
      Holds current.entities e d.id k value' → WithinThreshold threshold value value'

/-- No numeric threshold field of the sender has drifted by more than its threshold from the value
that it had when it last counted as changed from one tick to the next, or appeared. -/
def NoDrift (build : Build) (schema : Schema) (current : Snapshot)
    (history : List Snapshot) : Prop :=
  ∀ d ∈ schema.components, ∀ k field threshold, d.fields[k]? = some field →
    field.change = .threshold threshold → ∀ e value value',
      LastSent build field e d.id k (current :: history) value →
      Holds current.entities e d.id k value' → WithinThreshold threshold value value'

/-- After every tick of every run, the receiver is within the thresholds of the sender exactly if no
threshold field of the sender has drifted from what was sent last. -/
theorem within_thresholds_iff {components : List ComponentDef}
    (hschema : Schema.new components = .ok schema)
    (run : ThresholdRun build schema (current :: history) held) :
    WithinThresholds schema current held ↔ NoDrift build schema current history := by
  obtain ⟨-, hvalid⟩ := schema_new_eq_ok.mp hschema
  have hsent := (run.holds_last_sent hvalid).lastSent
  unfold WithinThresholds NoDrift
  refine forall₂_congr fun d hd => forall₃_congr fun k field threshold => forall₂_congr
    fun hfield _ => forall₃_congr fun e value value' => ?_
  rw [hsent d hd k field hfield e value]

/-! ### A drifting field -/

/-- The entity whose third field has threshold 3. -/
def driftingSnapshot (tick : UInt32) (value : UInt64) : Snapshot :=
  ⟨⟨tick⟩, [⟨⟨3⟩, [⟨⟨10, nonzero_ten⟩, [.bool true, .sint (-5), .uint value, .fixedPoint 250]⟩]⟩]⟩

/-- The delta of a tick that changes the field by less than its threshold carries nothing. -/
def emptyDelta (tick baselineTick : UInt8) : List UInt8 :=
  [67, 69, 68, 83, 2, 0, 2, 0, 203, 95, 129, 138, 69, 190, 32, 147, tick, 0, 0, 0, baselineTick, 0,
    0, 0, 0, 0, 0, 0]

/-- A receiver that keeps what it has. -/
theorem delivers_nothing {previous current held held' : Snapshot} {tick baselineTick : UInt8}
    (hencode :
      encodeDeltaSnapshotForClient (goldenBuild false) goldenSchema current.tick previous.tick
      previous current goldenLimits (List.replicate 28 0) = .ok (28, emptyDelta tick baselineTick))
    (happly : applyDeltaSnapshot (goldenBuild false) goldenSchema held
      ((emptyDelta tick baselineTick).take 28) .unlimited goldenLimits = .ok held') :
    Delivers (goldenBuild false) goldenSchema previous current held held' := by
  obtain ⟨scratch, hmode⟩ := encode_delta_sparse hencode
  exact .standard (by decide) hmode happly

theorem drifting_run_six : ThresholdRun (goldenBuild false) goldenSchema
    [driftingSnapshot 6 19, driftingSnapshot 5 17] (driftingSnapshot 6 17) := by
  have hdelivers : Delivers (goldenBuild false) goldenSchema (driftingSnapshot 5 17)
      (driftingSnapshot 6 19) (driftingSnapshot 5 17) (driftingSnapshot 6 17) :=
    @delivers_nothing _ _ _ _ 6 5 (by decide +kernel) (by decide +kernel)
  exact .tick (.start (by decide)) (by decide) hdelivers

theorem drifting_run_seven : ThresholdRun (goldenBuild false) goldenSchema
    [driftingSnapshot 7 21, driftingSnapshot 6 19, driftingSnapshot 5 17]
    (driftingSnapshot 7 17) := by
  have hdelivers : Delivers (goldenBuild false) goldenSchema (driftingSnapshot 6 19)
      (driftingSnapshot 7 21) (driftingSnapshot 6 17) (driftingSnapshot 7 17) :=
    @delivers_nothing _ _ _ _ 7 6 (by decide +kernel) (by decide +kernel)
  exact .tick drifting_run_six (by decide) hdelivers

/-- The one numeric field with a threshold. -/
theorem golden_threshold_field {d : ComponentDef} (hd : d ∈ goldenSchema.components) {k : Nat}
    {field : FieldDef} {threshold : UInt32} (hfield : d.fields[k]? = some field)
    (hchange : field.change = .threshold threshold) :
    d.id = ⟨10, nonzero_ten⟩ ∧ k = 2 ∧ threshold = 3
      ∧ field = ⟨⟨3, nonzero_three⟩, .uint 5, .threshold 3⟩ := by
  obtain rfl := List.mem_singleton.mp hd
  match k with
  | 0 | 1 | 3 =>
      cases hfield
      cases hchange
  | 2 =>
      cases hfield
      cases hchange
      exact ⟨rfl, rfl, rfl, rfl⟩
  | k + 4 => cases hfield

theorem holds_drifting {tick : UInt32} {v : UInt64} {e : EntityId} {value : FieldValue}
    (h : Holds (driftingSnapshot tick v).entities e ⟨10, nonzero_ten⟩ 2 value) :
    e = ⟨3⟩ ∧ value = .uint v := by
  obtain ⟨entity, hentity, rfl, component, hcomponent, -, hvalue⟩ := h
  obtain rfl := List.mem_singleton.mp hentity
  obtain rfl := List.mem_singleton.mp hcomponent
  cases hvalue
  exact ⟨rfl, rfl⟩

theorem drifting_holds (tick : UInt32) (v : UInt64) :
    Holds (driftingSnapshot tick v).entities ⟨3⟩ ⟨10, nonzero_ten⟩ 2 (.uint v) :=
  ⟨_, List.mem_singleton_self _, rfl, _, List.mem_singleton_self _, rfl, rfl⟩

theorem no_drift_six : NoDrift (goldenBuild false) goldenSchema (driftingSnapshot 6 19)
    [driftingSnapshot 5 17] := by
  intro d hd k field threshold hfield hchange e value value' hsent hvalue' x y hx hy
  obtain ⟨hid, rfl, rfl, rfl⟩ := golden_threshold_field hd hfield hchange
  rw [hid] at hsent hvalue'
  obtain ⟨rfl, rfl⟩ := holds_drifting hvalue'
  rcases hsent with ⟨-, hnew⟩ | ⟨b, w, hb, hw, hlast⟩
  · exact absurd (drifting_holds 5 17) (hnew _)
  · obtain ⟨-, rfl⟩ := holds_drifting hb
    obtain ⟨-, rfl⟩ := holds_drifting hw
    have hsame : hasChanged (goldenBuild false) ⟨10, nonzero_ten⟩
        ⟨⟨3, nonzero_three⟩, .uint 5, .threshold 3⟩ (.uint 17) (.uint 19) = false := by
      decide +kernel
    rw [hsame] at hlast
    obtain ⟨-, rfl⟩ := holds_drifting hlast
    cases hx
    cases hy
    decide

/-- After one tick of 2 the receiver is within the threshold. -/
theorem within_thresholds_iff_six :
    WithinThresholds goldenSchema (driftingSnapshot 6 19) (driftingSnapshot 6 17) :=
  (within_thresholds_iff golden_schema_new drifting_run_six).mpr no_drift_six

/-- After two ticks of 2 each the receiver holds 17, where the sender has 21. -/
theorem threshold_drifts :
    ThresholdRun (goldenBuild false) goldenSchema
        [driftingSnapshot 7 21, driftingSnapshot 6 19, driftingSnapshot 5 17]
        (driftingSnapshot 7 17)
      ∧ ¬ WithinThresholds goldenSchema (driftingSnapshot 7 21) (driftingSnapshot 7 17) := by
  refine ⟨drifting_run_seven, fun h => ?_⟩
  have hfield := h _ (List.mem_singleton_self _) 2 _ 3 rfl rfl ⟨3⟩ (.uint 17) (.uint 21)
    (drifting_holds 7 17) (drifting_holds 7 21)
  have hnumbers := hfield 17 21 rfl rfl
  revert hnumbers
  decide

end Sdec
