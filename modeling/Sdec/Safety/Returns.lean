import Sdec.Safety.EncodePanics
import Sdec.Safety.Overflow
import Sdec.Schema.Hash

/-!
# Encoders return

Which encoders return for every input and every output slice, with at most the length of the slice.
Read `encoders_return_iff` first. The encoder of the packet that starts a session slices its output
before it looks at the length. The others return unless an `i64` overflows in a build that checks
for it, and the schema decides whether some input makes it overflow.
-/

namespace Sdec

open Rust Bits Bitstream Codec Wire Sorted

variable {build : Build} {schema : Schema} {limits : CodecLimits}

/-! ## The packet that starts a session -/

theorem bounded_session_init_body {size : Nat} (sessionId : Option UInt64)
    (mode : CompactHeaderMode) :
    Bounded size False (encodeSessionInitBody sessionId mode) fun _ => True := by
  unfold encodeSessionInitBody
  refine bounded_align.bind fun _ _ => ?_
  refine (bounded_stream (keeps_write_bytes_aligned _)).bind fun _ _ => ?_
  refine (bounded_stream (keeps_write_u8_aligned _)).bind fun _ _ => ?_
  exact bounded_align

theorem encode_session_init_ensures (tick : SnapshotTick) (sessionId : Option UInt64)
    (mode : CompactHeaderMode) {out : List UInt8} (hlen : out.length ≤ isizeMax)
    (hroom : HEADER_SIZE ≤ out.length) :
    Ensures (encodeSessionInitPacket build schema tick sessionId mode limits out)
      (fun r => r.1 ≤ out.length ∧ r.2.length = out.length) (PanicsOnlyIf False) := by
  unfold encodeSessionInitPacket
  refine (with_tail_ensures (fun b => b.2 ≤ out.length - HEADER_SIZE) hroom
    ((write_section_ensures (fun _ => bounded_session_init_body sessionId mode) _).imp
      fun r h => ?_)).bind fun r h => ?_
  · rw [List.length_drop] at h ⊢
    exact h
  obtain ⟨⟨_, bodyLen⟩, out₁⟩ := r
  obtain ⟨hsize, hlen₁⟩ : bodyLen ≤ out.length - HEADER_SIZE ∧ out₁.length = out.length := h
  have hmax : isizeMax ≤ usizeMax := by decide
  dsimp only
  rw [usize_add_of_le (by omega), pure_bind, usizeSub, if_pos (Nat.le_add_right _ _), pure_bind]
  refine (write_header_ensures _ (by omega)).bind fun out₂ hlen₂ => ?_
  exact ⟨by show HEADER_SIZE + bodyLen ≤ _; omega, by show out₂.length = _; omega⟩

/-- In a slice that is shorter than the header, it panics. -/
theorem encode_session_init_panic (tick : SnapshotTick) (sessionId : Option UInt64)
    (mode : CompactHeaderMode) {out : List UInt8} (h : out.length < HEADER_SIZE) :
    encodeSessionInitPacket build schema tick sessionId mode limits out = .error .panic := by
  unfold encodeSessionInitPacket withTail
  rw [if_neg (Nat.not_le.mpr h)]
  rfl

/-! ## What an encoder returns -/

/-- The call does not panic, and a value that it returns stands for at most the length of the slice,
which the call keeps. -/
def ReturnsWithin {β : Type} (out : List UInt8) (len : β → Nat)
    (x : Outcome CodecError (β × List UInt8)) : Prop :=
  x ≠ .error .panic ∧ ∀ b out', x = .ok (b, out') → len b ≤ out.length ∧ out'.length = out.length

section ReturnsWithin

variable {β : Type} {out : List UInt8} {len : β → Nat} {x : Outcome CodecError (β × List UInt8)}

theorem ReturnsWithin.of_ensures
    (h : Ensures x (fun r => len r.1 ≤ out.length ∧ r.2.length = out.length) (PanicsOnlyIf False)) :
    ReturnsWithin out len x := by
  refine ⟨fun hpanic => ?_, fun b out' hx => h.of_ok hx⟩
  exact h.of_error hpanic rfl

end ReturnsWithin

/-- What the encoders take. A slice is never longer than `isize::MAX`. -/
structure EncoderInput where
  tick : SnapshotTick
  baselineTick : SnapshotTick
  lastTick : SnapshotTick
  entities : List EntitySnapshot
  baseline : Snapshot
  current : Snapshot
  destroys : List EntityId
  creates : List EntitySnapshot
  updates : List DeltaUpdateEntity
  limits : CodecLimits
  scratch : CodecScratch
  out : List UInt8
  length_out : out.length ≤ isizeMax

/-- Each encoder of snapshots returns. -/
structure EncodersReturn (build : Build) (schema : Schema) (input : EncoderInput) : Prop where
  full : ReturnsWithin input.out id
    (encodeFullSnapshot build schema input.tick input.entities input.limits input.out)
  delta : ReturnsWithin input.out id (encodeDeltaSnapshot build schema input.tick input.baselineTick
    input.baseline input.current input.limits input.out)
  deltaWithScratch : ReturnsWithin input.out Prod.snd (encodeDeltaSnapshotWithScratch build schema
    input.tick input.baselineTick input.baseline input.current input.limits input.scratch input.out)
  client : ReturnsWithin input.out id (encodeDeltaSnapshotForClient build schema input.tick
    input.baselineTick input.baseline input.current input.limits input.out)
  clientWithScratch :
    ReturnsWithin input.out Prod.snd (encodeDeltaSnapshotForClientWithScratch build
    schema input.tick input.baselineTick input.baseline input.current input.limits input.scratch
    input.out)
  session : ReturnsWithin input.out id ((encodeDeltaSnapshotForClientSession build schema input.tick
    input.baselineTick input.baseline input.current input.limits input.out).evalOn input.lastTick)
  sessionWithScratch : ReturnsWithin input.out Prod.snd
    ((encodeDeltaSnapshotForClientSessionWithScratch build schema input.tick input.baselineTick
      input.baseline input.current input.limits input.scratch input.out).evalOn input.lastTick)
  fromUpdates : ReturnsWithin input.out id (encodeDeltaSnapshotFromUpdates build schema input.tick
    input.baselineTick input.destroys input.creates input.updates input.limits input.out)
  fromChanges : ReturnsWithin input.out id (encodeDeltaFromChanges build ⟨schema, input.limits⟩
    input.tick input.baselineTick input.creates input.destroys input.updates input.out)

/-- The encoders return where the fixed-point ranges and the compared differences fit. -/
theorem encoders_return_of_fit (hschema : schema.Valid) {input : EncoderInput}
    (hranges : build.overflowChecks → schema.RangesFit)
    (hcompare : build.overflowChecks → schema.SnapshotsFit input.baseline input.current) :
    EncodersReturn build schema input := by
  have hrange (hchecks : build.overflowChecks) (hnot : ¬ schema.RangesFit) : False :=
    hnot (hranges hchecks)
  have hpair (hchecks : build.overflowChecks)
      (hnot : ¬ schema.SnapshotsFit input.baseline input.current) : False :=
    hnot (hcompare hchecks)
  have hdelta (mode : EncodeUpdateMode) (scratch : CodecScratch) :
      Ensures (encodeDeltaSnapshotWithScratchMode build schema input.tick input.baselineTick
        input.baseline input.current input.limits mode scratch input.out)
        (fun r => r.1.2 ≤ input.out.length ∧ r.2.length = input.out.length) (PanicsOnlyIf False) :=
    encode_delta_packet_ensures _ _ input.length_out fun _ htail =>
      encode_delta_payload_ensures hrange hpair input.baselineTick mode scratch htail
  have hsession (scratch : CodecScratch) :=
    @keeps_encode_session_delta build schema input.limits False
      hrange input.baseline input.current hpair input.tick input.baselineTick scratch input.out
      input.length_out
  have hlisted : Ensures (encodeDeltaSnapshotFromUpdates build schema input.tick
      input.baselineTick input.destroys input.creates input.updates input.limits input.out)
      (fun r => r.1 ≤ input.out.length ∧ r.2.length = input.out.length) (PanicsOnlyIf False) :=
    encode_delta_from_updates_ensures hrange hschema _ _ _ _ _ input.length_out
  refine ⟨?_, ?_, ?_, ?_, ?_, ?_, ?_, ?_, ?_⟩
  all_goals refine ReturnsWithin.of_ensures ?_
  · exact encode_full_snapshot_ensures hrange input.tick input.entities input.length_out
  · exact (hdelta .auto .default).bind fun _ h => h
  · exact hdelta .auto input.scratch
  · exact (hdelta .sparse .default).bind fun _ h => h
  · exact hdelta .sparse input.scratch
  · exact ((hsession .default).bind fun _ h => Keeps.pure h).eval_on trivial
  · exact (hsession input.scratch).eval_on trivial
  · exact hlisted
  · exact hlisted

/-- Without thresholds no difference is computed. -/
theorem Schema.WithoutThresholds.snapshots_fit (h : schema.WithoutThresholds)
    (baseline current : Snapshot) : schema.SnapshotsFit baseline current := by
  intro b _ c _ _ component hcomponent base curr _ _ t ht
  have halways := h component hcomponent t.1 (List.of_mem_zip ht).1
  unfold FieldDef.ComparisonFits
  rw [halways]
  trivial

/-- The encoder of the packet that starts a session returns exactly on the slices with room for the
header. The encoders of snapshots return on every input exactly if the schema has no fixed-point
range that leaves the `i64` and no threshold, or the build does not check the arithmetic; and on
each input whose compared differences are `i64`s. -/
theorem encoders_return_iff {components : List ComponentDef} (build : Build)
    (hnew : Schema.new components = .ok schema) :
    (∀ tick sessionId mode limits out, out.length ≤ isizeMax →
      (ReturnsWithin out id
          (encodeSessionInitPacket build schema tick sessionId mode limits out)
        ↔ HEADER_SIZE ≤ out.length))
    ∧ ((∀ input, EncodersReturn build schema input)
        ↔ (build.overflowChecks → schema.RangesFit ∧ schema.WithoutThresholds))
    ∧ ∀ input : EncoderInput, (build.overflowChecks → schema.RangesFit
        ∧ schema.SnapshotsFit input.baseline input.current) →
      EncodersReturn build schema input := by
  have hschema := (schema_new_eq_ok.mp hnew).2
  refine ⟨fun tick sessionId mode limits out hlen => ⟨fun hreturns => ?_, fun hroom => ?_⟩,
    ⟨fun hreturns hchecks => ⟨?_, ?_⟩, fun hfits input => ?_⟩, fun input hfits => ?_⟩
  · by_contra hshort
    exact hreturns.1 (encode_session_init_panic tick sessionId mode (Nat.lt_of_not_le hshort))
  · exact .of_ensures (encode_session_init_ensures tick sessionId mode hlen hroom)
  · -- a range that is too wide is met by the least value of its field
    by_contra hwide
    obtain ⟨entities, limits, out, hlen, hpanic⟩ :=
      exists_full_snapshot_panic hchecks hschema hwide ⟨0⟩
    exact (hreturns ⟨⟨0⟩, ⟨0⟩, ⟨0⟩, entities, ⟨⟨0⟩, []⟩, ⟨⟨0⟩, []⟩, [], [], [], limits, .default,
      out, hlen⟩).full.1 hpanic
  · -- a threshold, by the least and the greatest number
    by_contra hthreshold
    obtain ⟨baseline, current, limits, out, hlen, hpanic⟩ :=
      exists_delta_panic hchecks hschema hthreshold ⟨0⟩ ⟨0⟩
    exact (hreturns ⟨⟨0⟩, ⟨0⟩, ⟨0⟩, [], baseline, current, [], [], [], limits, .default, out,
      hlen⟩).delta.1 hpanic
  · exact encoders_return_of_fit hschema (fun hchecks => (hfits hchecks).1)
      fun hchecks => (hfits hchecks).2.snapshots_fit _ _
  · exact encoders_return_of_fit hschema (fun hchecks => (hfits hchecks).1)
      fun hchecks => (hfits hchecks).2

/-- The golden schema compares a field by a threshold. -/
theorem encoders_return_iff_golden :
    (∀ input, EncodersReturn (goldenBuild false) goldenSchema input)
      ∧ ¬ ∀ input, EncodersReturn (goldenBuild true) goldenSchema input := by
  refine ⟨(encoders_return_iff _ golden_schema_new).2.1.mpr (fun h => by cases h), fun h => ?_⟩
  have hfits := (encoders_return_iff _ golden_schema_new).2.1.mp h rfl
  have hthreshold := hfits.2 _ List.mem_cons_self ⟨⟨3, nonzero_three⟩, .uint 5, .threshold 3⟩
    (List.mem_cons_of_mem _ (List.mem_cons_of_mem _ List.mem_cons_self))
  cases hthreshold

/-- An empty slice. -/
theorem session_init_panics_on_short_output :
    Schema.new goldenSchema.components = .ok goldenSchema
      ∧ encodeSessionInitPacket (goldenBuild false) goldenSchema ⟨1⟩ none .sessionV1 goldenLimits []
        = .error .panic :=
  ⟨golden_schema_new, rfl⟩

end Sdec
