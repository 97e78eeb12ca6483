import Sdec.Safety.Encoders
import Sdec.Session.Compact

/-!
# Encoders and panics

The encoders stay inside their output slice: a section is written behind the room of its length,
moved to the front and followed by the next one, and no offset passes the end. Read
`write_section_ensures` first.
-/

namespace Sdec

open Rust Bits Bitstream Codec Wire Sorted

variable {build : Build} {schema : Schema} {limits : CodecLimits} {risk : Prop}

/-! ## Sections -/

/-- `f(&mut out[start..])` for a call that keeps the length of its slice. -/
theorem with_tail_ensures {β : Type} {out : List UInt8} {start : Nat}
    {f : List UInt8 → Outcome CodecError (β × List UInt8)} (post : β → Prop)
    (h : start ≤ out.length)
    (hf : Ensures (f (out.drop start)) (fun r => post r.1 ∧ r.2.length = (out.drop start).length)
      (PanicsOnlyIf risk)) :
    Ensures (withTail out start f) (fun r => post r.1 ∧ r.2.length = out.length)
      (PanicsOnlyIf risk) := by
  rw [withTail, if_pos h]
  refine hf.bind fun r hr => ⟨hr.1, ?_⟩
  show (out.take start ++ r.2).length = out.length
  rw [List.length_append, List.length_take, hr.2, List.length_drop]
  omega

/-- The end of `write_section`, in a slice with room for the section. -/
theorem finish_section_ensures {α : Type} (a : α) (tag : UInt8) {bodyLen : Nat} {out : List UInt8}
    (hroom : 1 + VARINT_MAX_BYTES + bodyLen ≤ out.length) :
    Ensures (do
      let out ← store out 0 tag
      let varint ← slice out 1 (1 + varu32Len (UInt32.ofNat bodyLen))
      let varint ← Codec.writeVaru32 (UInt32.ofNat bodyLen) varint
      let out ← copyFromSlice out 1 varint
      let shift ← usizeSub VARINT_MAX_BYTES (varu32Len (UInt32.ofNat bodyLen))
      if shift > 0 then
        let out ← copyWithin out (1 + VARINT_MAX_BYTES) (1 + VARINT_MAX_BYTES + bodyLen)
          (1 + varu32Len (UInt32.ofNat bodyLen))
        return ((a, 1 + varu32Len (UInt32.ofNat bodyLen) + bodyLen), out)
      else
        return ((a, 1 + varu32Len (UInt32.ofNat bodyLen) + bodyLen), out) :
        Outcome CodecError ((α × Nat) × List UInt8))
      (fun r => r.1.2 ≤ out.length ∧ r.2.length = out.length) (PanicsOnlyIf risk) := by
  have hvarint := length_varu32_le (UInt32.ofNat bodyLen)
  have hsize : VARINT_MAX_BYTES = 5 := rfl
  rw [varu32_len_eq, store_of_lt (by omega), pure_bind,
    slice_of_le (Nat.le_add_right _ _) (by rw [List.length_set]; omega), pure_bind]
  have hslot : (((out.set 0 tag).take (1 + (varu32 (UInt32.ofNat bodyLen)).length)).drop 1).length
      = (varu32 (UInt32.ofNat bodyLen)).length := by
    rw [List.length_drop, List.length_take, List.length_set]
    omega
  rw [write_varu32_eq hslot, ok_bind, copy_from_slice_of_le (by rw [List.length_set]; omega),
    pure_bind, usizeSub, if_pos (by omega), pure_bind]
  obtain ⟨placed, hplaced⟩ : ∃ placed, placed = (out.set 0 tag).take 1
      ++ varu32 (UInt32.ofNat bodyLen)
      ++ (out.set 0 tag).drop (1 + (varu32 (UInt32.ofNat bodyLen)).length) := ⟨_, rfl⟩
  have hlength : placed.length = out.length := by
    rw [hplaced, List.length_append, List.length_append, List.length_take, List.length_drop,
      List.length_set]
    omega
  rw [← hplaced]
  refine Ensures.ite (fun _ => ?_) fun _ => ⟨by show _ + _ + _ ≤ _; omega, hlength⟩
  obtain ⟨moved, hmove, hmoved⟩ := copy_within_of_le (m := Outcome CodecError)
    (Nat.le_add_right (1 + VARINT_MAX_BYTES) bodyLen) (by omega : _ ≤ placed.length)
    (by omega : 1 + (varu32 (UInt32.ofNat bodyLen)).length + _ ≤ placed.length)
  rw [hmove, pure_bind]
  exact ⟨by show _ + _ + _ ≤ _; omega, hmoved.trans hlength⟩

theorem write_section_ensures {α : Type} {tag : SectionTag} {body : Call CodecError BitWriter α}
    (hbody : ∀ size, Bounded size risk body fun _ => True) (out : List UInt8) :
    Ensures (writeSection tag limits body out)
      (fun r => r.1.2 ≤ out.length ∧ r.2.length = out.length) (PanicsOnlyIf risk) := by
  unfold writeSection
  refine Ensures.check (fun _ => panics_only_if_err _) fun hroom => ?_
  have hstart : 1 + VARINT_MAX_BYTES ≤ out.length := Nat.le_of_not_lt hroom
  dsimp only
  rw [slice_of_le hstart (Nat.le_refl _), pure_bind]
  refine ((hbody _).run_on (within_new _)).bind fun r hr => ?_
  obtain ⟨a, writer⟩ := r
  have hfinish : writer.finish ≤ out.length - (1 + VARINT_MAX_BYTES) := by
    have := hr.2.finish_le
    rwa [List.length_drop, List.take_length] at this
  have hbuf : (out.take (1 + VARINT_MAX_BYTES) ++ writer.buf).length = out.length := by
    have : writer.buf.length = out.length - (1 + VARINT_MAX_BYTES) := by
      rw [hr.2.1, List.length_drop, List.take_length]
    rw [List.length_append, List.length_take, this]
    omega
  dsimp only
  refine Ensures.check (fun _ => panics_only_if_err _) fun _ => ?_
  refine Ensures.check (fun _ => panics_only_if_err _) fun _ => ?_
  refine Ensures.check (fun _ => panics_only_if_err _) fun _ => ?_
  refine (finish_section_ensures a tag.toU8 (by omega)).imp fun r h => ?_
  rwa [hbuf] at h

theorem append_section_ensures {α : Type} {c : Bool} {tag : SectionTag}
    {body : Call CodecError BitWriter α} {a : α}
    (hbody : ∀ size, Bounded size risk body fun _ => True) {offset : Nat} {out : List UInt8}
    (hoffset : offset ≤ out.length) (hlen : out.length ≤ isizeMax) :
    Ensures (appendSection c tag limits body a offset out)
      (fun r => offset ≤ r.1.2 ∧ r.1.2 ≤ out.length ∧ r.2.length = out.length)
      (PanicsOnlyIf risk) := by
  unfold appendSection
  refine Ensures.ite (fun _ => ?_) fun _ => ⟨Nat.le_refl _, hoffset, rfl⟩
  refine (with_tail_ensures (fun b => b.2 ≤ out.length - offset) hoffset
    ((write_section_ensures hbody _).imp fun r h => ?_)).bind fun r h => ?_
  · rw [List.length_drop] at h ⊢
    exact h
  obtain ⟨⟨b, written⟩, out'⟩ := r
  have hwritten : written ≤ out.length - offset := h.1
  have hmax : isizeMax ≤ usizeMax := by decide
  dsimp only
  rw [usize_add_of_le (by omega), pure_bind]
  exact ⟨Nat.le_add_right _ _, by show offset + written ≤ _; omega, h.2⟩

/-- A header in front of a payload. -/
theorem write_header_ensures (header : PacketHeader) {out : List UInt8}
    (h : HEADER_SIZE ≤ out.length) :
    Ensures (writeHeader header out) (fun out' => out'.length = out.length)
      (PanicsOnlyIf risk) := by
  rw [write_header_eq header h]
  show (header.bytes ++ out.drop HEADER_SIZE).length = out.length
  rw [List.length_append, header.length_bytes, List.length_drop]
  omega

/-! ## Payloads and packets -/

theorem encode_full_snapshot_ensures (hrisk : build.overflowChecks → ¬ schema.RangesFit → risk)
    (tick : SnapshotTick) (entities : List EntitySnapshot) {out : List UInt8}
    (hlen : out.length ≤ isizeMax) :
    Ensures (encodeFullSnapshot build schema tick entities limits out)
      (fun r => r.1 ≤ out.length ∧ r.2.length = out.length) (PanicsOnlyIf risk) := by
  unfold encodeFullSnapshot
  refine Ensures.check (fun _ => panics_only_if_err _) fun hroom => ?_
  refine Ensures.check (fun _ => panics_only_if_err _) fun _ => ?_
  have hroom : HEADER_SIZE ≤ out.length := Nat.le_of_not_lt hroom
  refine (append_section_ensures (fun _ => bounded_full_create_body hrisk entities) hroom hlen).bind
    fun r h => ?_
  obtain ⟨⟨_, offset⟩, out'⟩ := r
  obtain ⟨hstart, hend, hlength⟩ : HEADER_SIZE ≤ offset ∧ offset ≤ out.length
    ∧ out'.length = out.length := h
  dsimp only
  rw [usizeSub, if_pos hstart, pure_bind]
  refine (write_header_ensures _ (by omega)).bind fun out'' h => ?_
  exact ⟨hend, h.trans hlength⟩

section Delta

variable (hrisk : build.overflowChecks → ¬ schema.RangesFit → risk)

include hrisk

theorem encode_delta_payload_ensures {baseline current : Snapshot}
    (hcompare : build.overflowChecks → ¬ schema.SnapshotsFit baseline current → risk)
    (baselineTick : SnapshotTick) (mode : EncodeUpdateMode) (scratch : CodecScratch)
    {out : List UInt8} (hlen : out.length ≤ isizeMax) :
    Ensures (encodeDeltaPayloadWithMode build schema baselineTick baseline current
      limits mode scratch
      out) (fun r => r.1.2 ≤ out.length ∧ r.2.length = out.length) (PanicsOnlyIf risk) := by
  unfold encodeDeltaPayloadWithMode
  refine Ensures.check (fun _ => panics_only_if_err _) fun _ => ?_
  refine (ensure_entities_sorted_ensures baseline.entities).bind fun _ _ => ?_
  refine (ensure_entities_sorted_ensures current.entities).bind fun _ _ => ?_
  refine (diff_counts_ensures hcompare).bind fun counts _ => ?_
  refine Ensures.check (fun _ => panics_only_if_err _) fun _ => ?_
  refine Ensures.check (fun _ => panics_only_if_err _) fun _ => ?_
  refine Ensures.check (fun _ => panics_only_if_err _) fun _ => ?_
  refine (append_section_ensures (fun _ => bounded_destroy_body baseline current _)
    (Nat.zero_le _) hlen).bind fun r h => ?_
  obtain ⟨⟨_, destroyed⟩, out₁⟩ := r
  obtain ⟨_, hdestroyed, hlen₁⟩ : _ ∧ destroyed ≤ out.length ∧ out₁.length = out.length := h
  refine (append_section_ensures (fun _ => bounded_create_body hrisk baseline current _)
    (by omega) (by omega)).bind fun r h => ?_
  obtain ⟨⟨_, created⟩, out₂⟩ := r
  obtain ⟨_, hcreated, hlen₂⟩ : _ ∧ created ≤ out₁.length ∧ out₂.length = out₁.length := h
  refine Ensures.ite (fun _ => ?_) fun _ =>
    ⟨by show created ≤ _; omega, by show out₂.length = _; omega⟩
  refine Ensures.bind (q := fun _ => True) ?_ fun chosen _ => ?_
  · unfold chooseUpdateEncoding
    cases mode with
    | auto => exact select_update_encoding_ensures hcompare scratch
    | sparse => exact trivial
  obtain ⟨updateEncoding, scratch'⟩ := chosen
  have hbody (size : Nat) :
      Bounded size risk (updateEncoding.encodeBody build schema baseline current
      counts.updates limits scratch') fun _ => True := by
    cases updateEncoding with
    | masked => exact bounded_masked_body hrisk hcompare _ _
    | sparse => exact bounded_sparse_body hrisk hcompare sparse_packed_bounded _ _
  refine (append_section_ensures hbody (by omega) (by omega)).imp fun r h => ?_
  exact ⟨by omega, by omega⟩

theorem encode_delta_payload_from_updates_ensures (hschema : schema.Valid)
    (destroys : List EntityId) (creates : List EntitySnapshot) (updates : List DeltaUpdateEntity)
    {out : List UInt8} (hlen : out.length ≤ isizeMax) :
    Ensures (encodeDeltaPayloadFromUpdates build schema destroys creates updates limits out)
      (fun r => r.1 ≤ out.length ∧ r.2.length = out.length) (PanicsOnlyIf risk) := by
  unfold encodeDeltaPayloadFromUpdates
  refine Ensures.check (fun _ => panics_only_if_err _) fun _ => ?_
  refine Ensures.check (fun _ => panics_only_if_err _) fun _ => ?_
  refine Ensures.check (fun _ => panics_only_if_err _) fun _ => ?_
  refine (ensure_sorted_ensures none _).bind fun _ _ => ?_
  refine (ensure_entities_sorted_ensures creates).bind fun _ _ => ?_
  refine (validate_updates_ensures hschema updates).bind fun _ hupdates => ?_
  refine (append_section_ensures (fun _ => bounded_listed_destroy_body destroys)
    (Nat.zero_le _) hlen).bind fun r h => ?_
  obtain ⟨⟨_, destroyed⟩, out₁⟩ := r
  obtain ⟨_, hdestroyed, hlen₁⟩ : _ ∧ destroyed ≤ out.length ∧ out₁.length = out.length := h
  refine (append_section_ensures (fun _ => bounded_listed_create_body hrisk creates)
    (by omega) (by omega)).bind fun r h => ?_
  obtain ⟨⟨_, created⟩, out₂⟩ := r
  obtain ⟨_, hcreated, hlen₂⟩ : _ ∧ created ≤ out₁.length ∧ out₂.length = out₁.length := h
  refine (append_section_ensures (fun _ => bounded_listed_update_body hschema hrisk hupdates)
    (by omega) (by omega)).bind fun r h => ?_
  obtain ⟨⟨_, updated⟩, out₃⟩ := r
  obtain ⟨_, hupdated, hlen₃⟩ : _ ∧ updated ≤ out₂.length ∧ out₃.length = out₂.length := h
  exact ⟨by show updated ≤ _; omega, by show out₃.length = _; omega⟩

omit hrisk in
theorem encode_delta_packet_ensures {α : Type} (tick baselineTick : SnapshotTick)
    {encodePayload : List UInt8 → Outcome CodecError ((α × Nat) × List UInt8)} {out : List UInt8}
    (hlen : out.length ≤ isizeMax)
    (hpayload : ∀ tail : List UInt8, tail.length ≤ isizeMax → Ensures (encodePayload tail)
      (fun r => r.1.2 ≤ tail.length ∧ r.2.length = tail.length) (PanicsOnlyIf risk)) :
    Ensures (encodeDeltaPacket build schema tick baselineTick encodePayload out)
      (fun r => r.1.2 ≤ out.length ∧ r.2.length = out.length) (PanicsOnlyIf risk) := by
  unfold encodeDeltaPacket
  refine Ensures.check (fun _ => panics_only_if_err _) fun hroom => ?_
  have hroom : HEADER_SIZE ≤ out.length := Nat.le_of_not_lt hroom
  have hdrop : (out.drop HEADER_SIZE).length = out.length - HEADER_SIZE := List.length_drop
  refine (with_tail_ensures (fun b => b.2 ≤ out.length - HEADER_SIZE) hroom
    ((hpayload _ (by omega)).imp fun r h => ?_)).bind fun r h => ?_
  · rw [hdrop] at h ⊢
    exact h
  obtain ⟨⟨a, payloadLen⟩, out₁⟩ := r
  obtain ⟨hsize, hlen₁⟩ : payloadLen ≤ out.length - HEADER_SIZE ∧ out₁.length = out.length := h
  have hmax : isizeMax ≤ usizeMax := by decide
  dsimp only
  refine (write_header_ensures _ (by omega)).bind fun out₂ hlen₂ => ?_
  rw [usize_add_of_le (by omega), pure_bind]
  exact ⟨by show HEADER_SIZE + payloadLen ≤ _; omega, by show out₂.length = _; omega⟩

/-- The encoder of change lists. -/
theorem encode_delta_from_updates_ensures (hschema : schema.Valid)
    (tick baselineTick : SnapshotTick) (destroys : List EntityId) (creates : List EntitySnapshot)
    (updates : List DeltaUpdateEntity) {out : List UInt8} (hlen : out.length ≤ isizeMax) :
    Ensures (encodeDeltaSnapshotFromUpdates build schema tick baselineTick destroys creates updates
      limits out) (fun r => r.1 ≤ out.length ∧ r.2.length = out.length) (PanicsOnlyIf risk) := by
  unfold encodeDeltaSnapshotFromUpdates
  refine (encode_delta_packet_ensures tick baselineTick hlen fun tail htail => ?_).bind fun _ h => h
  exact (encode_delta_payload_from_updates_ensures hrisk hschema destroys creates
    updates htail).bind
    fun _ h => h

omit hrisk in
theorem write_session_header_ensures {flags : SessionFlags} (hflags : flags.isValid)
    (tickDelta baselineDelta payloadLen : UInt32) {out : List UInt8} (hlen : out.length ≤ isizeMax)
    (hfits : SESSION_MAX_HEADER_SIZE ≤ out.length) :
    Ensures (writeSessionHeader flags tickDelta baselineDelta payloadLen out)
      (fun r => r.1 ≤ SESSION_MAX_HEADER_SIZE ∧ r.2.length = out.length) (PanicsOnlyIf risk) := by
  have hsize := @length_session_header_bytes_le flags tickDelta baselineDelta payloadLen
  rw [write_session_header_eq hflags _ _ _ hlen hfits]
  refine ⟨hsize, ?_⟩
  show (_ ++ _ : List UInt8).length = out.length
  rw [List.length_append, List.length_drop]
  omega

/-- The session encoder, from any last tick. -/
theorem keeps_encode_session_delta {baseline current : Snapshot}
    (hcompare : build.overflowChecks → ¬ schema.SnapshotsFit baseline current → risk)
    (tick baselineTick : SnapshotTick) (scratch : CodecScratch) {out : List UInt8}
    (hlen : out.length ≤ isizeMax) :
    Keeps (fun _ => True) (encodeDeltaSnapshotForClientSessionWithScratch build schema tick
      baselineTick baseline current limits scratch out)
      (fun r => r.1.2 ≤ out.length ∧ r.2.length = out.length) (PanicsOnlyIf risk) := by
  unfold encodeDeltaSnapshotForClientSessionWithScratch
  refine Keeps.get fun lastTick _ => ?_
  dsimp only
  refine Keeps.check (fun _ => panics_only_if_err _) fun hroom => ?_
  refine Keeps.check (fun _ => panics_only_if_err _) fun hlater => ?_
  refine Keeps.check (fun _ => panics_only_if_err _) fun hbefore => ?_
  have hroom : SESSION_MAX_HEADER_SIZE ≤ out.length := Nat.le_of_not_lt hroom
  have hdrop : (out.drop SESSION_MAX_HEADER_SIZE).length = out.length - SESSION_MAX_HEADER_SIZE :=
    List.length_drop
  refine (Keeps.lift (with_tail_ensures (fun b => b.2 ≤ out.length - SESSION_MAX_HEADER_SIZE)
    hroom ((encode_delta_payload_ensures hrisk hcompare baselineTick .sparse scratch
      (by omega)).imp fun r h => ?_))).bind fun r h => ?_
  · rw [hdrop] at h ⊢
    exact h
  obtain ⟨⟨scratch', payloadLen⟩, out₁⟩ := r
  obtain ⟨hsize, hlen₁⟩ : payloadLen ≤ out.length - SESSION_MAX_HEADER_SIZE
    ∧ out₁.length = out.length := h
  have hmax : isizeMax ≤ usizeMax := by decide
  dsimp only
  rw [u32_sub_of_le (UInt32.le_of_lt (UInt32.not_le.mp hlater)), pure_bind,
    u32_sub_of_le (UInt32.not_lt.mp hbefore), pure_bind]
  refine (Keeps.lift (write_session_header_ensures rfl _ _ _ (by omega) (by omega))).bind
    fun r h => ?_
  obtain ⟨headerLen, out₂⟩ := r
  obtain ⟨hheader, hlen₂⟩ : headerLen ≤ SESSION_MAX_HEADER_SIZE ∧ out₂.length = out₁.length := h
  dsimp only
  rw [usize_add_of_le (by omega), pure_bind]
  have hrest (moved : List UInt8) (hmoved : moved.length = out₂.length) :
      Keeps (fun _ => True) (do
        set tick
        let len ← usizeAdd headerLen payloadLen
        return ((scratch', len), moved) :
          Call CodecError SnapshotTick ((CodecScratch × Nat) × List UInt8))
        (fun r => r.1.2 ≤ out.length ∧ r.2.length = out.length) (PanicsOnlyIf risk) := by
    refine (Keeps.set trivial).bind fun _ _ => ?_
    rw [usize_add_of_le (by omega), pure_bind]
    exact Keeps.pure ⟨by show headerLen + payloadLen ≤ _; omega, by show moved.length = _; omega⟩
  refine Keeps.ite (fun _ => ?_) fun _ => ?_
  · obtain ⟨moved, hmove, hmoved⟩ := copy_within_of_le (m := Call CodecError SnapshotTick)
      (Nat.le_add_right SESSION_MAX_HEADER_SIZE payloadLen) (by omega : _ ≤ out₂.length)
      (by omega : headerLen + _ ≤ out₂.length)
    rw [hmove, pure_bind]
    exact hrest moved hmoved
  · rw [pure_bind]
    exact hrest out₂ rfl

end Delta

end Sdec
