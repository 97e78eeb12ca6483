import Sdec.Bitstream.Blind
import Sdec.Session.Compact

/-!
# The buffer of an encoder

No encoder reads the buffer that it fills. Its section bodies are blind and end at a byte boundary,
so that each section, payload and packet has the same bytes in every buffer with room for it. Read
`steady_delta_payload` first. None of this depends on the schema being valid.
-/

namespace Sdec

open Rust Bits Bitstream Codec Wire Sorted

variable {build : Build} {schema : Schema} {limits : CodecLimits}

/-! ## Section bodies -/

theorem blind_write_field_value (id : ComponentId) (field : FieldDef) (value : FieldValue) :
    Blind Anywhere (writeFieldValue build id field value) :=
  Blind.of_emits fun _ => ⟨_, _, _, emits_write_field_value id field value⟩

theorem blind_write_sparse_entry (entityId : UInt32) (component : ComponentDef)
    (curr : ComponentSnapshot) (fieldMask : List Bool) :
    Blind Anywhere (Delta.writeSparseEntry build Delta.sparsePacked entityId component curr
      fieldMask) := by
  have hfields : Blind Anywhere (Delta.writeSparseFields build Delta.sparsePacked component curr
      fieldMask) := by
    refine Blind.forM (fun entry => ?_) _
    obtain ⟨field, idx⟩ := entry
    have hindex : Blind Anywhere (Delta.sparsePacked.writeIndex component idx) :=
      Blind.ite (Blind.write_bits _ _).map_err (Blind.pure _)
    refine (Blind.index _ _).bind fun changed => ?_
    cases changed with
    | false => exact Blind.pure _
    | true =>
        refine hindex.bind fun _ => (Blind.index _ _).bind fun _ => ?_
        exact blind_write_field_value _ _ _
  unfold Delta.writeSparseEntry
  refine Blind.ite (Blind.align_to_byte.anywhere.map_err.bind fun _ => ?_) (Blind.pure _)
  have hkey : Blind Anywhere (Delta.sparsePacked.writeKey entityId component.id) :=
    (Blind.write_varu32 _).map_err.bind fun _ => (Blind.write_varu32 _).map_err
  exact hkey.bind fun _ => (Blind.write_varu32 _).map_err.bind fun _ => hfields

variable {baseline current : Snapshot}

theorem blind_encode_update_body_sparse (count : Nat) (scratch : CodecScratch) :
    Blind AtByte (Delta.encodeUpdateBodySparsePacked build schema baseline current count limits
      scratch) := by
  unfold Delta.encodeUpdateBodySparsePacked Delta.encodeUpdateBodySparse
  refine Blind.check ((Blind.lift _).bind fun counted => Blind.check ?_)
  refine Blind.align_to_byte.anywhere.map_err.bind fun _ => (Blind.write_varu32 _).map_err.bind
    fun _ => ?_
  refine (Blind.foldlM (fun s step => ?_) _ _).bind fun s => Blind.align_to_byte.map_err.map s
  cases step with
  | left b => exact Blind.pure s
  | right c => exact Blind.pure s
  | both b c =>
      refine (Blind.lift _).bind fun updated => Blind.ite ?_ (Blind.pure s)
      refine Blind.foldlM (fun s component => (Blind.lift _).bind fun found => ?_) _ _
      obtain ⟨scanned, scratch⟩ := found
      cases scanned with
      | none => exact Blind.pure _
      | some p => exact (blind_write_sparse_entry _ _ _ _).bind fun _ => Blind.pure _

/-- The body of an update section, in either encoding. -/
theorem exists_update_body (encoding : UpdateEncoding) (scratch : CodecScratch) :
    ∃ items body, ofBytes body = render 0 items
      ∧ Writes 0 (encoding.encodeBody build schema baseline current
        (diff build schema baseline current).updates.length limits scratch)
          (fun _ => True) items := by
  cases encoding with
  | masked =>
      obtain ⟨body, hbody⟩ := exists_body (diff build schema baseline current).updates.length
        (maskedSectionLayout build schema baseline current)
      exact ⟨_, body, hbody, writes_encode_masked_body.mono fun _ _ => trivial⟩
  | sparse => exact (blind_encode_update_body_sparse _ scratch).writes

/-! ## Packets -/

/-- The update section, if there are updates. -/
theorem steady_update_section (mode : EncodeUpdateMode) (scratch : CodecScratch) :
    ∃ need bytes, Appends (fun offset out => do
      if (diff build schema baseline current).updates.length > 0 then
        let choice ← chooseUpdateEncoding build schema baseline current limits scratch mode
        appendSection true choice.1.tag limits
          (choice.1.encodeBody build schema baseline current
            (diff build schema baseline current).updates.length limits choice.2)
          choice.2 offset out
      else
        return ((scratch, offset), out)) (fun _ => True) need bytes := by
  by_cases hsome : (diff build schema baseline current).updates.length > 0
  · simp only [if_pos hsome]
    cases hchoose : chooseUpdateEncoding build schema baseline current limits scratch mode with
    | error e => exact ⟨0, [], .inl fun _ _ _ => ⟨e, rfl⟩⟩
    | ok choice =>
        obtain ⟨items, body, hbody, hwrites⟩ :=
          @exists_update_body build schema limits baseline current choice.1 choice.2
        have hsection := @appends_section limits items _ true choice.1.tag _ _ body
          (fun _ => hwrites) hbody choice.2 fun _ => trivial
        exact ⟨_, _, hsection.mono fun _ _ => trivial⟩
  · simp only [if_neg hsome]
    exact ⟨0, [], Appends.pure trivial⟩

theorem steady_delta_payload (baselineTick : SnapshotTick) (mode : EncodeUpdateMode)
    (scratch : CodecScratch) :
    ∃ need bytes, Puts
      (encodeDeltaPayloadWithMode build schema baselineTick baseline current limits mode scratch)
      (fun _ => True) need bytes := by
  obtain ⟨d, hd⟩ : ∃ d, d = diff build schema baseline current := ⟨_, rfl⟩
  obtain ⟨destroyBody, hdestroy⟩ := exists_body d.destroys.length (destroyLayout d.destroys)
  obtain ⟨createBody, hcreate⟩ := exists_body d.creates.length (createLayout schema d.creates)
  obtain ⟨need, bytes, hupdates⟩ :=
    @steady_update_section build schema limits baseline current mode scratch
  rw [← hd] at hupdates
  have hsections :=
    @appends_delta_sections limits _ (d.destroys.length > 0) (d.creates.length > 0) _ _ _
      _ _ _ _ _ _ _ _ _ (@writes_encode_destroy_body limits 0 d.destroys)
      (@writes_encode_create_body build schema limits 0 d.creates) hdestroy hcreate hupdates
  obtain ⟨room, payload, hpayload⟩ : ∃ room payload, Puts _ (fun _ => True) room payload :=
    ⟨_, _, (hsections.mono fun _ _ => trivial).puts⟩
  refine ⟨room, payload, ?_⟩
  unfold encodeDeltaPayloadWithMode
  refine Puts.check fun _ => Puts.lift fun _ _ => Puts.lift fun _ _ =>
    Puts.lift fun counts hcounts => ?_
  obtain rfl := diff_counts_eq hcounts
  simp only [encode_destroy_body_eq, encode_create_body_eq]
  rw [← hd]
  refine Puts.check fun _ => Puts.check fun _ => Puts.check fun _ => ?_
  exact hpayload

end Sdec
