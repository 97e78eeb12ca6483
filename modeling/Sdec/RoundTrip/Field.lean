import Sdec.Bitstream.Window
import Sdec.Safety.Limits

/-!
# Single field values

One value that is written into a buffer, anywhere in it, and read back. Read
`field_value_round_trip` first. The writer emits the layout of the value, the readers parse it, and
a window around the position takes care of buffers with more bits than a `usize` counts.
-/

namespace Sdec

open Rust Bits Bitstream Codec

variable {build : Build} {schema : Schema}

/-- Where `i64` arithmetic wraps, every valid codec can be written. -/
theorem FieldCodec.Valid.writable {codec : FieldCodec} (h : codec.Valid)
    (hbuild : ¬ build.overflowChecks) : codec.Writable build := by
  cases codec with
  | bool | varUInt | varSInt => trivial
  | uint bits | sint bits => exact h.2
  | fixedPoint fp => exact fun hchecks => absurd hchecks hbuild

/-- Where `i64` arithmetic wraps, every value can be read. -/
theorem FieldCodec.readable_of_wraps (hbuild : ¬ build.overflowChecks) (codec : FieldCodec)
    (value : FieldValue) : codec.Readable build value := by
  unfold FieldCodec.Readable
  split
  · exact fun hchecks => absurd hchecks hbuild
  · exact fun hchecks => absurd hchecks hbuild
  · trivial

theorem windowed_i64 {ε α : Type} {exact : Int} {wrapped : Int64}
    {next : Int64 → Call ε BitReader α} (h : Windowed (next wrapped)) :
      Windowed (build.i64 exact wrapped >>= next) := by
  unfold Build.i64
  by_cases hpanic : build.overflowChecks ∧ wrapped.toInt ≠ exact
  · rw [if_pos hpanic]
    intro before window after pos a reader hrun
    cases hrun
  · rw [if_neg hpanic, pure_bind]
    exact h

theorem windowed_read_field_value (componentId : ComponentId) (field : FieldDef) :
    Windowed (readFieldValue build componentId field) := by
  unfold readFieldValue
  cases field.codec with
  | bool => exact windowed_read_bit.map_err.bind fun _ => Windowed.pure _
  | uint bits =>
      exact (windowed_read_bits bits).map_err.bind fun _ => Windowed.lift.bind fun _ =>
        Windowed.pure _
  | sint bits =>
      exact (windowed_read_bits bits).map_err.bind fun _ => Windowed.lift.bind fun _ =>
        Windowed.pure _
  | varUInt =>
      exact windowed_align_to_byte.map_err.bind fun _ => windowed_read_varu32.map_err.bind fun _ =>
        Windowed.pure _
  | varSInt =>
      exact windowed_align_to_byte.map_err.bind fun _ => windowed_read_vars32.map_err.bind fun _ =>
        Windowed.pure _
  | fixedPoint fp =>
      have hrest (offset : UInt64) : Windowed (do
          let value ← build.add fp.minQ offset.toInt64
          if value < fp.minQ ∨ value > fp.maxQ then
            fail (.invalidValue componentId field.id (.fixedPointOutOfRange fp.minQ fp.maxQ value))
          return FieldValue.fixedPoint value : Call CodecError BitReader FieldValue) :=
        windowed_i64 (Windowed.check (Windowed.pure _))
      refine windowed_i64 (Windowed.ite ?_ ?_)
      · exact (Windowed.pure 0).bind hrest
      · exact (windowed_read_bits _).map_err.bind hrest

/-- Every value in the range of its codec is written at every position with room for it, by both
copies of the writer alike, and read back from there by both copies of the reader, which stop where
the writer did. Other values are not written. -/
theorem field_value_round_trip {components : List ComponentDef} {component : ComponentDef}
    {field : FieldDef} (hnew : Schema.new components = .ok schema)
    (hcomponent : component ∈ schema.components) (hfield : field ∈ component.fields)
    (hbuild : ¬ build.overflowChecks) (componentId : ComponentId) (value : FieldValue)
    (writer : BitWriter)
    (hroom : stop writer.bitPos (fieldLayout field.codec value) ≤ capacity writer.buf) :
    ((∃ written, writeFieldValue build componentId field value writer = .ok () written) ↔
        field.codec.Contains value) ∧
      writeFieldValueSparse build componentId field value writer
        = writeFieldValue build componentId field value writer ∧
      ∀ written, writeFieldValue build componentId field value writer = .ok () written →
        readFieldValue build componentId field ⟨written.buf, writer.bitPos⟩
            = .ok value ⟨written.buf, written.bitPos⟩ ∧
          readFieldValueSparse build componentId field ⟨written.buf, writer.bitPos⟩
            = .ok value ⟨written.buf, written.bitPos⟩ := by
  have hvalid := ((schema_new_eq_ok.mp hnew).2.components component hcomponent).codecs field hfield
  have hpos := Nat.le_trans (le_stop _ _) hroom
  obtain ⟨hwrite, hrefuse⟩ :=
    @emits_write_field_value build writer.bitPos componentId field value writer.buf hpos
  by_cases hvalue : field.codec.Contains value
  · obtain ⟨buf, hrun, hbits⟩ := hwrite ⟨hvalue, hvalid.writable hbuild⟩ hroom
    have hread (pos : Nat) : Parses pos (readFieldValue build componentId field)
        (fieldLayout field.codec value) value :=
      (reads_read_field_value componentId hvalid hvalue).1 (FieldCodec.readable_of_wraps hbuild _ _)
    have hlength : (ofBytes writer.buf).length = 8 * writer.buf.length := length_ofBytes _
    have hinside := Nat.le_trans hpos (capacity_le writer.buf)
    have hdata : (ofBytes buf).drop writer.bitPos
        = render writer.bitPos (fieldLayout field.codec value) ++ (ofBytes writer.buf).drop
          (writer.bitPos + (render writer.bitPos (fieldLayout field.codec value)).length) := by
      rw [hbits, overwrite, List.append_assoc, List.drop_left' (by
        rw [List.length_take, Nat.min_eq_left hinside])]
    have hback := Parses.of_room hread (windowed_read_field_value componentId field)
      (stop_field_layout_le hvalid value) hdata
      (by rw [← capacity, capacity_eq_of_overwrite hbits hroom]; exact hroom)
    refine ⟨iff_of_true ⟨_, hrun⟩ hvalue, rfl, fun written hwritten => ?_⟩
    have hsame : written = ⟨buf, stop writer.bitPos (fieldLayout field.codec value)⟩ := by
      cases hrun.symm.trans hwritten
      rfl
    rw [read_field_value_sparse_eq, hsame]
    exact ⟨hback, hback⟩
  · obtain ⟨error, writer', herror⟩ := hrefuse fun h => hvalue h.1.1
    have hnone (written : BitWriter) :
        writeFieldValue build componentId field value writer ≠ .ok () written := by
      intro h
      cases herror.symm.trans h
    refine ⟨iff_of_false (fun h => ?_) hvalue, rfl, fun written h => absurd h (hnone written)⟩
    obtain ⟨written, h⟩ := h
    exact hnone written h

/-- The signed field of the golden schema, written at bit 3. -/
theorem field_value_round_trip_golden :
    ∃ written, writeFieldValue (goldenBuild false) ⟨10, nonzero_ten⟩
        ⟨⟨2, nonzero_two⟩, .sint 12, .always⟩ (.sint (-5)) ⟨[0, 0, 0], 3⟩ = .ok () written ∧
      readFieldValue (goldenBuild false) ⟨10, nonzero_ten⟩ ⟨⟨2, nonzero_two⟩, .sint 12, .always⟩
        ⟨written.buf, 3⟩ = .ok (.sint (-5)) ⟨written.buf, written.bitPos⟩ := by
  obtain ⟨hwritten, _, hread⟩ := field_value_round_trip golden_schema_new List.mem_cons_self
    (List.mem_cons_of_mem _ List.mem_cons_self)
    (fun h => Bool.false_ne_true h : ¬ (goldenBuild false).overflowChecks) ⟨10, nonzero_ten⟩
    (.sint (-5)) ⟨[0, 0, 0], 3⟩ (by decide)
  obtain ⟨written, hrun⟩ := hwritten.mpr (by decide)
  exact ⟨written, hrun, (hread written hrun).1⟩

end Sdec
