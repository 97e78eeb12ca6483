import Sdec.Bitstream.Yields
import Sdec.Format.Component

/-!
# What the decoders accept

What is known of the values and components that the decoders return for bytes of which nothing is
known: each value is of the variant and in the range of its codec, and its canonical layout takes no
more room than the bits it was read from. The arithmetic of the readers panics at most where a build
with overflow checks meets a codec that is not `Safe`.
-/

namespace Sdec

open Rust Bits Bitstream Codec

variable {build : Build} {schema : Schema} {limits : CodecLimits} {c : Nat} {risk : Prop}

/-! ## Field values -/

/-- The codecs for which the arithmetic of the reader stays within an `i64` on all bits. Undoing the
sign extension of 63 bits subtracts the wrapped `1 << 63`, and the offset of a fixed-point number is
added to the lower bound before the sum is compared with the upper one. -/
def FieldCodec.Safe : FieldCodec → Prop
  | .sint bits => bits ≠ 63
  | .fixedPoint fp =>
      fp.maxQ.toInt - fp.minQ.toInt < 2 ^ 63 ∧ fp.minQ.toInt + 2 ^ fp.width.toNat ≤ 2 ^ 63
  | .bool | .uint _ | .varUInt | .varSInt => True

instance : (codec : FieldCodec) → Decidable codec.Safe
  | .sint bits => inferInstanceAs (Decidable (bits ≠ 63))
  | .fixedPoint fp => inferInstanceAs (Decidable (fp.maxQ.toInt - fp.minQ.toInt < 2 ^ 63
      ∧ fp.minQ.toInt + 2 ^ fp.width.toNat ≤ 2 ^ 63))
  | .bool | .uint _ | .varUInt | .varSInt => inferInstanceAs (Decidable True)

/-- A number of the given width has a signed number with the same low bits. -/
theorem exists_of_low_bits {bits : Nat} (hpos : 0 < bits) (hbits : bits ≤ 64) {raw : UInt64}
    (hraw : raw.toNat < 2 ^ bits) :
    ∃ v : Int64, (-2 ^ (bits - 1) ≤ v.toInt ∧ v.toInt < 2 ^ (bits - 1))
      ∧ raw = UInt64.ofNat (v.toUInt64.toNat % 2 ^ bits) := by
  have hpow : 2 ^ bits = 2 * 2 ^ (bits - 1) := by rw [← pow_succ', Nat.sub_add_cancel hpos]
  have hhalf : 2 ^ (bits - 1) ≤ 2 ^ 63 := Nat.pow_le_pow_right (by omega) (by omega)
  have hcast : (2 : Int) ^ (bits - 1) = (2 ^ (bits - 1) : Nat) := (Nat.cast_pow 2 _).symm
  have hcast' : (2 : Int) ^ bits = (2 ^ bits : Nat) := (Nat.cast_pow 2 _).symm
  obtain ⟨value, hvalue⟩ : ∃ value : Int, value
      = if raw.toNat < 2 ^ (bits - 1) then (raw.toNat : Int) else raw.toNat - 2 ^ bits := ⟨_, rfl⟩
  have hrange : -2 ^ (bits - 1) ≤ value ∧ value < 2 ^ (bits - 1) := by
    rw [hcast, hvalue]
    rw [hcast']
    split <;> omega
  have htoInt : (Int64.ofInt value).toInt = value := by
    rw [hcast] at hrange
    exact Int64.toInt_ofInt_of_le (by omega) (by omega)
  refine ⟨Int64.ofInt value, by rw [htoInt]; exact hrange, ?_⟩
  have hlow := @low_bits_of_range (Int64.ofInt value) bits hpos hbits
    (by rw [htoInt]; exact hrange.1) (by rw [htoInt]; exact hrange.2)
  apply UInt64.toNat_inj.mp
  have hraw64 := raw.toNat_lt
  have hmod : (Int64.ofInt value).toUInt64.toNat % 2 ^ bits = raw.toNat := by
    rw [htoInt, hcast'] at hlow
    rw [hcast'] at hvalue
    split at hlow <;> split at hvalue <;> omega
  rw [hmod, UInt64.ofNat_toNat]

/-- What `decode_sint` makes of any bits. -/
theorem decode_sint_ensures {bits : UInt8} (hpos : 0 < bits.toNat) (hbits : bits.toNat ≤ 64)
    {raw : UInt64} (hraw : raw.toNat < 2 ^ bits.toNat)
    (hrisk : build.overflowChecks → bits = 63 → risk) :
    Ensures (decodeSint build bits raw)
      (fun v => (FieldCodec.sint bits).Contains (.sint v)) (PanicsOnlyIf risk) := by
  obtain ⟨v, hv, rfl⟩ := exists_of_low_bits hpos hbits hraw
  rw [decode_sint_eq hpos hbits hv.1 hv.2]
  by_cases hpanic : build.overflowChecks ∧ bits = 63 ∧ v.toInt < 0
  · rw [if_pos hpanic]
    exact fun _ => hrisk hpanic.1 hpanic.2.1
  · rw [if_neg hpanic]
    exact hv

/-- `i64` arithmetic panics where the build checks it and the exact result is out of range. -/
theorem Bitstream.Yields.i64 {ε α : Type} {exact : Int} {wrapped : Int64}
    {next : Int64 → Call ε BitReader α} {post : α → Layout → Prop}
    (hrisk : build.overflowChecks → wrapped.toInt ≠ exact → risk)
    (h : Yields c (next wrapped) post risk) :
    Yields c (build.i64 exact wrapped >>= next) post risk := by
  unfold Build.i64
  by_cases hpanic : build.overflowChecks ∧ wrapped.toInt ≠ exact
  · rw [if_pos hpanic]
    exact fun _ _ _ _ => hrisk hpanic.1 hpanic.2
  · rw [if_neg hpanic, pure_bind]
    exact h

/-- No width below that of `required_bits` holds the range. -/
theorem required_bits_le {range : UInt64} {n : Nat} (h : range.toNat < 2 ^ n) :
    (requiredBits range).toNat ≤ n := by
  rw [requiredBits]
  by_cases hzero : range = 0
  · rw [if_pos hzero]
    exact Nat.zero_le n
  · have hne : range.toNat ≠ 0 := fun h => hzero (UInt64.toNat_inj.mp h)
    have hlog : range.toNat.log2 < n := (Nat.log2_lt hne).mpr h
    rw [if_neg hzero, leadingZeros, if_neg hzero, UInt8.toNat_ofNat']
    omega

/-- A range within an `i64` has a width that leaves out the sign bit. -/
theorem FixedPoint.width_le {fp : FixedPoint} (hle : fp.minQ ≤ fp.maxQ)
    (hrange : fp.maxQ.toInt - fp.minQ.toInt < 2 ^ 63) : fp.width.toNat ≤ 63 := by
  have hexact := sub_toUInt64_toNat hle
  exact required_bits_le (by omega)

/-- An offset of as many bits as the range needs is not negative as an `i64`. -/
theorem FixedPoint.offset_toInt {fp : FixedPoint} {offset : UInt64} (hwidth : fp.width.toNat ≤ 63)
    (hoffset : offset.toNat < 2 ^ fp.width.toNat) : offset.toInt64.toInt = offset.toNat := by
  have hpow : 2 ^ fp.width.toNat ≤ 2 ^ 63 := Nat.pow_le_pow_right (by omega) hwidth
  rw [toInt64_toInt, Int.bmod_eq_of_le (by omega) (by omega)]

/-- A lower bound and an offset of some bits add up to an `i64`, if the codec is safe. -/
theorem FixedPoint.add_offset_exact {fp : FixedPoint} {offset : UInt64} (hle : fp.minQ ≤ fp.maxQ)
    (hsafe : (FieldCodec.fixedPoint fp).Safe) (hoffset : offset.toNat < 2 ^ fp.width.toNat) :
    (fp.minQ + offset.toInt64).toInt = fp.minQ.toInt + offset.toInt64.toInt := by
  have hlow := fp.minQ.le_toInt
  have hcast : (2 : Int) ^ fp.width.toNat = (2 ^ fp.width.toNat : Nat) := (Nat.cast_pow 2 _).symm
  have hsum : fp.minQ.toInt + 2 ^ fp.width.toNat ≤ 2 ^ 63 := hsafe.2
  rw [hcast] at hsum
  rw [Int64.toInt_add, FixedPoint.offset_toInt (FixedPoint.width_le hle hsafe.1) hoffset,
    Int.bmod_eq_of_le (by omega) (by omega)]

theorem yields_read_fixed_point {fp : FixedPoint} (hle : fp.minQ ≤ fp.maxQ)
    {error : Int64 → CodecError}
    (hrisk : build.overflowChecks → ¬ (FieldCodec.fixedPoint fp).Safe → risk) :
    Yields c (do
      let range := (← build.sub fp.maxQ fp.minQ).toUInt64
      let bits := requiredBits range
      let offset ← if bits = 0 then pure 0 else stream (BitReader.readBits bits)
      let value ← build.add fp.minQ offset.toInt64
      if value < fp.minQ ∨ value > fp.maxQ then
        fail (error value)
      return FieldValue.fixedPoint value : Call CodecError BitReader FieldValue)
      (fun value items => (FieldCodec.fixedPoint fp).Contains value
        ∧ items = fieldLayout (.fixedPoint fp) value) risk := by
  have hle' := Int64.le_iff_toInt_le.mp hle
  refine Yields.i64 (fun hchecks hne => hrisk hchecks fun hsafe => hne ?_) ?_
  · have := hsafe.1
    rw [Int64.toInt_sub, Int.bmod_eq_of_le (by omega) (by omega)]
  have hrest (offset : UInt64) (hlt : offset.toNat < 2 ^ fp.width.toNat) {c : Nat} :
      Yields c (do
        let value ← build.add fp.minQ offset.toInt64
        if value < fp.minQ ∨ value > fp.maxQ then
          fail (error value)
        return FieldValue.fixedPoint value : Call CodecError BitReader FieldValue)
        (fun value items => (∃ v, value = .fixedPoint v ∧ fp.minQ ≤ v ∧ v ≤ fp.maxQ) ∧ items = [])
        risk := by
    refine Yields.i64 (fun hchecks hne => hrisk hchecks fun hsafe => hne ?_) ?_
    · exact FixedPoint.add_offset_exact hle hsafe hlt
    refine Yields.check fun hin => Yields.pure ⟨⟨_, rfl, ?_⟩, rfl⟩
    rw [not_or] at hin
    exact ⟨Int64.not_lt.mp hin.1, Int64.not_lt.mp hin.2⟩
  refine Yields.of_stop_eq ?_
  dsimp only
  by_cases hzero : requiredBits (fp.maxQ - fp.minQ).toUInt64 = 0
  · have hwidth : fp.width.toNat = 0 := by rw [FixedPoint.width, hzero]; rfl
    rw [if_pos hzero, pure_bind]
    refine (hrest 0 (Nat.two_pow_pos _)).imp fun value items h => ?_
    obtain ⟨⟨v, rfl, hv⟩, rfl⟩ := h
    exact ⟨hv, by rw [fieldLayout, stop_number, hwidth]; rfl⟩
  · rw [if_neg hzero]
    refine (yields_read_bits _).safe.map_err.bind_layout fun offset hlt => ?_
    refine (hrest offset hlt.2).imp fun value items h => ?_
    obtain ⟨⟨v, rfl, hv⟩, rfl⟩ := h
    exact ⟨hv, by rw [List.append_nil, fieldLayout, stop_number, stop_number]; rfl⟩

/-- Reading a value from any bits: it is in the range of the codec, and its layout is no longer than
what was read. -/
theorem yields_read_field_value (componentId : ComponentId) {field : FieldDef}
    (hvalid : field.codec.Valid)
    (hrisk : build.overflowChecks → ¬ field.codec.Safe → risk) :
    Yields c (readFieldValue build componentId field)
      (fun value items => field.codec.Contains value ∧ items = fieldLayout field.codec value)
      risk := by
  unfold readFieldValue
  cases hcodec : field.codec with
  | bool =>
      refine yields_read_bit.safe.map_err.bind_layout fun v _ => Yields.pure ⟨trivial, ?_⟩
      rw [List.append_nil, fieldLayout]
  | uint bits =>
      refine (yields_read_bits bits).safe.map_err.bind_layout fun v hv => ?_
      refine Yields.lift (p := fun _ => True) ?_ fun _ _ => Yields.pure ⟨hv.2, ?_⟩
      · rw [show validateUint componentId field.id bits v = .ok () from
          validate_uint_eq_ok.mpr hv.2]
        exact trivial
      · rw [List.append_nil, fieldLayout]
  | sint bits =>
      rw [hcodec] at hvalid hrisk
      refine Yields.of_stop_eq ((yields_read_bits bits).safe.map_err.bind_layout fun raw hraw => ?_)
      refine Yields.lift (decode_sint_ensures hvalid.1 hvalid.2 hraw.2
        fun hchecks hwide => hrisk hchecks fun hsafe => hsafe hwide) fun v hv => ?_
      refine Yields.pure ⟨hv, ?_⟩
      rw [List.append_nil, fieldLayout, stop_number, stop_number]
  | varUInt =>
      refine yields_align_to_byte.safe.map_err.bind_layout fun _ _ => ?_
      refine yields_read_varu32.safe.map_err.bind_layout fun v _ => Yields.pure ⟨?_, ?_⟩
      · show v.toUInt64.toNat < 2 ^ 32
        rw [UInt32.toNat_toUInt64]
        exact v.toNat_lt
      · rw [List.append_nil, List.singleton_append, fieldLayout, UInt32.toUInt32_toUInt64]
  | varSInt =>
      refine yields_align_to_byte.safe.map_err.bind_layout fun _ _ => ?_
      refine yields_read_vars32.safe.map_err.bind_layout fun v _ => Yields.pure ⟨?_, ?_⟩
      · show -2 ^ 31 ≤ v.toInt64.toInt ∧ v.toInt64.toInt < 2 ^ 31
        rw [Int32.toInt_toInt64]
        exact ⟨v.le_toInt, v.toInt_lt⟩
      · rw [List.append_nil, List.singleton_append, fieldLayout, Int32.toInt32_toInt64]
  | fixedPoint fp =>
      rw [hcodec] at hvalid hrisk
      exact yields_read_fixed_point hvalid.2 hrisk

/-! ## Masks and components -/

theorem yields_read_mask_loop (n : Nat) :
    Yields c (readMask.readMaskLoop n) (fun mask items => mask.length = n ∧ items = flags mask)
      False := by
  induction n generalizing c with
  | zero => exact Yields.pure ⟨rfl, rfl⟩
  | succ n ih =>
      unfold readMask.readMaskLoop
      refine yields_read_bit.map_err.bind_layout fun bit _ => ?_
      refine ih.bind_layout fun mask hmask => Yields.pure ⟨?_, ?_⟩
      · rw [List.length_cons, hmask]
      · rw [List.append_nil, List.singleton_append, flags_cons]

theorem yields_read_mask (n : Nat) (kind : MaskKind) :
    Yields c (readMask n kind) (fun mask items => mask.length = n ∧ items = flags mask) False := by
  unfold readMask
  exact Yields.get fun reader => Yields.check fun _ => yields_read_mask_loop n

theorem stop_flags (pos : Nat) (values : List Bool) :
    stop pos (flags values) = pos + values.length := by
  rw [stop, render_flags]

/-- The loop over the fields of a component whose mask is full. -/
theorem yields_read_all_fields {component : ComponentDef} (mask : List Bool) (idx : Nat)
    {fields : List FieldDef} (hmask : idx + fields.length ≤ mask.length)
    (hvalid : ∀ field ∈ fields, field.codec.Valid)
    (hrisk : build.overflowChecks → ∀ field ∈ fields, ¬ field.codec.Safe → risk) :
    Yields c (readAllFields build component mask idx fields) (fun values items =>
      List.Forall₂ (fun field value => field.codec.Contains value) fields values
        ∧ items = (fields.zip values).flatMap fun (field, value) => fieldLayout field.codec value)
      risk := by
  induction fields generalizing c idx with
  | nil => exact Yields.pure ⟨.nil, rfl⟩
  | cons field fields ih =>
      rw [List.length_cons] at hmask
      unfold readAllFields
      refine Yields.index (by omega) fun bit _ => Yields.check fun _ => ?_
      have hvalid := List.forall_mem_cons.mp hvalid
      refine (yields_read_field_value component.id hvalid.1
        fun hchecks => hrisk hchecks field List.mem_cons_self).bind_layout fun value hvalue => ?_
      refine (ih (idx + 1) (by omega) hvalid.2 fun hchecks f hf =>
        hrisk hchecks f (List.mem_cons_of_mem _ hf)).bind_layout fun values hvalues => ?_
      refine Yields.pure ⟨.cons hvalue hvalues, ?_⟩
      rw [List.append_nil, List.zip_cons_cons, List.flatMap_cons]

/-- A component with all its fields. Its mask must be full, so its layout is that of the values. -/
theorem yields_decode_component_fields {component : ComponentDef} (hvalid : component.Valid)
    (hrisk : build.overflowChecks → ∀ field ∈ component.fields, ¬ field.codec.Safe → risk) :
    Yields c (decodeComponentFields build component limits) (fun values items =>
      (List.Forall₂ (fun field value => field.codec.Contains value) component.fields values
        ∧ component.fields.length ≤ limits.maxFieldsPerComponent)
        ∧ items = denseLayout component values) risk := by
  unfold decodeComponentFields
  refine Yields.check fun hlimit => Yields.of_stop_eq ?_
  refine (yields_read_mask _ _).safe.bind_layout fun mask hmask => ?_
  refine (yields_read_all_fields mask 0 (by omega) hvalid.codecs hrisk).imp fun values items h => ?_
  refine ⟨⟨h.1, Nat.le_of_not_lt hlimit⟩, ?_⟩
  rw [h.2, denseLayout, stop_append, stop_append, stop_flags, stop_flags, hmask, List.length_map]

/-- The loop over the components whose bit of the mask is set. What it returns was read from
definitions that it met in order. -/
theorem yields_read_components {α : Type} {read : ComponentDef → Call CodecError BitReader α}
    (post : ComponentDef → α → Layout → Prop) (mask : List Bool) (idx : Nat)
    {definitions : List ComponentDef}
    (hread : ∀ definition ∈ definitions, ∀ c, Yields c (read definition) (post definition) risk)
    (hmask : idx + definitions.length ≤ mask.length) :
    Yields c (readComponents read mask idx definitions) (fun components items =>
      ∃ picks : List (ComponentDef × α), components = picks.map Prod.snd
        ∧ (picks.map Prod.fst).Sublist definitions
        ∧ Sequence (fun p items => post p.1 p.2 items) picks items) risk := by
  induction definitions generalizing c idx with
  | nil => exact Yields.pure ⟨[], rfl, .slnil, .nil⟩
  | cons definition definitions ih =>
      rw [List.length_cons] at hmask
      have hread := List.forall_mem_cons.mp hread
      have ih {c : Nat} : Yields c _ _ risk := ih (idx + 1) hread.2 (by omega)
      unfold readComponents
      refine Yields.index (by omega) fun bit _ => ?_
      cases bit with
      | true =>
          rw [if_pos rfl]
          refine (hread.1 c).bind fun a items ha => ih.bind fun as more h => ?_
          obtain ⟨picks, has, hsub, hpicks⟩ := h
          refine Yields.pure ⟨(definition, a) :: picks, ?_, ?_, ?_⟩
          · rw [List.map_cons, has]
          · exact hsub.cons_cons definition
          · rw [List.append_nil]
            exact .cons ha hpicks
      | false =>
          rw [if_neg Bool.false_ne_true]
          refine ih.imp fun as items h => ?_
          obtain ⟨picks, has, hsub, hpicks⟩ := h
          exact ⟨picks, has, hsub.cons definition, hpicks⟩

end Sdec
