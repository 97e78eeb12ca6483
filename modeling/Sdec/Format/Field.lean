import Sdec.Bitstream.Emits
import Sdec.Bitstream.Reads
import Sdec.Codec.Field
import Sdec.Format.WellFormed

/-!
# The format of field values

The layout of one field value, and that the writer emits it and the reader parses it.
`Writable` and `Readable` say on which codecs and values a build does not overflow in the
arithmetic of the writer and of the reader.
-/

namespace Sdec

open Rust Bits Bitstream Codec

variable {build : Build} {pos : Nat}

/-! ## Integers -/

theorem sub_eq_pure {m : Type → Type} {ε : Type} [Monad m] [MonadFault ε m] {a b : Int64}
    (h : build.overflowChecks → (a - b).toInt = a.toInt - b.toInt) :
    build.sub (m := m) a b = pure (a - b) := by
  rw [Build.sub, Build.i64, if_neg]
  rintro ⟨hchecks, hne⟩
  exact hne (h hchecks)

theorem sub_eq_panic {m : Type → Type} {ε : Type} [Monad m] [MonadFault ε m] {a b : Int64}
    (hchecks : build.overflowChecks) (h : (a - b).toInt ≠ a.toInt - b.toInt) :
    build.sub (m := m) a b = fault .panic := by
  rw [Build.sub, Build.i64, if_pos ⟨hchecks, h⟩]

theorem add_eq_pure {m : Type → Type} {ε : Type} [Monad m] [MonadFault ε m] {a b : Int64}
    (h : build.overflowChecks → (a + b).toInt = a.toInt + b.toInt) :
    build.add (m := m) a b = pure (a + b) := by
  rw [Build.add, Build.i64, if_neg]
  rintro ⟨hchecks, hne⟩
  exact hne (h hchecks)

theorem add_eq_panic {m : Type → Type} {ε : Type} [Monad m] [MonadFault ε m] {a b : Int64}
    (hchecks : build.overflowChecks) (h : (a + b).toInt ≠ a.toInt + b.toInt) :
    build.add (m := m) a b = fault .panic := by
  rw [Build.add, Build.i64, if_pos ⟨hchecks, h⟩]

/-- An `i64` as a `u64` is its residue. -/
theorem toUInt64_toNat (v : Int64) : (v.toUInt64.toNat : Int) = v.toInt % 2 ^ 64 := by
  have h : v.toInt = (v.toUInt64.toNat : Int).bmod (2 ^ 64) := BitVec.toInt_eq_toNat_bmod _
  have hlt := v.toUInt64.toNat_lt
  have hmod := @Int.bmod_emod v.toUInt64.toNat (2 ^ 64)
  rw [h]
  omega

/-- A `u64` as an `i64` is its balanced residue. -/
theorem toInt64_toInt (v : UInt64) : v.toInt64.toInt = (v.toNat : Int).bmod (2 ^ 64) :=
  BitVec.toInt_eq_toNat_bmod _

/-- `required_bits` is the least width that holds the range. -/
theorem required_bits_spec (range : UInt64) :
    (requiredBits range).toNat ≤ 64 ∧ range.toNat < 2 ^ (requiredBits range).toNat
      ∧ ((requiredBits range).toNat = 0 → range = 0) := by
  rw [requiredBits]
  by_cases hzero : range = 0
  · rw [if_pos hzero, hzero]
    exact ⟨by decide, by decide, fun _ => rfl⟩
  · have hne : range.toNat ≠ 0 := fun h => hzero (UInt64.toNat_inj.mp h)
    have hlog : range.toNat.log2 < 64 := (Nat.log2_lt hne).mpr range.toNat_lt
    have hbits : (UInt8.ofNat (64 - leadingZeros range)).toNat = range.toNat.log2 + 1 := by
      rw [leadingZeros, if_neg hzero, UInt8.toNat_ofNat']
      omega
    rw [if_neg hzero, hbits]
    exact ⟨by omega, Nat.lt_log2_self, fun h => absurd h (Nat.succ_ne_zero _)⟩

/-- The low bits of a signed number, from which its sign can be read. -/
theorem low_bits_of_range {v : Int64} {bits : Nat} (hpos : 0 < bits) (hbits : bits ≤ 64)
    (hlow : -2 ^ (bits - 1) ≤ v.toInt) (hhigh : v.toInt < 2 ^ (bits - 1)) :
    (v.toUInt64.toNat % 2 ^ bits : Nat) = if v.toInt < 0 then v.toInt + 2 ^ bits else v.toInt := by
  have hdvd : ((2 : Int) ^ bits) ∣ 2 ^ 64 := pow_dvd_pow 2 hbits
  have hpow : (2 : Int) ^ bits = 2 * 2 ^ (bits - 1) := by
    rw [← pow_succ', Nat.sub_add_cancel hpos]
  have hmod : ((v.toUInt64.toNat % 2 ^ bits : Nat) : Int) = v.toInt % 2 ^ bits := by
    rw [Int.natCast_emod, toUInt64_toNat, Nat.cast_pow, Nat.cast_ofNat,
      Int.emod_emod_of_dvd _ hdvd]
  rw [hmod]
  split
  · rw [← Int.add_emod_right, Int.emod_eq_of_lt (by omega) (by omega)]
  · rw [Int.emod_eq_of_lt (by omega) (by omega)]

theorem shift_one_toNat {bits : UInt8} (hbits : bits.toNat < 64) :
    ((1 : UInt64) <<< bits.toUInt64).toNat = 2 ^ bits.toNat := by
  have hpow : 2 ^ bits.toNat < 2 ^ 64 := Nat.pow_lt_pow_right (by decide) hbits
  rw [UInt64.toNat_shiftLeft, UInt8.toNat_toUInt64, UInt64.toNat_one, Nat.mod_eq_of_lt hbits,
    Nat.shiftLeft_eq, Nat.one_mul, Nat.mod_eq_of_lt hpow]

/-- The mask of `encode_sint` and `decode_sint` keeps the low bits. -/
theorem and_mask_toNat {bits : UInt8} (hbits : bits.toNat < 64) (v : UInt64) :
    (v &&& ((1 <<< bits.toUInt64) - 1)).toNat = v.toNat % 2 ^ bits.toNat := by
  have hone : (1 : UInt64) ≤ 1 <<< bits.toUInt64 := by
    rw [UInt64.le_iff_toNat_le, shift_one_toNat hbits, UInt64.toNat_one]
    exact Nat.one_le_two_pow
  rw [UInt64.toNat_and, UInt64.toNat_sub_of_le _ _ hone, shift_one_toNat hbits, UInt64.toNat_one,
    Nat.and_two_pow_sub_one_eq_mod]

theorem decode_shift_toInt {bits : UInt8} (hbits : bits.toNat < 64) :
    ((1 : Int64) <<< bits.toUInt64.toInt64).toInt
      = ((2 ^ bits.toNat : Nat) : Int).bmod (2 ^ 64) := by
  have h : ∀ i : Fin 64, ((1 : Int64) <<< (UInt8.ofNat i).toUInt64.toInt64).toInt
      = ((2 ^ i.val : Nat) : Int).bmod (2 ^ 64) := by decide +kernel
  have := h ⟨bits.toNat, hbits⟩
  rwa [UInt8.ofNat_toNat] at this

/-- `validate_uint` accepts the numbers that fit the width. -/
theorem validate_uint_eq_ok {componentId : ComponentId} {fieldId : FieldId} {bits : UInt8}
    {v : UInt64} {u : Unit} :
    validateUint componentId fieldId bits v = .ok u ↔ v.toNat < 2 ^ bits.toNat := by
  rw [validateUint]
  by_cases hfull : bits = 64
  · rw [if_pos hfull, hfull]
    exact ⟨fun _ => v.toNat_lt, fun _ => rfl⟩
  · rw [if_neg hfull]
    by_cases hfits : v.toNat < 2 ^ bits.toNat
    · rw [if_neg (Nat.not_le.mpr hfits)]
      exact ⟨fun _ => hfits, fun _ => rfl⟩
    · rw [if_pos (Nat.le_of_not_lt hfits)]
      exact ⟨fun h => (nomatch h), fun h => absurd h hfits⟩

/-! ## Signed numbers -/

theorem encode_sint_eq (componentId : ComponentId) (fieldId : FieldId) {bits : UInt8}
    (hbits : bits.toNat ≤ 64) (v : Int64) :
    encodeSint componentId fieldId bits v
      = if -2 ^ (bits.toNat - 1) ≤ v.toInt ∧ v.toInt < 2 ^ (bits.toNat - 1) then
          .ok (UInt64.ofNat (v.toUInt64.toNat % 2 ^ bits.toNat))
        else fail (.invalidValue componentId fieldId (.signedOutOfRange bits v)) := by
  rw [encodeSint]
  by_cases hfull : bits = 64
  · have hlow := v.le_toInt
    have hhigh := v.toInt_lt
    rw [if_pos hfull, hfull, if_pos ⟨hlow, hhigh⟩]
    have : v.toUInt64.toNat % 2 ^ (64 : UInt8).toNat = v.toUInt64.toNat :=
      Nat.mod_eq_of_lt v.toUInt64.toNat_lt
    rw [this, UInt64.ofNat_toNat]
    rfl
  · have hlt : bits.toNat < 64 := by
      refine Nat.lt_of_le_of_ne hbits fun h => hfull (UInt8.toNat_inj.mp h)
    rw [if_neg hfull]
    by_cases hrange : -2 ^ (bits.toNat - 1) ≤ v.toInt ∧ v.toInt < 2 ^ (bits.toNat - 1)
    · rw [if_neg (by omega), if_pos hrange, ← and_mask_toNat hlt, UInt64.ofNat_toNat]
      rfl
    · rw [if_pos (by omega), if_neg hrange]

/-- The test of the sign bit. -/
theorem and_sign_bit_eq_zero {bits : UInt8} (hpos : 0 < bits.toNat) (hbits : bits.toNat ≤ 64)
    {raw : UInt64} (hraw : raw.toNat < 2 ^ bits.toNat) :
    raw &&& (1 <<< (bits - 1).toUInt64) = 0 ↔ raw.toNat < 2 ^ (bits.toNat - 1) := by
  have hone : (1 : UInt8) ≤ bits := UInt8.le_iff_toNat_le.mpr hpos
  have hsub : (bits - 1).toNat = bits.toNat - 1 := UInt8.toNat_sub_of_le _ _ hone
  have hpow : 2 ^ bits.toNat = 2 * 2 ^ (bits.toNat - 1) := by
    rw [← pow_succ', Nat.sub_add_cancel hpos]
  rw [← UInt64.toNat_inj, UInt64.toNat_and, shift_one_toNat (by omega), hsub, Nat.and_two_pow,
    Nat.testBit_eq_decide_div_mod_eq, UInt64.toNat_zero]
  have hquot : raw.toNat / 2 ^ (bits.toNat - 1) < 2 := by
    rw [Nat.div_lt_iff_lt_mul (Nat.two_pow_pos _)]
    omega
  by_cases hlt : raw.toNat < 2 ^ (bits.toNat - 1)
  · simp [Nat.div_eq_of_lt hlt, hlt]
  · have : raw.toNat / 2 ^ (bits.toNat - 1) = 1 := by
      have := Nat.div_pos (Nat.le_of_not_lt hlt) (Nat.two_pow_pos _)
      omega
    simp [this, hlt]

/-- The code of a number in range is decoded to the number. The exception is the width 63 in a
build with overflow checks, where the shifted one wraps and the difference leaves the range. -/
theorem decode_sint_eq {bits : UInt8} (hpos : 0 < bits.toNat) (hbits : bits.toNat ≤ 64) {v : Int64}
    (hlow : -2 ^ (bits.toNat - 1) ≤ v.toInt) (hhigh : v.toInt < 2 ^ (bits.toNat - 1)) :
    decodeSint build bits (UInt64.ofNat (v.toUInt64.toNat % 2 ^ bits.toNat))
      = if build.overflowChecks ∧ bits = 63 ∧ v.toInt < 0 then fault .panic else .ok v := by
  have hcode := low_bits_of_range hpos hbits hlow hhigh
  have hpow : (2 : Int) ^ bits.toNat = 2 * 2 ^ (bits.toNat - 1) := by
    rw [← pow_succ', Nat.sub_add_cancel hpos]
  have hle : 2 ^ bits.toNat ≤ 2 ^ 64 := Nat.pow_le_pow_right (by decide) hbits
  have hlt := Nat.mod_lt v.toUInt64.toNat (Nat.two_pow_pos bits.toNat)
  obtain ⟨raw, hraw⟩ : ∃ raw, raw = UInt64.ofNat (v.toUInt64.toNat % 2 ^ bits.toNat) := ⟨_, rfl⟩
  have hrawNat : raw.toNat = v.toUInt64.toNat % 2 ^ bits.toNat := by
    rw [hraw, UInt64.toNat_ofNat', Nat.mod_eq_of_lt (by omega)]
  rw [← hrawNat] at hcode hlt
  rw [← hraw, decodeSint]
  by_cases hfull : bits = 64
  · have : raw.toInt64 = v := by
      rw [hraw, hfull, show v.toUInt64.toNat % 2 ^ (64 : UInt8).toNat = v.toUInt64.toNat from
        Nat.mod_eq_of_lt v.toUInt64.toNat_lt, UInt64.ofNat_toNat]
      rfl
    rw [if_pos hfull, if_neg (by rintro ⟨-, rfl, -⟩; exact absurd hfull (by decide)), this]
    rfl
  · have hbits : bits.toNat < 64 :=
      Nat.lt_of_le_of_ne hbits fun h => hfull (UInt8.toNat_inj.mp h)
    have hzero : ¬ bits = 0 := by rintro rfl; exact absurd hpos (by decide)
    have hsign := and_sign_bit_eq_zero hpos (Nat.le_of_lt hbits) hlt
    have hcast : (2 : Int) ^ (bits.toNat - 1) = (2 ^ (bits.toNat - 1) : Nat) :=
      (Nat.cast_pow 2 _).symm
    have hhalf : 2 ^ (bits.toNat - 1) ≤ 2 ^ 62 := Nat.pow_le_pow_right (by decide) (by omega)
    rw [hcast] at hpow hlow hhigh
    rw [if_neg hfull, if_neg hzero]
    by_cases hneg : v.toInt < 0
    · rw [if_pos hneg, hpow] at hcode
      have hmask : raw &&& ((1 <<< bits.toUInt64) - 1) = raw := by
        apply UInt64.toNat_inj.mp
        rw [and_mask_toNat hbits, Nat.mod_eq_of_lt hlt]
      have hshift := decode_shift_toInt hbits
      rw [Nat.cast_pow, Nat.cast_ofNat, hpow] at hshift
      have hvalue : raw.toInt64.toInt = v.toInt + 2 * (2 ^ (bits.toNat - 1) : Nat) := by
        rw [toInt64_toInt, hcode, Int.bmod_eq_of_le (by omega) (by omega)]
      have hdiff : (raw.toInt64 - (1 <<< bits.toUInt64.toInt64)).toInt = v.toInt := by
        rw [Int64.toInt_sub, hvalue, hshift, Int.sub_bmod_bmod, Int.add_sub_cancel,
          Int.bmod_eq_of_le (by omega) (by omega)]
      have hhigh : ¬ raw.toNat < 2 ^ (bits.toNat - 1) := by omega
      simp only [if_neg (hsign.not.mpr hhigh), hmask]
      by_cases hwide : bits = 63
      · have hneg63 : ((1 : Int64) <<< bits.toUInt64.toInt64).toInt = -2 ^ 63 := by
          rw [hwide]
          decide
        by_cases hchecks : build.overflowChecks
        · rw [if_pos ⟨hchecks, hwide, hneg⟩, sub_eq_panic hchecks]
          rw [hdiff, hneg63]
          omega
        · rw [if_neg (fun h => hchecks h.1), sub_eq_pure (fun h => absurd h hchecks),
            Int64.toInt_inj.mp hdiff]
          rfl
      · have hsmall : 2 ^ (bits.toNat - 1) ≤ 2 ^ 61 := by
          have : bits.toNat ≠ 63 := fun h => hwide (UInt8.toNat_inj.mp h)
          exact Nat.pow_le_pow_right (by decide) (by omega)
        rw [Int.bmod_eq_of_le (by omega) (by omega)] at hshift
        rw [if_neg (fun h => hwide h.2.1), sub_eq_pure (fun _ => by rw [hdiff]; omega),
          Int64.toInt_inj.mp hdiff]
        rfl
    · rw [if_neg hneg] at hcode
      have hvalue : raw.toInt64 = v := by
        apply Int64.toInt_inj.mp
        rw [toInt64_toInt, hcode, Int.bmod_eq_of_le (by omega) (by omega)]
      have hlow : raw.toNat < 2 ^ (bits.toNat - 1) := by omega
      have hnopanic : ¬ (build.overflowChecks ∧ bits = 63 ∧ v.toInt < 0) := fun h => hneg h.2.2
      simp only [if_pos (hsign.mpr hlow), if_neg hnopanic, hvalue]
      rfl

/-! ## Fixed-point numbers -/

/-- The width of a fixed-point codec. -/
def FixedPoint.width (fp : FixedPoint) : UInt8 := requiredBits (fp.maxQ - fp.minQ).toUInt64

/-- The difference of two ordered numbers as a `u64` is exact, however far they are apart. -/
theorem sub_toUInt64_toNat {a b : Int64} (h : a ≤ b) :
    ((b - a).toUInt64.toNat : Int) = b.toInt - a.toInt := by
  have hle := Int64.le_iff_toInt_le.mp h
  have hlow := a.le_toInt
  have hhigh := b.toInt_lt
  have hmod := @Int.bmod_emod (b.toInt - a.toInt) (2 ^ 64)
  rw [toUInt64_toNat, Int64.toInt_sub]
  omega

theorem fixed_point_offset_lt {fp : FixedPoint} {v : Int64} (hlow : fp.minQ ≤ v)
    (hhigh : v ≤ fp.maxQ) : (v - fp.minQ).toUInt64.toNat < 2 ^ fp.width.toNat := by
  have hoffset := sub_toUInt64_toNat hlow
  have hrange := sub_toUInt64_toNat (Int64.le_trans hlow hhigh)
  have hle := Int64.le_iff_toInt_le.mp hhigh
  have hspec := (required_bits_spec (fp.maxQ - fp.minQ).toUInt64).2.1
  rw [FixedPoint.width]
  omega

/-- Adding the offset back gives the number, also when the range is wider than an `i64`. -/
theorem fixed_point_add_offset (min v : Int64) : min + (v - min).toUInt64.toInt64 = v := by
  have : (v - min).toUInt64.toInt64 = v - min := rfl
  rw [this, Int64.add_comm, Int64.sub_add_cancel]

/-! ## Values -/

/-- The layout of a value. It is empty for a value of another variant than the codec's. -/
def fieldLayout : FieldCodec → FieldValue → Layout
  | .bool, .bool v => [.bit v]
  | .uint bits, .uint v => [.number bits.toNat v.toNat]
  | .sint bits, .sint v => [.number bits.toNat (v.toUInt64.toNat % 2 ^ bits.toNat)]
  | .varUInt, .varUInt v => .align :: bytes (varu32 v.toUInt32)
  | .varSInt, .varSInt v => .align :: bytes (vars32 v.toInt32)
  | .fixedPoint fp, .fixedPoint v => [.number fp.width.toNat (v - fp.minQ).toUInt64.toNat]
  | _, _ => []

/-- The codecs for which the arithmetic of the writer does not panic and its width is allowed. -/
def FieldCodec.Writable (build : Build) : FieldCodec → Prop
  | .uint bits | .sint bits => bits.toNat ≤ 64
  | .fixedPoint fp => build.overflowChecks → fp.maxQ.toInt - fp.minQ.toInt < 2 ^ 63
  | .bool | .varUInt | .varSInt => True

/-- The values on whose codes the arithmetic of the reader does not panic. -/
def FieldCodec.Readable (build : Build) : FieldCodec → FieldValue → Prop
  | .sint bits, .sint v => build.overflowChecks → ¬ (bits = 63 ∧ v.toInt < 0)
  | .fixedPoint fp, _ => build.overflowChecks → fp.maxQ.toInt - fp.minQ.toInt < 2 ^ 63
  | _, _ => True

theorem emits_write_uint (componentId : ComponentId) (fieldId : FieldId) (bits : UInt8)
    (v : UInt64) :
    Emits pos (do
      validateUint componentId fieldId bits v
      stream (BitWriter.writeBits v bits) : Call CodecError BitWriter Unit)
      ((FieldCodec.uint bits).Contains (.uint v) ∧ (FieldCodec.uint bits).Writable build)
      [.number bits.toNat v.toNat] () := by
  have hvalid := @validate_uint_eq_ok componentId fieldId bits v ()
  refine Emits.lift (fun _ hok => ?_) fun e herror hok => ?_
  · have hfits := hvalid.mp hok
    exact (emits_write_bits v bits).map_err.congr
      ⟨fun h => ⟨hfits, h.1⟩, fun h => ⟨h.2, .inr hfits⟩⟩
  · rw [hvalid.mpr hok.1] at herror
    cases herror

theorem emits_write_sint (componentId : ComponentId) (fieldId : FieldId) (bits : UInt8)
    (v : Int64) :
    Emits pos (do
      let encoded ← encodeSint componentId fieldId bits v
      stream (BitWriter.writeBits encoded bits) : Call CodecError BitWriter Unit)
      ((FieldCodec.sint bits).Contains (.sint v) ∧ (FieldCodec.sint bits).Writable build)
      [.number bits.toNat (v.toUInt64.toNat % 2 ^ bits.toNat)] () := by
  by_cases hbits : bits.toNat ≤ 64
  · have hencode := encode_sint_eq componentId fieldId hbits v
    refine Emits.lift (fun encoded hok => ?_) fun e herror hok => ?_
    · rw [hencode] at hok
      split at hok
      next hrange =>
        cases hok
        have hle : 2 ^ bits.toNat ≤ 2 ^ 64 := Nat.pow_le_pow_right (by decide) hbits
        have hlt := Nat.mod_lt v.toUInt64.toNat (Nat.two_pow_pos bits.toNat)
        have hcode : (UInt64.ofNat (v.toUInt64.toNat % 2 ^ bits.toNat)).toNat
            = v.toUInt64.toNat % 2 ^ bits.toNat := by
          rw [UInt64.toNat_ofNat', Nat.mod_eq_of_lt (by omega)]
        have hemits : Emits pos _ _ _ () :=
          emits_write_bits (UInt64.ofNat (v.toUInt64.toNat % 2 ^ bits.toNat)) bits
        rw [hcode] at hemits
        exact hemits.map_err.congr ⟨fun h => ⟨hrange, h.1⟩, fun h => ⟨h.2, .inr hlt⟩⟩
      next => cases hok
    · have hrange : -2 ^ (bits.toNat - 1) ≤ v.toInt ∧ v.toInt < 2 ^ (bits.toNat - 1) := hok.1
      rw [hencode, if_pos hrange] at herror
      cases herror
  · refine Emits.lift (fun encoded _ => ?_) fun e _ hok => hbits hok.2
    exact ((emits_write_bits encoded bits).map_err.of_ok_false fun h => hbits h.1).congr
      ⟨False.elim, fun h => hbits h.2⟩

theorem emits_write_var_uint (v : UInt64) {error : CodecError} :
    Emits pos (do
      if v.toNat > 2 ^ 32 - 1 then
        fail error
      stream BitWriter.alignToByte
      stream (BitWriter.writeVaru32 v.toUInt32) : Call CodecError BitWriter Unit)
      (FieldCodec.varUInt.Contains (.varUInt v) ∧ FieldCodec.varUInt.Writable build)
      (.align :: bytes (varu32 v.toUInt32)) () := by
  refine Emits.check (fun hlarge hok => ?_) fun hsmall => ?_
  · have : v.toNat < 2 ^ 32 := hok.1
    omega
  · have hfits : v.toNat < 2 ^ 32 := by omega
    refine (Emits.cons emits_align_to_byte.map_err fun _ =>
      (emits_write_varu32 ?_ _).map_err).congr
        ⟨fun _ => ⟨hfits, trivial⟩, fun _ => ⟨trivial, trivial⟩⟩
    rw [stop_align, add_padding_mod]

theorem emits_write_var_sint (v : Int64) {error : CodecError} :
    Emits pos (do
      if v.toInt < -2 ^ 31 ∨ v.toInt > 2 ^ 31 - 1 then
        fail error
      stream BitWriter.alignToByte
      stream (BitWriter.writeVars32 v.toInt32) : Call CodecError BitWriter Unit)
      (FieldCodec.varSInt.Contains (.varSInt v) ∧ FieldCodec.varSInt.Writable build)
      (.align :: bytes (vars32 v.toInt32)) () := by
  refine Emits.check (fun hout hok => ?_) fun hin => ?_
  · have : -2 ^ 31 ≤ v.toInt ∧ v.toInt < 2 ^ 31 := hok.1
    omega
  · have hfits : -2 ^ 31 ≤ v.toInt ∧ v.toInt < 2 ^ 31 := by omega
    refine (Emits.cons emits_align_to_byte.map_err fun _ =>
      (emits_write_vars32 ?_ _).map_err).congr
        ⟨fun _ => ⟨hfits, trivial⟩, fun _ => ⟨trivial, trivial⟩⟩
    rw [stop_align, add_padding_mod]

theorem emits_write_fixed_point (fp : FixedPoint) (v : Int64) {error : CodecError} :
    Emits pos (do
      if v < fp.minQ ∨ v > fp.maxQ then
        fail error
      let offset := (← build.sub v fp.minQ).toUInt64
      let range := (← build.sub fp.maxQ fp.minQ).toUInt64
      let bits := requiredBits range
      if bits > 0 then
        stream (BitWriter.writeBits offset bits) : Call CodecError BitWriter Unit)
      ((fp.minQ ≤ v ∧ v ≤ fp.maxQ) ∧ (FieldCodec.fixedPoint fp).Writable build)
      [.number fp.width.toNat (v - fp.minQ).toUInt64.toNat] () := by
  refine Emits.check (fun hout hok => ?_) fun hin => ?_
  · have := hok.1
    rcases hout with h | h
    · exact Int64.not_le.mpr h this.1
    · exact Int64.not_le.mpr h this.2
  · have hlow : fp.minQ ≤ v := Int64.not_lt.mp fun h => hin (.inl h)
    have hhigh : v ≤ fp.maxQ := Int64.not_lt.mp fun h => hin (.inr h)
    have hle := Int64.le_iff_toInt_le.mp hlow
    have hle' := Int64.le_iff_toInt_le.mp hhigh
    by_cases hsafe : build.overflowChecks → fp.maxQ.toInt - fp.minQ.toInt < 2 ^ 63
    · have hexact {a b : Int64} (h : fp.minQ.toInt ≤ b.toInt) (h' : b.toInt ≤ a.toInt)
          (h'' : a.toInt ≤ fp.maxQ.toInt) (hchecks : build.overflowChecks) :
          (a - b).toInt = a.toInt - b.toInt := by
        have := hsafe hchecks
        rw [Int64.toInt_sub, Int.bmod_eq_of_le (by omega) (by omega)]
      have hwidth := (required_bits_spec (fp.maxQ - fp.minQ).toUInt64).1
      have hoffset := fixed_point_offset_lt hlow hhigh
      rw [sub_eq_pure (hexact (Int.le_refl _) hle hle'), pure_bind,
        sub_eq_pure (hexact (Int.le_refl _) (Int.le_trans hle hle') (Int.le_refl _)), pure_bind]
      by_cases hzero : requiredBits (fp.maxQ - fp.minQ).toUInt64 > 0
      · simp only [if_pos hzero]
        exact (emits_write_bits _ _).map_err.congr
          ⟨fun _ => ⟨⟨hlow, hhigh⟩, hsafe⟩, fun _ => ⟨hwidth, .inr hoffset⟩⟩
      · have hnone : fp.width.toNat = 0 := by
          rw [gt_iff_lt, UInt8.lt_iff_toNat_lt, UInt8.toNat_zero] at hzero
          exact Nat.eq_zero_of_not_pos hzero
        simp only [if_neg hzero, hnone]
        exact ((Emits.pure ()).of_render_eq rfl).congr
          ⟨fun _ => ⟨⟨hlow, hhigh⟩, hsafe⟩, fun _ => trivial⟩
    · -- The range leaves `i64`, so its difference panics if the one before did not.
      rw [Classical.not_imp, Int.not_lt] at hsafe
      have hrange : (fp.maxQ - fp.minQ).toInt ≠ fp.maxQ.toInt - fp.minQ.toInt := by
        have := (fp.maxQ - fp.minQ).toInt_lt
        omega
      refine (?_ : Emits pos _ False _ _).congr ⟨False.elim, fun h => ?_⟩
      · by_cases hfirst : (v - fp.minQ).toInt = v.toInt - fp.minQ.toInt
        · rw [sub_eq_pure fun _ => hfirst, pure_bind, sub_eq_panic hsafe.1 hrange]
          exact Emits.fault_bind _
        · rw [sub_eq_panic hsafe.1 hfirst]
          exact Emits.fault_bind _
      · have := h.2 hsafe.1
        omega

/-- The writer emits the layout of a value in the range of its codec, and fails on others. -/
theorem emits_write_field_value (componentId : ComponentId) (field : FieldDef)
    (value : FieldValue) :
    Emits pos (writeFieldValue build componentId field value)
      (field.codec.Contains value ∧ field.codec.Writable build)
      (fieldLayout field.codec value) () := by
  unfold writeFieldValue
  split
  next v hcodec =>
    rw [hcodec]
    exact (emits_write_bit v).map_err.congr (by simp [FieldCodec.Contains, FieldCodec.Writable])
  next bits v hcodec =>
    rw [hcodec]
    exact emits_write_uint componentId field.id bits v
  next bits v hcodec =>
    rw [hcodec]
    exact emits_write_sint componentId field.id bits v
  next v hcodec =>
    rw [hcodec]
    exact emits_write_var_uint v
  next v hcodec =>
    rw [hcodec]
    exact emits_write_var_sint v
  next fp v hcodec =>
    rw [hcodec]
    exact emits_write_fixed_point fp v
  next hbool huint hsint hvaru hvars hfixed =>
    refine (Emits.fail _ ()).congr ⟨False.elim, fun h => ?_⟩
    have hcontains := h.1
    unfold FieldCodec.Contains at hcontains
    split at hcontains <;> simp_all

/-! ## Reading -/

theorem reads_read_fixed_point {fp : FixedPoint} (v : Int64) (hlow : fp.minQ ≤ v)
    (hhigh : v ≤ fp.maxQ) {error : Int64 → CodecError} :
    Reads pos (do
      let range := (← build.sub fp.maxQ fp.minQ).toUInt64
      let bits := requiredBits range
      let offset ← if bits = 0 then pure 0 else stream (BitReader.readBits bits)
      let value ← build.add fp.minQ offset.toInt64
      if value < fp.minQ ∨ value > fp.maxQ then
        fail (error value)
      return FieldValue.fixedPoint value : Call CodecError BitReader FieldValue)
      (build.overflowChecks → fp.maxQ.toInt - fp.minQ.toInt < 2 ^ 63)
      [.number fp.width.toNat (v - fp.minQ).toUInt64.toNat] (.fixedPoint v) := by
  have hle := Int64.le_iff_toInt_le.mp hlow
  have hle' := Int64.le_iff_toInt_le.mp hhigh
  by_cases hsafe : build.overflowChecks → fp.maxQ.toInt - fp.minQ.toInt < 2 ^ 63
  · have hsub (hchecks : build.overflowChecks) :
        (fp.maxQ - fp.minQ).toInt = fp.maxQ.toInt - fp.minQ.toInt := by
      have := hsafe hchecks
      rw [Int64.toInt_sub, Int.bmod_eq_of_le (by omega) (by omega)]
    have hadd (hchecks : build.overflowChecks) :
        (fp.minQ + (v - fp.minQ).toUInt64.toInt64).toInt
          = fp.minQ.toInt + (v - fp.minQ).toUInt64.toInt64.toInt := by
      have := hsafe hchecks
      have hoffset : (v - fp.minQ).toUInt64.toInt64 = v - fp.minQ := rfl
      rw [fixed_point_add_offset, hoffset, Int64.toInt_sub,
        Int.bmod_eq_of_le (by omega) (by omega)]
      omega
    have hwidth := (required_bits_spec (fp.maxQ - fp.minQ).toUInt64).1
    have hoffset := fixed_point_offset_lt hlow hhigh
    have hin : ¬ (v < fp.minQ ∨ v > fp.maxQ) :=
      not_or.mpr ⟨Int64.not_lt.mpr hlow, Int64.not_lt.mpr hhigh⟩
    rw [sub_eq_pure hsub, pure_bind]
    dsimp only
    by_cases hzero : requiredBits (fp.maxQ - fp.minQ).toUInt64 = 0
    · -- Only one value is in range, and it takes no bits.
      have hnone : fp.width.toNat = 0 := by rw [FixedPoint.width, hzero]; rfl
      have hsame : 0 = (v - fp.minQ).toUInt64 := by
        apply UInt64.toNat_inj.mp
        rw [hnone] at hoffset
        exact (Nat.lt_one_iff.mp hoffset).symm
      rw [if_pos hzero, pure_bind, hsame, add_eq_pure hadd, pure_bind, fixed_point_add_offset,
        if_neg hin, hnone, ← hsame]
      exact ((Parses.pure _).of_render_eq rfl).reads.congr ⟨fun _ => hsafe, fun _ => trivial⟩
    · have hread : Parses pos _ _ _ := parses_read_bits hwidth hoffset
      rw [if_neg hzero]
      refine (Parses.bind_reads hread.map_err ?_).congr ⟨fun _ => hsafe, fun _ => trivial⟩
      rw [add_eq_pure hadd, pure_bind, fixed_point_add_offset, if_neg hin]
      exact Reads.pure _
  -- the range itself overflows, before anything is read
  · rw [Classical.not_imp, Int.not_lt] at hsafe
    have hrange : (fp.maxQ - fp.minQ).toInt ≠ fp.maxQ.toInt - fp.minQ.toInt := by
      have := (fp.maxQ - fp.minQ).toInt_lt
      omega
    rw [sub_eq_panic hsafe.1 hrange]
    refine ⟨fun h => ?_, fun _ _ _ _ _ => ⟨_, _, rfl⟩⟩
    have := h hsafe.1
    omega

/-- The reader returns the value whose layout it finds, unless its arithmetic overflows on it. -/
theorem reads_read_field_value (componentId : ComponentId) {field : FieldDef} {value : FieldValue}
    (hvalid : field.codec.Valid) (hvalue : field.codec.Contains value) :
    Reads pos (readFieldValue build componentId field) (field.codec.Readable build value)
      (fieldLayout field.codec value) value := by
  unfold readFieldValue
  cases hcodec : field.codec with
  | bool =>
      rw [hcodec] at hvalue
      cases value with
      | bool v => exact Parses.bind_reads (parses_read_bit v).map_err (Reads.pure _)
      | _ => exact hvalue.elim
  | uint bits =>
      rw [hcodec] at hvalue hvalid
      cases value with
      | uint v =>
          refine Parses.bind_reads (parses_read_bits hvalid.2 hvalue).map_err ?_
          rw [show validateUint componentId field.id bits v = .ok () from
            validate_uint_eq_ok.mpr hvalue]
          exact Reads.pure _
      | _ => exact hvalue.elim
  | sint bits =>
      rw [hcodec] at hvalue hvalid
      cases value with
      | sint v =>
          have hbits : 2 ^ bits.toNat ≤ 2 ^ 64 := Nat.pow_le_pow_right (by decide) hvalid.2
          have hlt := Nat.mod_lt v.toUInt64.toNat (Nat.two_pow_pos bits.toNat)
          have hcode : (UInt64.ofNat (v.toUInt64.toNat % 2 ^ bits.toNat)).toNat
              = v.toUInt64.toNat % 2 ^ bits.toNat := by
            rw [UInt64.toNat_ofNat', Nat.mod_eq_of_lt (by omega)]
          have hread : Parses pos _ _ _ := parses_read_bits hvalid.2 (hcode ▸ hlt)
          rw [hcode] at hread
          refine Parses.bind_reads hread.map_err ?_
          rw [decode_sint_eq hvalid.1 hvalid.2 hvalue.1 hvalue.2]
          -- a negative value of 63 bits is read with a subtraction that overflows
          by_cases hpanic : build.overflowChecks ∧ bits = 63 ∧ v.toInt < 0
          · rw [if_pos hpanic]
            exact (Reads.fault .panic _).congr ⟨False.elim, fun h => h hpanic.1 hpanic.2⟩
          · rw [if_neg hpanic]
            exact (Reads.pure _).congr
              ⟨fun _ hchecks h => hpanic ⟨hchecks, h⟩, fun _ => trivial⟩
      | _ => exact hvalue.elim
  | varUInt =>
      rw [hcodec] at hvalue
      cases value with
      | varUInt v =>
          have hround : v.toUInt32.toUInt64 = v := by
            apply UInt64.toNat_inj.mp
            rw [UInt32.toNat_toUInt64, UInt64.toNat_toUInt32, Nat.mod_eq_of_lt hvalue]
          have haligned : stop pos [.align] % 8 = 0 := by rw [stop_align, add_padding_mod]
          have hread := parses_read_varu32 haligned v.toUInt32
          -- a varint starts at a byte boundary
          rw [fieldLayout, ← List.singleton_append, ← List.append_nil (bytes _)]
          refine Parses.bind_reads parses_align_to_byte.map_err
            (Parses.bind_reads hread.map_err ?_)
          rw [hround]
          exact Reads.pure _
      | _ => exact hvalue.elim
  | varSInt =>
      rw [hcodec] at hvalue
      cases value with
      | varSInt v =>
          have hround : v.toInt32.toInt64 = v := by
            apply Int64.toInt_inj.mp
            rw [Int32.toInt_toInt64, Int64.toInt_toInt32,
              Int.bmod_eq_of_le (by have := hvalue.1; omega) (by have := hvalue.2; omega)]
          have haligned : stop pos [.align] % 8 = 0 := by rw [stop_align, add_padding_mod]
          have hread := parses_read_vars32 haligned v.toInt32
          rw [fieldLayout, ← List.singleton_append, ← List.append_nil (bytes _)]
          refine Parses.bind_reads parses_align_to_byte.map_err
            (Parses.bind_reads hread.map_err ?_)
          rw [hround]
          exact Reads.pure _
      | _ => exact hvalue.elim
  | fixedPoint fp =>
      rw [hcodec] at hvalue hvalid
      cases value with
      | fixedPoint v =>
          exact reads_read_fixed_point _ hvalue.1 hvalue.2
      | _ => exact hvalue.elim

end Sdec
