import Sdec.Bits.Varint
import Sdec.Bitstream.Reader
import Mathlib.Tactic.Ring

/-!
# What the bit reader reads

`Parses pos read items a` says that on any slice whose bits from `pos` on start with the layout
`items`, the call `read` returns `a` and stops right behind the layout. `Refuses pos read items`
says that it fails there. Layouts that are read one after another compose by `Parses.bind` and
`Refuses.bind`, and each method of `BitReader` parses the item it is named after.
-/

namespace Sdec.Bitstream

open Rust Bits

variable {ε ε' α β : Type} {pos : Nat} {items more : Layout}

/-- On a slice that continues with `items` at bit `pos`, the call returns `a` and stops behind
them. -/
def Parses (pos : Nat) (read : Call ε BitReader α) (items : Layout) (a : α) : Prop :=
  ∀ data rest, 8 * data.length ≤ usizeMax →
    (ofBytes data).drop pos = render pos items ++ rest →
    read ⟨data, pos⟩ = .ok a ⟨data, stop pos items⟩

/-- On a slice that continues with `items` at bit `pos`, the call fails. -/
def Refuses (pos : Nat) (read : Call ε BitReader α) (items : Layout) : Prop :=
  ∀ data rest, 8 * data.length ≤ usizeMax →
    (ofBytes data).drop pos = render pos items ++ rest →
    ∃ error reader, read ⟨data, pos⟩ = .error error reader

theorem Parses.pure (a : α) : Parses pos (pure a : Call ε BitReader α) [] a :=
  fun _ _ _ _ => rfl

/-- The bits behind a parsed layout. -/
theorem drop_stop {data : List UInt8} {rest : List Bool}
    (h : (ofBytes data).drop pos = render pos items ++ rest) :
    (ofBytes data).drop (stop pos items) = rest := by
  rw [stop, ← List.drop_drop, h, List.drop_left]

theorem Parses.bind {read : Call ε BitReader α} {next : α → Call ε BitReader β} {a : α} {b : β}
    (h : Parses pos read items a) (hnext : Parses (stop pos items) (next a) more b) :
    Parses pos (read >>= next) (items ++ more) b := by
  intro data rest hlen hdata
  rw [render_append, List.append_assoc] at hdata
  have hread := h data _ hlen hdata
  have := hnext data rest hlen (drop_stop hdata)
  rw [stop_append, ← this]
  simp only [Bind.bind, EStateM.bind, hread]

/-- A first item read on its own. -/
theorem Parses.cons {read : Call ε BitReader α} {next : α → Call ε BitReader β} {item : Item}
    {a : α} {b : β} (h : Parses pos read [item] a)
    (hnext : Parses (stop pos [item]) (next a) more b) :
    Parses pos (read >>= next) (item :: more) b :=
  Parses.bind h hnext

theorem Refuses.bind {read : Call ε BitReader α} {next : α → Call ε BitReader β} {a : α}
    (h : Parses pos read items a) (hnext : Refuses (stop pos items) (next a) more) :
    Refuses pos (read >>= next) (items ++ more) := by
  intro data rest hlen hdata
  rw [render_append, List.append_assoc] at hdata
  have hread := h data _ hlen hdata
  obtain ⟨error, reader, herror⟩ := hnext data rest hlen (drop_stop hdata)
  refine ⟨error, reader, ?_⟩
  simp only [Bind.bind, EStateM.bind, hread, herror]

/-- A refusal is final: what follows is not reached. -/
theorem Refuses.bind_first {read : Call ε BitReader α} {next : α → Call ε BitReader β}
    (h : Refuses pos read items) : Refuses pos (read >>= next) (items ++ more) := by
  intro data rest hlen hdata
  rw [render_append, List.append_assoc] at hdata
  obtain ⟨error, reader, herror⟩ := h data _ hlen hdata
  exact ⟨error, reader, by simp only [Bind.bind, EStateM.bind, herror]⟩

theorem Parses.map_err {f : ε → ε'} {read : Call ε BitReader α} {a : α}
    (h : Parses pos read items a) : Parses pos (read.mapErr f) items a := by
  intro data rest hlen hdata
  simp only [Call.mapErr, h data rest hlen hdata]

/-- A parser of a first layout, followed by a pure step. -/
theorem Parses.map {read : Call ε BitReader α} {f : α → β} {a : α}
    (h : Parses pos read items a) : Parses pos (f <$> read) items (f a) := by
  intro data rest hlen hdata
  simp only [Functor.map, EStateM.map, h data rest hlen hdata]

/-- Only the bits of a layout matter. -/
theorem Parses.of_render_eq {read : Call ε BitReader α} {a : α} (h : Parses pos read items a)
    (hrender : render pos items = render pos more) : Parses pos read more a := by
  have hstop : stop pos items = stop pos more := by rw [stop, stop, hrender]
  intro data rest hlen hdata
  rw [← hstop]
  exact h data rest hlen (hrender ▸ hdata)

/-! ## The data under the reader -/

theorem lt_of_drop_eq_cons {data : List UInt8} {bit : Bool} {rest : List Bool}
    (h : (ofBytes data).drop pos = bit :: rest) : pos < 8 * data.length := by
  have := congrArg List.length h
  simp at this
  omega

theorem getElem?_of_drop_eq_cons {data : List UInt8} {bit : Bool} {rest : List Bool}
    (h : (ofBytes data).drop pos = bit :: rest) :
    ∃ byte, data[pos / 8]? = some byte ∧ byte.toNat.testBit (7 - pos % 8) = bit := by
  have hbit : (ofBytes data)[pos]? = some bit := by
    rw [← Nat.add_zero pos, ← List.getElem?_drop, h]
    rfl
  rw [getElem?_ofBytes] at hbit
  simpa using hbit

theorem bits_remaining_eq (pos : Nat) {data : List UInt8} (h : 8 * data.length ≤ usizeMax) :
    (BitReader.mk data pos).bitsRemaining = 8 * data.length - pos := by
  simp only [BitReader.bitsRemaining, saturatingMul]
  omega

/-- Enough bits remain for a layout the slice continues with. -/
theorem le_bits_remaining {data : List UInt8} {bits rest : List Bool}
    (hlen : 8 * data.length ≤ usizeMax) (h : (ofBytes data).drop pos = bits ++ rest) :
    bits.length ≤ (BitReader.mk data pos).bitsRemaining := by
  rw [bits_remaining_eq _ hlen]
  have := congrArg List.length h
  simp at this
  omega

/-- At a byte boundary, the slice continues with the bytes its bits say. -/
theorem slice_of_drop_eq {data bytes : List UInt8} {rest : List Bool} (hpos : pos % 8 = 0)
    (h : (ofBytes data).drop pos = ofBytes bytes ++ rest) :
    (data.drop (pos / 8)).take bytes.length = bytes := by
  obtain ⟨k, rfl⟩ : ∃ k, pos = 8 * k := ⟨pos / 8, by omega⟩
  rw [drop_ofBytes] at h
  rw [Nat.mul_div_cancel_left _ (by decide)]
  apply ofBytes_injective
  rw [← take_ofBytes, h]
  exact List.take_left' (by simp)

/-! ## The methods -/

/-- The bit that the shift and mask of `read_bit` extract. -/
theorem shift_and_one_eq (byte : UInt8) {i : Nat} (h : i < 8) :
    ((byte >>> UInt8.ofNat i) &&& 1 == 1) = byte.toNat.testBit i := by
  have hi : (UInt8.ofNat i).toNat % 8 = i := by simp; omega
  apply Bool.eq_iff_iff.mpr
  rw [beq_iff_eq, ← UInt8.toNat_inj, UInt8.toNat_and, UInt8.toNat_shiftRight, hi, UInt8.toNat_one,
    Nat.and_one_is_mod, Nat.shiftRight_eq_div_pow, Nat.testBit_eq_decide_div_mod_eq,
    decide_eq_true_eq]

theorem parses_read_bit (bit : Bool) : Parses pos BitReader.readBit [.bit bit] bit := by
  intro data rest hlen hdata
  rw [render_cons, render_bit, List.append_assoc, List.singleton_append] at hdata
  have hlt := lt_of_drop_eq_cons hdata
  obtain ⟨byte, hbyte, hbit⟩ := getElem?_of_drop_eq_cons hdata
  have hsome : (BitReader.mk data pos).bitsRemaining ≠ 0 := by
    rw [bits_remaining_eq _ hlen]
    omega
  have hadd : pos + 1 ≤ usizeMax := by omega
  simp [BitReader.readBit, hsome, index_of_some hbyte, usize_add_of_le hadd]
  rw [shift_and_one_eq byte (by omega), hbit]

/-- One step of the accumulation in `read_bits`. -/
theorem shift_or_bit (acc : UInt64) (bit : Bool) (h : 2 * acc.toNat + bit.toNat < 2 ^ 64) :
    ((acc <<< 1) ||| bit.toUInt64).toNat = 2 * acc.toNat + bit.toNat := by
  have hshift : (acc <<< 1).toNat = 2 ^ 1 * acc.toNat := by
    rw [UInt64.toNat_shiftLeft, Nat.shiftLeft_eq, show (1 : UInt64).toNat % 64 = 1 from rfl]
    omega
  have hbit : bit.toUInt64.toNat = bit.toNat := by cases bit <;> rfl
  rw [UInt64.toNat_or, hshift, hbit, ← Nat.two_pow_add_eq_or_of_lt bit.toNat_lt]

theorem parses_read_bits_loop (pos : Nat) (bits : List Bool) (acc result : UInt64)
    (h : toNatFrom acc.toNat bits = result.toNat) :
    Parses pos (BitReader.readBitsLoop bits.length acc) (flags bits) result := by
  induction bits generalizing acc pos with
  | nil =>
      have : acc = result := UInt64.toNat_inj.mp h
      subst this
      exact Parses.pure acc
  | cons bit bits ih =>
      have hbound : 2 * acc.toNat + bit.toNat < 2 ^ 64 :=
        calc 2 * acc.toNat + bit.toNat ≤ toNatFrom (2 * acc.toNat + bit.toNat) bits :=
              le_toNatFrom _ _
          _ = result.toNat := h
          _ < 2 ^ 64 := result.toNat_lt
      refine Parses.cons (parses_read_bit bit) (ih _ _ ?_)
      rw [shift_or_bit acc bit hbound]
      exact h

/-- A number of up to 64 bits. -/
theorem parses_read_bits {value : UInt64} {bits : UInt8} (hbits : bits.toNat ≤ 64)
    (hvalue : value.toNat < 2 ^ bits.toNat) :
    Parses pos (BitReader.readBits bits) [.number bits.toNat value.toNat] value := by
  intro data rest hlen hdata
  have hrender : render pos [.number bits.toNat value.toNat]
      = ofNat bits.toNat value.toNat := by simp [render, Item.render]
  rw [hrender] at hdata
  have hle : ¬ bits > 64 := by
    rw [gt_iff_lt, UInt8.lt_iff_toNat_lt]
    exact Nat.not_lt.mpr hbits
  have hrem : ¬ bits.toNat > (BitReader.mk data pos).bitsRemaining := by
    have := le_bits_remaining hlen hdata
    rw [length_ofNat] at this
    omega
  have hloop := parses_read_bits_loop pos (ofNat bits.toNat value.toNat) 0 value
    (toNat_ofNat hvalue) data rest hlen (by rw [render_flags, hdata])
  have hstop : stop pos (flags (ofNat bits.toNat value.toNat)) = pos + bits.toNat := by
    simp [stop]
  rw [length_ofNat, hstop] at hloop
  by_cases hzero : bits = 0
  · subst hzero
    have : value = 0 := UInt64.toNat_inj.mp (by simpa using hvalue)
    simp [BitReader.readBits, this]
  · simp [BitReader.readBits, hle, hzero, hrem, hloop]

theorem parses_align_to_byte : Parses pos BitReader.alignToByte [.align] () := by
  intro data rest hlen hdata
  by_cases hpos : pos % 8 = 0
  · simp [BitReader.alignToByte, hpos, padding_of_aligned hpos]
  · have hpad : padding pos = 8 - pos % 8 := by
      rw [padding]
      omega
    have hle := le_bits_remaining hlen hdata
    have hlt : 8 - pos % 8 ≤ (BitReader.mk data pos).bitsRemaining := by
      simpa [render, Item.render, hpad] using hle
    have hadd : pos + (8 - pos % 8) ≤ usizeMax := by
      rw [bits_remaining_eq _ hlen] at hlt
      omega
    simp [BitReader.alignToByte, hpos, Nat.not_lt.mpr hlt, usize_add_of_le hadd, hpad]

/-- A byte at a byte boundary. -/
theorem parses_read_u8_aligned (hpos : pos % 8 = 0) (byte : UInt8) :
    Parses pos BitReader.readU8Aligned [.byte byte] byte := by
  intro data rest hlen hdata
  have hdata' : (ofBytes data).drop pos = ofBytes [byte] ++ rest := by
    rw [hdata, ← bytes_nil, ← bytes_cons, render_bytes]
  have hle : 8 ≤ (BitReader.mk data pos).bitsRemaining := le_bits_remaining hlen hdata'
  have hslice := slice_of_drop_eq hpos hdata'
  have hbyte : data[pos / 8]? = some byte := by
    have := congrArg (·[0]?) hslice
    simpa using this
  have hadd : pos + 8 ≤ usizeMax := by
    rw [bits_remaining_eq _ hlen] at hle
    omega
  simp [BitReader.readU8Aligned, BitReader.ensureAligned, BitReader.ensureBits, hpos,
    Nat.not_lt.mpr hle, index_of_some hbyte, usize_add_of_le hadd]

/-- Several bytes at a byte boundary. -/
theorem parses_read_aligned_bytes (hpos : pos % 8 = 0) (values : List UInt8)
    (hsome : 0 < values.length) :
    Parses pos (BitReader.readAlignedBytes values.length) (bytes values) values := by
  intro data rest hlen hdata
  rw [render_bytes] at hdata
  have hle : values.length * 8 ≤ (BitReader.mk data pos).bitsRemaining := by
    have := le_bits_remaining hlen hdata
    rw [length_ofBytes] at this
    omega
  have hslice := slice_of_drop_eq hpos hdata
  have hend : pos / 8 + values.length ≤ data.length := by
    rw [bits_remaining_eq _ hlen] at hle
    omega
  have hadd : pos + values.length * 8 ≤ usizeMax := by
    rw [bits_remaining_eq _ hlen] at hle
    omega
  rw [List.take_drop] at hslice
  simp [BitReader.readAlignedBytes, BitReader.ensureAligned, BitReader.ensureBits, hpos,
    Nat.not_lt.mpr hle, slice_of_le (Nat.le_add_right _ _) hend, hslice, usize_add_of_le hadd,
    Nat.mul_comm]

theorem parses_read_u16_aligned (hpos : pos % 8 = 0) (value : UInt16) :
    Parses pos BitReader.readU16Aligned (bytes (leBytes 2 value.toNat)) value := by
  have h := (parses_read_aligned_bytes hpos (leBytes 2 value.toNat) (by simp)).map
    (f := fun bytes => UInt16.ofNat (leNat bytes))
  rw [length_leBytes, ofNat_leNat_leBytes_two] at h
  exact h

theorem parses_read_u32_aligned (hpos : pos % 8 = 0) (value : UInt32) :
    Parses pos BitReader.readU32Aligned (bytes (leBytes 4 value.toNat)) value := by
  have h := (parses_read_aligned_bytes hpos (leBytes 4 value.toNat) (by simp)).map
    (f := fun bytes => UInt32.ofNat (leNat bytes))
  rw [length_leBytes, ofNat_leNat_leBytes_four] at h
  exact h

theorem parses_read_u64_aligned (hpos : pos % 8 = 0) (value : UInt64) :
    Parses pos BitReader.readU64Aligned (bytes (leBytes 8 value.toNat)) value := by
  have h := (parses_read_aligned_bytes hpos (leBytes 8 value.toNat) (by simp)).map
    (f := fun bytes => UInt64.ofNat (leNat bytes))
  rw [length_leBytes, ofNat_leNat_leBytes_eight] at h
  exact h

/-! ## Varints -/

/-- What a byte read at a byte boundary returns. -/
theorem read_u8_aligned_eq {data : List UInt8} (hlen : 8 * data.length ≤ usizeMax)
    (hpos : pos % 8 = 0) :
    BitReader.readU8Aligned ⟨data, pos⟩ = match data[pos / 8]? with
      | some byte => .ok byte ⟨data, pos + 8⟩
      | none => .error (.err (.unexpectedEof 8 0)) ⟨data, pos⟩ := by
  have hrem := bits_remaining_eq pos hlen
  cases hbyte : data[pos / 8]? with
  | none =>
      have hend : data.length ≤ pos / 8 := List.getElem?_eq_none_iff.mp hbyte
      have hzero : (BitReader.mk data pos).bitsRemaining = 0 := by omega
      simp [BitReader.readU8Aligned, BitReader.ensureAligned, BitReader.ensureBits, hpos, hzero]
  | some byte =>
      have hlt : pos / 8 < data.length := (List.getElem?_eq_some_iff.mp hbyte).1
      have hle : ¬ 8 > (BitReader.mk data pos).bitsRemaining := by omega
      have hadd : pos + 8 ≤ usizeMax := by omega
      simp [BitReader.readU8Aligned, BitReader.ensureAligned, BitReader.ensureBits, hpos, hle,
        index_of_some hbyte, usize_add_of_le hadd]

/-- The loop of `read_varu32` with the `n` shifts from `7 * j` on left returns what the bytes
denote, modulo the width of a `u32`. -/
theorem read_varu32_loop_eq {data : List UInt8} (hlen : 8 * data.length ≤ usizeMax) (n j : Nat)
    (result : UInt32) (hpos : pos % 8 = 0) (hn : j + n = 5) (hresult : result.toNat < 2 ^ (7 * j)) :
    match scan n (data.drop (pos / 8)) with
      | .value number length =>
          BitReader.readVaru32Loop ((List.range' j n).map fun i => UInt32.ofNat (7 * i)) result
            ⟨data, pos⟩ = .ok (UInt32.ofNat (result.toNat + number * 2 ^ (7 * j)))
              ⟨data, pos + 8 * length⟩
      | .truncated => ∃ reader,
          BitReader.readVaru32Loop ((List.range' j n).map fun i => UInt32.ofNat (7 * i)) result
            ⟨data, pos⟩ = .error (.err (.unexpectedEof 8 0)) reader
      | .overlong => ∃ reader,
          BitReader.readVaru32Loop ((List.range' j n).map fun i => UInt32.ofNat (7 * i)) result
            ⟨data, pos⟩ = .error (.err .invalidVarint) reader := by
  induction n generalizing pos j result with
  | zero => exact ⟨⟨data, pos⟩, rfl⟩
  | succ n ih =>
      have hread := read_u8_aligned_eq hlen hpos
      rw [List.range'_succ, List.map_cons]
      simp only [BitReader.readVaru32Loop, bind_apply, hread]
      cases hdrop : data.drop (pos / 8) with
      | nil =>
          have hnone : data[pos / 8]? = none := by
            rw [← Nat.add_zero (pos / 8), ← List.getElem?_drop, hdrop]
            rfl
          simp only [hnone, scan]
          exact ⟨⟨data, pos⟩, rfl⟩
      | cons byte rest =>
          obtain ⟨_, hsome, hrest⟩ := drop_eq_cons hdrop
          rw [show pos / 8 + 1 = (pos + 8) / 8 by omega] at hrest
          have hor := or_group_toNat byte (by omega : j ≤ 4) hresult
          simp only [hsome, scan]
          by_cases hlast : byte.toNat < 128
          · have hvalue : result ||| ((byte &&& 0x7F).toUInt32 <<< UInt32.ofNat (7 * j))
                = UInt32.ofNat (result.toNat + byte.toNat * 2 ^ (7 * j)) := by
              apply UInt32.toNat_inj.mp
              rw [hor, Nat.mod_eq_of_lt hlast, UInt32.toNat_ofNat']
            simp only [if_pos hlast, if_pos ((high_bit_eq_zero byte).mpr hlast), pure_apply, hvalue]
          · have hmore : ¬ byte &&& 0x80 = 0 := mt (high_bit_eq_zero byte).mp hlast
            simp only [if_neg hlast, if_neg hmore]
            cases n with
            | zero => exact ⟨_, rfl⟩
            | succ n =>
                -- Another group can follow, so nothing has been cut off yet.
                have hlt := add_group_lt byte.toNat hresult
                have hfits : 2 ^ (7 * (j + 1)) < 2 ^ 32 :=
                  Nat.pow_lt_pow_right (by decide) (by omega)
                rw [Nat.mod_eq_of_lt (by omega)] at hor
                have hnext := @ih (pos + 8) (j + 1) _ (by omega) (by omega)
                  (by rw [hor]; exact hlt)
                rw [hrest, hor] at hnext
                cases hscan : scan (n + 1) rest with
                | value number length =>
                    rw [hscan] at hnext
                    simp only [Scan.prepend]
                    rw [add_group_mul, hnext]
                    congr 2
                    omega
                | truncated => rwa [hscan] at hnext
                | overlong => rwa [hscan] at hnext

/-- `read_varu32` returns the number that the bytes denote, modulo the width of a `u32`, and fails
when they end too early or too late. -/
theorem read_varu32_eq {data : List UInt8} (hlen : 8 * data.length ≤ usizeMax)
    (hpos : pos % 8 = 0) :
    match scan 5 (data.drop (pos / 8)) with
      | .value number length =>
          BitReader.readVaru32 ⟨data, pos⟩ = .ok (UInt32.ofNat number) ⟨data, pos + 8 * length⟩
      | .truncated => ∃ reader,
          BitReader.readVaru32 ⟨data, pos⟩ = .error (.err (.unexpectedEof 8 0)) reader
      | .overlong => ∃ reader,
          BitReader.readVaru32 ⟨data, pos⟩ = .error (.err .invalidVarint) reader := by
  have hloop := read_varu32_loop_eq hlen 5 0 0 hpos rfl (by simp)
  have hshifts : ((List.range' 0 5).map fun i => UInt32.ofNat (7 * i)) = [0, 7, 14, 21, 28] := rfl
  have haligned : ¬ pos % 8 ≠ 0 := not_not.mpr hpos
  have hread : BitReader.readVaru32 ⟨data, pos⟩
      = BitReader.readVaru32Loop [0, 7, 14, 21, 28] 0 ⟨data, pos⟩ := by
    simp only [BitReader.readVaru32, BitReader.ensureAligned, bind_apply, get_apply,
      if_neg haligned, pure_apply]
  rw [hshifts, UInt32.toNat_zero] at hloop
  simpa only [hread, Nat.zero_add, Nat.mul_zero, Nat.pow_zero, Nat.mul_one] using hloop

theorem parses_read_varu32 (hpos : pos % 8 = 0) (value : UInt32) :
    Parses pos BitReader.readVaru32 (bytes (varu32 value)) value := by
  intro data rest hlen hdata
  rw [render_bytes] at hdata
  have hbytes : data.drop (pos / 8)
      = varu32 value ++ (data.drop (pos / 8)).drop (varu32 value).length := by
    conv_lhs => rw [← List.take_append_drop (varu32 value).length (data.drop (pos / 8))]
    rw [slice_of_drop_eq hpos hdata]
  have hscan : scan 5 (data.drop (pos / 8)) = .value value.toNat (varu32 value).length := by
    rw [hbytes]
    exact scan_leb128 (Nat.lt_of_lt_of_le value.toNat_lt (by decide)) _
  have hread := read_varu32_eq hlen hpos
  rw [hscan] at hread
  rw [stop_bytes, hread, UInt32.ofNat_toNat]

theorem parses_read_vars32 (hpos : pos % 8 = 0) (value : Int32) :
    Parses pos BitReader.readVars32 (bytes (vars32 value)) value := by
  have h := (parses_read_varu32 hpos ((value <<< 1) ^^^ (value >>> 31)).toUInt32).map
    (f := fun code : UInt32 => (code >>> 1).toInt32 ^^^ (-(code &&& 1).toInt32))
  have hvalue : (((value <<< 1) ^^^ (value >>> 31)).toUInt32 >>> 1).toInt32
      ^^^ (-(((value <<< 1) ^^^ (value >>> 31)).toUInt32 &&& 1).toInt32) = value := by
    apply Int32.toBitVec_inj.mp
    simpa [BitVec.sshiftRight'] using zigzag_decode_encode (n := 31) value.toBitVec
  rw [hvalue] at h
  exact h

end Sdec.Bitstream
