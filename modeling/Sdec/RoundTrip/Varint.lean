import Sdec.Codec.Change
import Sdec.Format.Section

/-!
# The copies of the varint code

The workspace has four writers of `u32` varints, three functions for their length and three readers,
each written out on its own. Read `varu32_copies_agree` first: they all work on one encoding. The
readers share a defect, for which see `varint_readers_exact_iff`: a fifth byte can hold seven bits
of which only four fit, and the others are dropped without an error.
-/

namespace Sdec

open Rust Bits Bitstream Wire Codec

variable {buf : List UInt8}

/-! ## Readers -/

/-- `read_varu32` of `packet.rs` finds nothing behind the end of its buffer. -/
theorem packet_read_varu32_past_end {position : Nat} (h : buf.length < position) :
    ∃ fault, Packet.readVaru32 buf position = .error fault := by
  unfold Packet.readVaru32 Packet.readVaru32Loop
  rw [if_pos (Nat.le_of_lt h)]
  by_cases hadd : position + 1 ≤ usizeMax
  · rw [usize_add_of_le hadd]
    exact ⟨_, rfl⟩
  · rw [usizeAdd, if_neg hadd]
    exact ⟨_, rfl⟩

theorem session_read_varu32_past_end {position : Nat} (h : buf.length < position) :
    ∃ fault, Session.readVaru32 buf position = .error fault := by
  unfold Session.readVaru32 Session.readVaru32Loop
  rw [if_pos (Nat.le_of_lt h)]
  exact ⟨_, rfl⟩

/-- What `read_varu32` of `packet.rs` returns at any position. -/
theorem packet_read_varu32_cases (hlen : buf.length ≤ isizeMax) (position : Nat) :
    match scan 5 (buf.drop position) with
      | .value number length =>
          Packet.readVaru32 buf position = .ok (UInt32.ofNat number, position + length)
      | _ => ∃ fault, Packet.readVaru32 buf position = .error fault := by
  by_cases h : position ≤ buf.length
  · have hread := Packet.read_varu32_eq hlen h
    cases hscan : scan 5 (buf.drop position) with
    | value number length => rwa [hscan] at hread
    | truncated | overlong =>
        rw [hscan] at hread
        obtain ⟨error, herror⟩ := hread
        exact ⟨_, herror⟩
  · rw [List.drop_eq_nil_of_le (by omega)]
    exact packet_read_varu32_past_end (Nat.lt_of_not_le h)

/-- What `read_varu32` of `session.rs` returns at any position. -/
theorem session_read_varu32_cases (hlen : buf.length ≤ isizeMax) (position : Nat) :
    match scan 5 (buf.drop position) with
      | .value number length =>
          Session.readVaru32 buf position = .ok (UInt32.ofNat number, position + length)
      | _ => ∃ fault, Session.readVaru32 buf position = .error fault := by
  by_cases h : position ≤ buf.length
  · have hread := Session.read_varu32_eq hlen h
    cases hscan : scan 5 (buf.drop position) with
    | value number length => rwa [hscan] at hread
    | truncated | overlong =>
        rw [hscan] at hread
        obtain ⟨error, herror⟩ := hread
        exact ⟨_, herror⟩
  · rw [List.drop_eq_nil_of_le (by omega)]
    exact session_read_varu32_past_end (Nat.lt_of_not_le h)

/-- What `BitReader::read_varu32` returns at a byte boundary. -/
theorem bit_reader_read_varu32_cases (hlen : 8 * buf.length ≤ usizeMax) {position : Nat}
    (hpos : position % 8 = 0) :
    match scan 5 (buf.drop (position / 8)) with
      | .value number length => BitReader.readVaru32 ⟨buf, position⟩
          = .ok (UInt32.ofNat number) ⟨buf, position + 8 * length⟩
      | _ => ∃ fault reader, BitReader.readVaru32 ⟨buf, position⟩ = .error fault reader := by
  have hread := read_varu32_eq hlen hpos
  cases hscan : scan 5 (buf.drop (position / 8)) with
  | value number length => rwa [hscan] at hread
  | truncated | overlong =>
      rw [hscan] at hread
      obtain ⟨reader, hreader⟩ := hread
      exact ⟨_, reader, hreader⟩

/-- `BitReader::read_varu32` refuses to start within a byte. -/
theorem bit_reader_read_varu32_misaligned {position : Nat} (hpos : ¬ position % 8 = 0) :
    BitReader.readVaru32 ⟨buf, position⟩
      = .error (.err (.misalignedAccess position)) ⟨buf, position⟩ := by
  simp only [BitReader.readVaru32, BitReader.ensureAligned, bind_apply, get_apply, if_pos hpos,
    fail_apply]

/-- A reader of a byte slice, as a relation between its number and the bytes it consumes. -/
theorem exact_iff_of_cases {ε : Type} {x : Except ε (UInt32 × Nat)} {position : Nat}
    (h : match scan 5 (buf.drop position) with
      | .value number length => x = .ok (UInt32.ofNat number, position + length)
      | _ => ∃ fault, x = .error fault) :
    (∀ v next, x = .ok (v, next) →
        v.toNat = base128 ((buf.drop position).take (next - position)))
      ↔ ¬ Overlarge 4 (buf.drop position) := by
  rw [← @exact_iff_not_overlarge _ (fun v n => x = .ok (v, position + n))]
  · constructor
    · intro hexact v n hv
      have := hexact v (position + n) hv
      rwa [Nat.add_sub_cancel_left] at this
    · intro hexact v next hv
      cases hscan : scan 5 (buf.drop position) with
      | value number length =>
          rw [hscan] at h
          obtain ⟨rfl, rfl⟩ := Prod.mk.inj (Except.ok.inj (h.symm.trans hv))
          rw [Nat.add_sub_cancel_left]
          exact hexact _ length hv
      | truncated | overlong =>
          rw [hscan] at h
          obtain ⟨fault, hfault⟩ := h
          rw [hfault] at hv
          cases hv
  · cases hscan : scan 5 (buf.drop position) with
    | value number length =>
        rw [hscan] at h
        intro v n
        rw [h, Except.ok.injEq, Prod.mk.injEq, Nat.add_left_cancel_iff]
        exact and_congr eq_comm eq_comm
    | truncated | overlong =>
        rw [hscan] at h
        obtain ⟨fault, hfault⟩ := h
        intro v n hv
        rw [hfault] at hv
        cases hv

/-- The same for `BitReader::read_varu32`, whose position counts bits. -/
theorem bit_reader_exact_iff (hlen : 8 * buf.length ≤ usizeMax) (position : Nat) :
    (∀ v reader, BitReader.readVaru32 ⟨buf, position⟩ = .ok v reader →
        v.toNat = base128 ((buf.drop (position / 8)).take ((reader.bitPos - position) / 8)))
      ↔ ¬ (position % 8 = 0 ∧ Overlarge 4 (buf.drop (position / 8))) := by
  by_cases hpos : position % 8 = 0
  · have hcases := bit_reader_read_varu32_cases hlen hpos
    have hexact := @exact_iff_not_overlarge (buf.drop (position / 8))
      fun v n => BitReader.readVaru32 ⟨buf, position⟩ = .ok v ⟨buf, position + 8 * n⟩
    rw [and_iff_right hpos]
    cases hscan : scan 5 (buf.drop (position / 8)) with
    | value number length =>
        rw [hscan] at hcases
        rw [hscan] at hexact
        rw [← hexact fun v n => ?_]
        · constructor
          · intro hall v n hv
            have := hall v _ hv
            rwa [show (position + 8 * n - position) / 8 = n by omega] at this
          · intro hall v reader hv
            obtain ⟨rfl, rfl⟩ := EStateM.Result.ok.inj (hcases.symm.trans hv)
            rw [show (position + 8 * length - position) / 8 = length by omega]
            exact hall _ length hv
        · have hstop : position + 8 * length = position + 8 * n ↔ n = length := by omega
          rw [hcases, EStateM.Result.ok.injEq, BitReader.mk.injEq, and_iff_right rfl, hstop]
          exact and_congr_left' eq_comm
    | truncated | overlong =>
        rw [hscan] at hcases
        obtain ⟨fault, reader, hfault⟩ := hcases
        rw [hscan] at hexact
        rw [← hexact fun v n hv => ?_]
        · refine ⟨fun _ v n hv => ?_, fun _ v reader' hv => ?_⟩
          · rw [hfault] at hv
            cases hv
          · rw [hfault] at hv
            cases hv
        · rw [hfault] at hv
          cases hv
  · refine ⟨fun _ hover => hpos hover.1, fun _ v reader hv => ?_⟩
    rw [bit_reader_read_varu32_misaligned hpos] at hv
    cases hv

/-- Each of the three readers returns the number its bytes denote, taken over the integers, unless
they are five and the fifth one holds more than four bits. -/
theorem varint_readers_exact_iff (hlen : 8 * buf.length ≤ usizeMax) (position : Nat) :
    ((∀ v next, Packet.readVaru32 buf position = .ok (v, next) →
        v.toNat = base128 ((buf.drop position).take (next - position)))
      ↔ ¬ Overlarge 4 (buf.drop position)) ∧
    ((∀ v next, Session.readVaru32 buf position = .ok (v, next) →
        v.toNat = base128 ((buf.drop position).take (next - position)))
      ↔ ¬ Overlarge 4 (buf.drop position)) ∧
    ((∀ v reader, BitReader.readVaru32 ⟨buf, position⟩ = .ok v reader →
        v.toNat = base128 ((buf.drop (position / 8)).take ((reader.bitPos - position) / 8)))
      ↔ ¬ (position % 8 = 0 ∧ Overlarge 4 (buf.drop (position / 8)))) := by
  have hsize : buf.length ≤ isizeMax := by
    simp only [isizeMax, usizeMax] at *
    omega
  exact ⟨exact_iff_of_cases (packet_read_varu32_cases hsize position),
    exact_iff_of_cases (session_read_varu32_cases hsize position),
    bit_reader_exact_iff hlen position⟩

/-- At a varint that is not overlarge. -/
theorem varint_readers_exact_iff_two_bytes :
    (∀ v next, Packet.readVaru32 [0xAC, 0x02] 0 = .ok (v, next) →
        v.toNat = base128 (([0xAC, 0x02] : List UInt8).drop 0 |>.take (next - 0)))
      ∧ ¬ Overlarge 4 (([0xAC, 0x02] : List UInt8).drop 0) := by
  have hover : ¬ Overlarge 4 (([0xAC, 0x02] : List UInt8).drop 0) := by decide
  have h := @varint_readers_exact_iff [0xAC, 0x02] (by decide) 0
  exact ⟨h.1.mpr hover, hover⟩

/-- The seven bits of the fifth byte are cut down to four by all three readers. -/
theorem varint_readers_truncate :
    ∃ v, Packet.readVaru32 [0xFF, 0xFF, 0xFF, 0xFF, 0x7F] 0 = .ok (v, 5)
      ∧ Session.readVaru32 [0xFF, 0xFF, 0xFF, 0xFF, 0x7F] 0 = .ok (v, 5)
      ∧ BitReader.readVaru32 ⟨[0xFF, 0xFF, 0xFF, 0xFF, 0x7F], 0⟩
        = .ok v ⟨[0xFF, 0xFF, 0xFF, 0xFF, 0x7F], 40⟩
      ∧ v.toNat ≠ base128 [0xFF, 0xFF, 0xFF, 0xFF, 0x7F] :=
  ⟨0xFFFFFFFF, by decide +kernel, by decide +kernel, by decide +kernel, by decide +kernel⟩

/-! ## Lengths -/

/-- The table of `varu32_len` in `delta.rs` has the thresholds at which a varint grows. -/
theorem varu32_size_eq (value : UInt32) : varu32Size value = (varu32 value).length := by
  have hlt (k : Nat) (hk : k < 32) : value < (1 : UInt32) <<< UInt32.ofNat k
      ↔ value.toNat < 2 ^ k := by
    have hmod : (UInt32.ofNat k).toNat % 32 = k := by
      rw [UInt32.toNat_ofNat']
      omega
    have hpow : 2 ^ k < 2 ^ 32 := Nat.pow_lt_pow_right (by decide) hk
    rw [UInt32.lt_iff_toNat_lt, UInt32.toNat_shiftLeft, hmod, UInt32.toNat_one, Nat.shiftLeft_eq,
      Nat.one_mul, Nat.mod_eq_of_lt hpow]
  have hvalue := value.toNat_lt
  unfold varu32Size varu32
  rw [show (7 : UInt32) = UInt32.ofNat 7 from rfl, show (14 : UInt32) = UInt32.ofNat 14 from rfl,
    show (21 : UInt32) = UInt32.ofNat 21 from rfl, show (28 : UInt32) = UInt32.ofNat 28 from rfl]
  simp only [hlt 7 (by decide), hlt 14 (by decide), hlt 21 (by decide), hlt 28 (by decide)]
  by_cases h7 : value.toNat < 2 ^ 7
  · rw [if_pos h7, leb128_of_lt h7]
    rfl
  · rw [if_neg h7, leb128_of_le (by omega), List.length_cons]
    by_cases h14 : value.toNat < 2 ^ 14
    · rw [if_pos h14, leb128_of_lt (by omega)]
      rfl
    · rw [if_neg h14, leb128_of_le (by omega), List.length_cons]
      by_cases h21 : value.toNat < 2 ^ 21
      · rw [if_pos h21, leb128_of_lt (by omega)]
        rfl
      · rw [if_neg h21, leb128_of_le (by omega), List.length_cons]
        by_cases h28 : value.toNat < 2 ^ 28
        · rw [if_pos h28, leb128_of_lt (by omega)]
          rfl
        · rw [if_neg h28, leb128_of_le (by omega), List.length_cons, leb128_of_lt (by omega)]
          rfl

/-! ## Agreement -/

/-- A writer of whole bytes at a byte boundary replaces bytes of its buffer. -/
theorem emits_bytes_eq {write : Call BitError BitWriter Unit} {values : List UInt8} {position : Nat}
    (h : Emits position write True (bytes values) ()) (hpos : position % 8 = 0)
    (hfits : position + 8 * values.length ≤ capacity buf) :
    write ⟨buf, position⟩ = .ok ()
      ⟨buf.take (position / 8) ++ values ++ buf.drop (position / 8 + values.length),
        position + 8 * values.length⟩ := by
  obtain ⟨buf', hrun, hbits⟩ := (h buf (by omega)).1 trivial (by rwa [stop_bytes])
  obtain ⟨n, rfl⟩ : ∃ n, position = 8 * n := ⟨position / 8, by omega⟩
  have hbuf : buf' = buf.take n ++ values ++ buf.drop (n + values.length) := by
    apply ofBytes_injective
    rw [hbits, render_bytes, overwrite, length_ofBytes, ← Nat.mul_add, take_ofBytes, drop_ofBytes,
      ofBytes_append, ofBytes_append]
  rw [hrun, hbuf, stop_bytes, Nat.mul_div_cancel_left _ (by omega)]

/-- `write_varu32` of `snapshot.rs` puts the bytes of the varint at the front of the slice. -/
theorem codec_write_varu32_eq {value : UInt32} {out : List UInt8} (hlen : out.length ≤ isizeMax)
    (hfits : (varu32 value).length ≤ out.length) :
    Codec.writeVaru32 value out = .ok (varu32 value ++ out.drop (varu32 value).length) := by
  have hloop := write_varu32_loop_eq (ε := CodecError) 0 5 hlen
    (by rw [Nat.zero_add]; exact hfits)
  rw [Codec.writeVaru32, hloop, ok_bind, Nat.zero_add, List.take_zero, List.nil_append]
  rfl

/-- All writers emit the same bytes for a number, all length functions count them, and all readers
read it back from them. -/
theorem writers_agree (value : UInt32) : ∃ encoded : List UInt8,
    (∀ buf position, position % 8 = 0 → position + 8 * encoded.length ≤ capacity buf →
      BitWriter.writeVaru32 value ⟨buf, position⟩ = .ok ()
        ⟨buf.take (position / 8) ++ encoded ++ buf.drop (position / 8 + encoded.length),
          position + 8 * encoded.length⟩) ∧
    (∀ out, out.length ≤ isizeMax → encoded.length ≤ out.length →
      Packet.writeVaru32 value out = .ok (encoded.length, encoded ++ out.drop encoded.length) ∧
      Session.writeVaru32 value out = .ok (encoded.length, encoded ++ out.drop encoded.length) ∧
      Codec.writeVaru32 value out = .ok (encoded ++ out.drop encoded.length)) ∧
    Packet.varu32Len value = encoded.length ∧ Codec.varu32Len value = encoded.length ∧
    varu32Size value = encoded.length ∧
    ∀ buf position rest, 8 * buf.length ≤ usizeMax → buf.drop position = encoded ++ rest →
      Packet.readVaru32 buf position = .ok (value, position + encoded.length) ∧
      Session.readVaru32 buf position = .ok (value, position + encoded.length) ∧
      BitReader.readVaru32 ⟨buf, 8 * position⟩
        = .ok value ⟨buf, 8 * position + 8 * encoded.length⟩ := by
  refine ⟨varu32 value, fun buf position hpos hfits => ?_, fun out hlen hfits => ?_,
    Packet.varu32_len_eq value, Sdec.varu32_len_eq value, varu32_size_eq value,
    fun buf position rest hlen hdrop => ?_⟩
  · exact emits_bytes_eq (emits_write_varu32 hpos value) hpos hfits
  · exact ⟨Packet.write_varu32_eq hlen hfits, Session.write_varu32_eq hlen hfits,
      codec_write_varu32_eq hlen hfits⟩
  · have hsize : buf.length ≤ isizeMax := by
      simp only [isizeMax, usizeMax] at *
      omega
    refine ⟨Packet.read_varu32_varu32 hsize hdrop, Session.read_varu32_varu32 hsize hdrop, ?_⟩
    have hread := bit_reader_read_varu32_cases hlen (Nat.mul_mod_right 8 position)
    rw [Nat.mul_div_cancel_left _ (by omega : 0 < 8), (scan_varu32 hdrop).1] at hread
    simpa only [UInt32.ofNat_toNat] using hread

/-- On any bytes the three readers succeed together, with the same number and the same bytes
consumed, or fail together. -/
theorem readers_agree (hlen : 8 * buf.length ≤ usizeMax) (position : Nat) :
    (∃ v n, Packet.readVaru32 buf position = .ok (v, position + n) ∧
      Session.readVaru32 buf position = .ok (v, position + n) ∧
      BitReader.readVaru32 ⟨buf, 8 * position⟩ = .ok v ⟨buf, 8 * position + 8 * n⟩) ∨
    ((∃ fault, Packet.readVaru32 buf position = .error fault) ∧
      (∃ fault, Session.readVaru32 buf position = .error fault) ∧
      ∃ fault reader, BitReader.readVaru32 ⟨buf, 8 * position⟩ = .error fault reader) := by
  have hsize : buf.length ≤ isizeMax := by
    simp only [isizeMax, usizeMax] at *
    omega
  have hpacket := packet_read_varu32_cases hsize position
  have hsession := session_read_varu32_cases hsize position
  have hreader := bit_reader_read_varu32_cases hlen (Nat.mul_mod_right 8 position)
  rw [Nat.mul_div_cancel_left _ (by omega : 0 < 8)] at hreader
  cases hscan : scan 5 (buf.drop position) with
  | value number length =>
      rw [hscan] at hpacket hsession hreader
      exact .inl ⟨_, _, hpacket, hsession, hreader⟩
  | truncated | overlong =>
      rw [hscan] at hpacket hsession hreader
      exact .inr ⟨hpacket, hsession, hreader⟩

/-- The copies of the varint code agree: on the bytes they write for a number, on how many these
are, and on what they read from any bytes. -/
theorem varu32_copies_agree :
    (∀ value : UInt32, ∃ encoded : List UInt8,
      (∀ buf position, position % 8 = 0 → position + 8 * encoded.length ≤ capacity buf →
        BitWriter.writeVaru32 value ⟨buf, position⟩ = .ok ()
          ⟨buf.take (position / 8) ++ encoded ++ buf.drop (position / 8 + encoded.length),
            position + 8 * encoded.length⟩) ∧
      (∀ out, out.length ≤ isizeMax → encoded.length ≤ out.length →
        Packet.writeVaru32 value out = .ok (encoded.length, encoded ++ out.drop encoded.length) ∧
        Session.writeVaru32 value out = .ok (encoded.length, encoded ++ out.drop encoded.length) ∧
        Codec.writeVaru32 value out = .ok (encoded ++ out.drop encoded.length)) ∧
      Packet.varu32Len value = encoded.length ∧ Codec.varu32Len value = encoded.length ∧
      varu32Size value = encoded.length ∧
      ∀ buf position rest, 8 * buf.length ≤ usizeMax → buf.drop position = encoded ++ rest →
        Packet.readVaru32 buf position = .ok (value, position + encoded.length) ∧
        Session.readVaru32 buf position = .ok (value, position + encoded.length) ∧
        BitReader.readVaru32 ⟨buf, 8 * position⟩
          = .ok value ⟨buf, 8 * position + 8 * encoded.length⟩) ∧
    ∀ buf position, 8 * buf.length ≤ usizeMax →
      (∃ v n, Packet.readVaru32 buf position = .ok (v, position + n) ∧
        Session.readVaru32 buf position = .ok (v, position + n) ∧
        BitReader.readVaru32 ⟨buf, 8 * position⟩ = .ok v ⟨buf, 8 * position + 8 * n⟩) ∨
      ((∃ fault, Packet.readVaru32 buf position = .error fault) ∧
        (∃ fault, Session.readVaru32 buf position = .error fault) ∧
        ∃ fault reader, BitReader.readVaru32 ⟨buf, 8 * position⟩ = .error fault reader) :=
  ⟨writers_agree, fun _ position hlen => readers_agree hlen position⟩

end Sdec
