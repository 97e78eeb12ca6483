import Sdec.Bits.Varint
import Sdec.Bitstream.Reader
import Sdec.Bitstream.Writer
import Sdec.Rust.Atomic

/-!
# Bitstream operations

`Op` is one call of a writer or of a reader: what is written, or the kind of what is read. Read
`failed_operation_leaves_no_trace_iff` first: an operation that fails has changed nothing, except a
varint of which some bytes had already been written or read.
-/

namespace Sdec.Bitstream

open Rust Bits

/-- An operation of the bitstream, with its value. -/
inductive Op where
  | bit (value : Bool)
  | bits (value : UInt64) (count : UInt8)
  | align
  | u8 (value : UInt8)
  | u16 (value : UInt16)
  | u32 (value : UInt32)
  | u64 (value : UInt64)
  | varu32 (value : UInt32)
  | vars32 (value : Int32)
  deriving DecidableEq, Repr

namespace Op

/-- The operation as a call of `BitWriter`. -/
def write : Op → Call BitError BitWriter Unit
  | bit value => BitWriter.writeBit value
  | bits value count => BitWriter.writeBits value count
  | align => BitWriter.alignToByte
  | u8 value => BitWriter.writeU8Aligned value
  | u16 value => BitWriter.writeU16Aligned value
  | u32 value => BitWriter.writeU32Aligned value
  | u64 value => BitWriter.writeU64Aligned value
  | varu32 value => BitWriter.writeVaru32 value
  | vars32 value => BitWriter.writeVars32 value

/-- The operation as a call of `BitReader`, which returns the operation with the value it has
read. Of the operation itself only the kind and the number of bits matter. -/
def read : Op → Call BitError BitReader Op
  | bit _ => do
      let value ← BitReader.readBit
      return bit value
  | bits _ count => do
      let value ← BitReader.readBits count
      return bits value count
  | align => do
      BitReader.alignToByte
      return align
  | u8 _ => do
      let value ← BitReader.readU8Aligned
      return u8 value
  | u16 _ => do
      let value ← BitReader.readU16Aligned
      return u16 value
  | u32 _ => do
      let value ← BitReader.readU32Aligned
      return u32 value
  | u64 _ => do
      let value ← BitReader.readU64Aligned
      return u64 value
  | varu32 _ => do
      let value ← BitReader.readVaru32
      return varu32 value
  | vars32 _ => do
      let value ← BitReader.readVars32
      return vars32 value

end Op

/-! ## Writers that check first -/

variable {writer : BitWriter} {reader : BitReader}

theorem reads_only_writer_ensure_bits (n : Nat) : ReadsOnlyAt writer (BitWriter.ensureBits n) :=
  ReadsOnlyAt.check

theorem reads_only_writer_ensure_aligned : ReadsOnlyAt writer BitWriter.ensureAligned :=
  ReadsOnlyAt.check

theorem steady_write_bit_unchecked (value : Bool) :
    SteadyAt writer (BitWriter.writeBitUnchecked value) := by
  unfold BitWriter.writeBitUnchecked
  refine (steady_get _).bind fun _ _ _ => (steady_index _ _ _).bind fun _ _ _ => ?_
  refine (steady_store _ _ _ _).bind fun _ _ _ => (steady_usize_add _ _ _).bind fun _ _ _ => ?_
  exact steady_set _ _

theorem steady_write_bits_loop (n : Nat) (value : UInt64) :
    SteadyAt writer (BitWriter.writeBitsLoop n value) := by
  induction n generalizing writer with
  | zero => exact SteadyAt.pure ()
  | succ n ih => exact (steady_write_bit_unchecked _).bind fun _ _ _ => ih

theorem steady_write_zeros (n : Nat) : SteadyAt writer (BitWriter.writeZeros n) := by
  induction n generalizing writer with
  | zero => exact SteadyAt.pure ()
  | succ n ih => exact (steady_write_bit_unchecked _).bind fun _ _ _ => ih

theorem atomic_write_bit (value : Bool) : AtomicAt writer (BitWriter.writeBit value) :=
  AtomicAt.after (reads_only_writer_ensure_bits 1) fun _ _ =>
    AtomicAt.of_steady (steady_write_bit_unchecked value)

theorem atomic_write_bits (value : UInt64) (bits : UInt8) :
    AtomicAt writer (BitWriter.writeBits value bits) := by
  unfold BitWriter.writeBits
  refine AtomicAt.check fun _ => AtomicAt.ite (fun _ => AtomicAt.pure ()) fun _ => ?_
  refine AtomicAt.check fun _ => AtomicAt.after (reads_only_writer_ensure_bits _) fun _ _ => ?_
  exact AtomicAt.of_steady (steady_write_bits_loop _ _)

theorem atomic_writer_align : AtomicAt writer BitWriter.alignToByte := by
  unfold BitWriter.alignToByte
  refine AtomicAt.get (AtomicAt.ite (fun _ => AtomicAt.pure ()) fun _ => ?_)
  refine AtomicAt.after (reads_only_writer_ensure_bits _) fun _ _ => ?_
  exact AtomicAt.of_steady (steady_write_zeros _)

theorem atomic_write_u8_aligned (value : UInt8) :
    AtomicAt writer (BitWriter.writeU8Aligned value) := by
  unfold BitWriter.writeU8Aligned
  refine AtomicAt.after reads_only_writer_ensure_aligned fun _ _ => ?_
  refine AtomicAt.after (reads_only_writer_ensure_bits 8) fun _ _ => AtomicAt.of_steady ?_
  refine (steady_get _).bind fun _ _ _ => (steady_store _ _ _ _).bind fun _ _ _ => ?_
  exact (steady_usize_add _ _ _).bind fun _ _ _ => steady_set _ _

theorem atomic_write_bytes_aligned (values : List UInt8) :
    AtomicAt writer (BitWriter.writeBytesAligned values) := by
  unfold BitWriter.writeBytesAligned
  refine AtomicAt.after reads_only_writer_ensure_aligned fun _ _ => ?_
  refine AtomicAt.after (reads_only_writer_ensure_bits _) fun _ _ => AtomicAt.of_steady ?_
  refine (steady_get _).bind fun _ _ _ => (steady_copy_from_slice _ _ _ _).bind fun _ _ _ => ?_
  exact (steady_usize_add _ _ _).bind fun _ _ _ => steady_set _ _

/-! ## Readers that check first -/

theorem reads_only_reader_ensure_bits (n : Nat) : ReadsOnlyAt reader (BitReader.ensureBits n) :=
  ReadsOnlyAt.check

theorem reads_only_reader_ensure_aligned : ReadsOnlyAt reader BitReader.ensureAligned :=
  ReadsOnlyAt.check

/-- The end of `read_bit`, which moves the position. -/
theorem steady_read_bit (h : reader.bitsRemaining ≠ 0) : SteadyAt reader BitReader.readBit := by
  unfold BitReader.readBit
  refine SteadyAt.get (SteadyAt.check h ?_)
  refine (steady_index _ _ _).bind fun _ _ _ => (steady_usize_add _ _ _).bind fun _ _ _ => ?_
  exact (steady_set _ _).bind fun _ _ _ => SteadyAt.pure _

/-- `read_bit` uses up one bit. -/
theorem bits_remaining_of_read_bit {value : Bool} {after : BitReader}
    (h : BitReader.readBit reader = .ok value after) :
    after.bitsRemaining + 1 = reader.bitsRemaining := by
  unfold BitReader.readBit at h
  by_cases hzero : reader.bitsRemaining = 0
  · simp only [bind_apply, get_apply, if_pos hzero, fail_apply] at h
    cases h
  · simp only [bind_apply, get_apply, if_neg hzero, index, usizeAdd] at h
    cases hbyte : reader.data[reader.bitPos / 8]? with
    | none =>
        simp only [hbyte] at h
        cases h
    | some byte =>
        by_cases hadd : reader.bitPos + 1 ≤ usizeMax
        · simp only [hbyte, if_pos hadd, pure_apply, set_apply] at h
          cases h
          unfold BitReader.bitsRemaining at hzero ⊢
          dsimp only
          omega
        · simp only [hbyte, if_neg hadd, pure_apply, fault_apply] at h
          cases h

theorem steady_read_bits_loop {n : Nat} (value : UInt64) (h : n ≤ reader.bitsRemaining) :
    SteadyAt reader (BitReader.readBitsLoop n value) := by
  induction n generalizing reader value with
  | zero => exact SteadyAt.pure value
  | succ n ih =>
      refine (steady_read_bit (by omega)).bind fun bit after hbit => ih _ ?_
      have := bits_remaining_of_read_bit hbit
      omega

theorem atomic_read_bit : AtomicAt reader BitReader.readBit := by
  by_cases h : reader.bitsRemaining = 0
  · intro e s' hrun
    simp only [BitReader.readBit, bind_apply, get_apply, if_pos h, fail_apply] at hrun
    cases hrun
    rfl
  · exact AtomicAt.of_steady (steady_read_bit h)

theorem atomic_read_bits (bits : UInt8) : AtomicAt reader (BitReader.readBits bits) := by
  unfold BitReader.readBits
  refine AtomicAt.check fun _ => AtomicAt.ite (fun _ => AtomicAt.pure 0) fun _ => ?_
  refine AtomicAt.get (AtomicAt.check fun h => AtomicAt.of_steady ?_)
  exact steady_read_bits_loop 0 (Nat.le_of_not_lt h)

theorem atomic_reader_align : AtomicAt reader BitReader.alignToByte := by
  unfold BitReader.alignToByte
  refine AtomicAt.get (AtomicAt.ite (fun _ => AtomicAt.pure ()) fun _ => ?_)
  refine AtomicAt.check fun _ => AtomicAt.of_steady ?_
  exact (steady_usize_add _ _ _).bind fun _ _ _ => steady_set _ _

theorem atomic_read_u8_aligned : AtomicAt reader BitReader.readU8Aligned := by
  unfold BitReader.readU8Aligned
  refine AtomicAt.after reads_only_reader_ensure_aligned fun _ _ => ?_
  refine AtomicAt.after (reads_only_reader_ensure_bits 8) fun _ _ => AtomicAt.of_steady ?_
  refine (steady_get _).bind fun _ _ _ => (steady_index _ _ _).bind fun _ _ _ => ?_
  exact (steady_usize_add _ _ _).bind fun _ _ _ => (steady_set _ _).bind fun _ _ _ =>
    SteadyAt.pure _

theorem atomic_read_aligned_bytes (n : Nat) : AtomicAt reader (BitReader.readAlignedBytes n) := by
  unfold BitReader.readAlignedBytes
  refine AtomicAt.after reads_only_reader_ensure_aligned fun _ _ => ?_
  refine AtomicAt.after (reads_only_reader_ensure_bits _) fun _ _ => AtomicAt.of_steady ?_
  refine (steady_get _).bind fun _ _ _ => (steady_slice _ _ _ _).bind fun _ _ _ => ?_
  exact (steady_usize_add _ _ _).bind fun _ _ _ => (steady_set _ _).bind fun _ _ _ =>
    SteadyAt.pure _

/-! ## Varints -/

theorem write_u8_aligned_cases (hpos : writer.bitPos % 8 = 0) (value : UInt8) :
    (8 ≤ writer.bitsRemaining → ∃ buf, buf.length = writer.buf.length ∧
      BitWriter.writeU8Aligned value writer = .ok () ⟨buf, writer.bitPos + 8⟩) ∧
    (¬ 8 ≤ writer.bitsRemaining → ∃ error,
      BitWriter.writeU8Aligned value writer = .error (.err error) writer) := by
  have haligned : ¬ writer.bitPos % 8 ≠ 0 := not_not.mpr hpos
  constructor
  · intro hfits
    have hroom : ¬ 8 > writer.bitsRemaining := Nat.not_lt.mpr hfits
    rw [BitWriter.bitsRemaining, saturatingMul] at hfits
    have hlt : writer.bitPos / 8 < writer.buf.length := by omega
    have hadd : writer.bitPos + 8 ≤ usizeMax := by omega
    refine ⟨writer.buf.set (writer.bitPos / 8) value, List.length_set, ?_⟩
    simp only [BitWriter.writeU8Aligned, BitWriter.ensureAligned, BitWriter.ensureBits, bind_apply,
      get_apply, if_neg haligned, if_neg hroom, pure_apply, store_of_lt hlt, usize_add_of_le hadd,
      set_apply]
  · intro hfull
    have hfull : 8 > writer.bitsRemaining := Nat.lt_of_not_le hfull
    refine ⟨.writeOverflow 8 writer.bitsRemaining, ?_⟩
    simp only [BitWriter.writeU8Aligned, BitWriter.ensureAligned, BitWriter.ensureBits, bind_apply,
      get_apply, if_neg haligned, if_pos hfull, pure_apply, fail_apply]

/-- The loop of `write_varu32` fills the whole bytes that are left when the varint does not fit. -/
theorem write_varu32_loop_cases (fuel : Nat) (value : UInt32) (hpos : writer.bitPos % 8 = 0) :
    (8 * (leb128 fuel value.toNat).length ≤ writer.bitsRemaining → ∃ after,
      BitWriter.writeVaru32Loop fuel value writer = .ok () after) ∧
    (writer.bitsRemaining < 8 * (leb128 fuel value.toNat).length → ∃ error after,
      BitWriter.writeVaru32Loop fuel value writer = .error (.err error) after
        ∧ after.bitPos = writer.bitPos + 8 * (writer.bitsRemaining / 8)
        ∧ (writer.bitsRemaining < 8 → after = writer)) := by
  induction fuel generalizing writer value with
  | zero =>
      rw [leb128]
      exact ⟨fun _ => ⟨writer, rfl⟩, fun h => absurd h (Nat.not_lt_zero _)⟩
  | succ fuel ih =>
      have hpositive := length_leb128_pos fuel value.toNat
      obtain ⟨byte, hbyte⟩ : ∃ byte, byte = if value.toNat < 128 then UInt8.ofNat value.toNat
          else UInt8.ofNat (value.toNat % 128 + 128) := ⟨_, rfl⟩
      rw [BitWriter.writeVaru32Loop]
      simp only [varint_byte_eq, ← hbyte]
      by_cases hroom : 8 ≤ writer.bitsRemaining
      · obtain ⟨buf, hlength, hrun⟩ := (write_u8_aligned_cases hpos byte).1 hroom
        have hnext : (BitWriter.mk buf (writer.bitPos + 8)).bitsRemaining
            = writer.bitsRemaining - 8 := by
          unfold BitWriter.bitsRemaining
          dsimp only
          rw [hlength]
          omega
        simp only [bind_apply, hrun]
        by_cases hlast : value.toNat < 128
        · rw [if_pos ((shiftRight_seven_eq_zero value).mpr hlast), leb128_of_lt hlast]
          exact ⟨fun _ => ⟨_, rfl⟩, fun h => absurd h (Nat.not_lt.mpr hroom)⟩
        · have hrest := @ih ⟨buf, writer.bitPos + 8⟩ (value >>> 7) (by dsimp only; omega)
          rw [hnext, shiftRight_seven_toNat] at hrest
          rw [if_neg (mt (shiftRight_seven_eq_zero value).mp hlast),
            leb128_of_le (Nat.le_of_not_lt hlast), List.length_cons]
          refine ⟨fun h => hrest.1 (by omega), fun h => ?_⟩
          obtain ⟨error, after, hfail, hafter, -⟩ := hrest.2 (by omega)
          refine ⟨error, after, hfail, ?_, fun hfew => absurd hroom (Nat.not_le.mpr hfew)⟩
          clear hrest
          rw [hafter]
          dsimp only
          omega
      · obtain ⟨error, hrun⟩ := (write_u8_aligned_cases hpos byte).2 hroom
        simp only [bind_apply, hrun]
        exact ⟨fun h => absurd h (by omega), fun _ => ⟨error, writer, rfl, by omega, fun _ => rfl⟩⟩

/-- The varint does not fit, but its first byte does. -/
def WriterCutsVarint (writer : BitWriter) (length : Nat) : Prop :=
  writer.bitPos % 8 = 0 ∧ 8 ≤ writer.bitsRemaining ∧ writer.bitsRemaining < 8 * length

theorem write_varu32_atomic_iff (value : UInt32) :
    AtomicAt writer (BitWriter.writeVaru32 value)
      ↔ ¬ WriterCutsVarint writer (Bits.varu32 value).length := by
  by_cases hpos : writer.bitPos % 8 = 0
  · have haligned : ¬ writer.bitPos % 8 ≠ 0 := not_not.mpr hpos
    have hloop := write_varu32_loop_cases 5 value hpos
    have hrun : BitWriter.writeVaru32 value writer = BitWriter.writeVaru32Loop 5 value writer := by
      simp only [BitWriter.writeVaru32, BitWriter.ensureAligned, bind_apply, get_apply,
        if_neg haligned, pure_apply]
    unfold AtomicAt
    rw [hrun]
    by_cases hfits : 8 * (leb128 5 value.toNat).length ≤ writer.bitsRemaining
    · obtain ⟨after, hok⟩ := hloop.1 hfits
      refine ⟨fun _ hcuts => absurd hcuts.2.2 (Nat.not_lt.mpr hfits), fun _ e s' h => ?_⟩
      rw [hok] at h
      cases h
    · have hlong := Nat.lt_of_not_le hfits
      obtain ⟨error, after, hfail, hafter, hsame⟩ := hloop.2 hlong
      rw [hfail]
      constructor
      · intro hatomic hcuts
        have := hatomic error after rfl
        rw [this] at hafter
        have := hcuts.2.1
        omega
      · intro hcuts e s' h
        cases h
        exact hsame (Nat.lt_of_not_le fun hroom => hcuts ⟨hpos, hroom, hlong⟩)
  · refine ⟨fun _ hcuts => hpos hcuts.1, fun _ e s' h => ?_⟩
    simp only [BitWriter.writeVaru32, BitWriter.ensureAligned, bind_apply, get_apply, if_pos hpos,
      fail_apply] at h
    cases h
    rfl

/-- The whole bytes that a reader has left. -/
def BitReader.bytesLeft (reader : BitReader) : List UInt8 :=
  (reader.data.drop (reader.bitPos / 8)).take (reader.bitsRemaining / 8)

theorem read_u8_aligned_cases (hpos : reader.bitPos % 8 = 0) :
    (∃ byte, reader.bytesLeft
        = byte :: (BitReader.mk reader.data (reader.bitPos + 8)).bytesLeft ∧
      BitReader.readU8Aligned reader = .ok byte ⟨reader.data, reader.bitPos + 8⟩) ∨
    (reader.bytesLeft = [] ∧
      ∃ error, BitReader.readU8Aligned reader = .error (.err error) reader) := by
  have haligned : ¬ reader.bitPos % 8 ≠ 0 := not_not.mpr hpos
  by_cases hfits : 8 ≤ reader.bitsRemaining
  · have hroom : ¬ 8 > reader.bitsRemaining := Nat.not_lt.mpr hfits
    have hnext : reader.bitsRemaining / 8
        = (BitReader.mk reader.data (reader.bitPos + 8)).bitsRemaining / 8 + 1 := by
      unfold BitReader.bitsRemaining at hfits ⊢
      dsimp only
      omega
    rw [BitReader.bitsRemaining, saturatingMul] at hfits
    have hlt : reader.bitPos / 8 < reader.data.length := by omega
    have hadd : reader.bitPos + 8 ≤ usizeMax := by omega
    have hbyte := List.getElem?_eq_getElem hlt
    refine .inl ⟨reader.data[reader.bitPos / 8], ?_, ?_⟩
    · rw [BitReader.bytesLeft, BitReader.bytesLeft, List.drop_eq_getElem_cons hlt, hnext,
        List.take_succ_cons, show (reader.bitPos + 8) / 8 = reader.bitPos / 8 + 1 by omega]
    · simp only [BitReader.readU8Aligned, BitReader.ensureAligned, BitReader.ensureBits, bind_apply,
        get_apply, if_neg haligned, if_neg hroom, pure_apply, index_of_some hbyte,
        usize_add_of_le hadd, set_apply]
  · have hfull : 8 > reader.bitsRemaining := Nat.lt_of_not_le hfits
    refine .inr ⟨?_, .unexpectedEof 8 reader.bitsRemaining, ?_⟩
    · rw [BitReader.bytesLeft, Nat.div_eq_of_lt hfull, List.take_zero]
    · simp only [BitReader.readU8Aligned, BitReader.ensureAligned, BitReader.ensureBits, bind_apply,
        get_apply, if_neg haligned, if_pos hfull, pure_apply, fail_apply]

/-- The loop of `read_varu32` succeeds at a last byte, and otherwise fails behind all the bytes it
may read. -/
theorem read_varu32_loop_cases (shifts : List UInt32) (result : UInt32)
    (hpos : reader.bitPos % 8 = 0) :
    ((∀ byte ∈ reader.bytesLeft.take shifts.length, 128 ≤ byte.toNat) → ∃ error,
      BitReader.readVaru32Loop shifts result reader = .error (.err error)
        ⟨reader.data, reader.bitPos + 8 * (reader.bytesLeft.take shifts.length).length⟩) ∧
    ((∃ byte ∈ reader.bytesLeft.take shifts.length, byte.toNat < 128) → ∃ value after,
      BitReader.readVaru32Loop shifts result reader = .ok value after) := by
  induction shifts generalizing reader result with
  | nil =>
      rw [List.length_nil, List.take_zero]
      refine ⟨fun _ => ⟨.invalidVarint, rfl⟩, fun h => ?_⟩
      obtain ⟨byte, hbyte, -⟩ := h
      cases hbyte
  | cons shift shifts ih =>
      rw [BitReader.readVaru32Loop]
      rcases read_u8_aligned_cases hpos with ⟨byte, hleft, hrun⟩ | ⟨hleft, error, hrun⟩
      · have hrest := @ih ⟨reader.data, reader.bitPos + 8⟩
          (result ||| ((byte &&& 0x7F).toUInt32 <<< shift)) (by dsimp only; omega)
        simp only [bind_apply, hrun]
        rw [hleft, List.length_cons, List.take_succ_cons, List.forall_mem_cons,
          List.exists_mem_cons_iff]
        by_cases hlast : byte.toNat < 128
        · rw [if_pos ((high_bit_eq_zero byte).mpr hlast)]
          exact ⟨fun h => absurd h.1 (Nat.not_le.mpr hlast), fun _ => ⟨_, _, rfl⟩⟩
        · rw [if_neg (mt (high_bit_eq_zero byte).mp hlast)]
          refine ⟨fun h => ?_, fun h => hrest.2 (h.resolve_left hlast)⟩
          obtain ⟨error, hfail⟩ := hrest.1 h.2
          refine ⟨error, hfail.trans ?_⟩
          rw [List.length_cons, Nat.mul_add, Nat.add_comm (8 * _), ← Nat.add_assoc]
      · simp only [bind_apply, hrun]
        rw [hleft, List.take_nil]
        refine ⟨fun _ => ⟨error, rfl⟩, fun h => ?_⟩
        obtain ⟨byte, hbyte, -⟩ := h
        cases hbyte

/-- Bytes are left, but none of the first five of them ends a varint. -/
def ReaderCutsVarint (reader : BitReader) : Prop :=
  reader.bitPos % 8 = 0 ∧ reader.bytesLeft ≠ []
    ∧ ∀ byte ∈ reader.bytesLeft.take 5, 128 ≤ byte.toNat

theorem read_varu32_atomic_iff :
    AtomicAt reader BitReader.readVaru32 ↔ ¬ ReaderCutsVarint reader := by
  by_cases hpos : reader.bitPos % 8 = 0
  · have haligned : ¬ reader.bitPos % 8 ≠ 0 := not_not.mpr hpos
    have hloop := read_varu32_loop_cases [0, 7, 14, 21, 28] 0 hpos
    have hrun : BitReader.readVaru32 reader
        = BitReader.readVaru32Loop [0, 7, 14, 21, 28] 0 reader := by
      simp only [BitReader.readVaru32, BitReader.ensureAligned, bind_apply, get_apply,
        if_neg haligned, pure_apply]
    unfold AtomicAt
    rw [hrun]
    rw [show ([0, 7, 14, 21, 28] : List UInt32).length = 5 from rfl] at hloop
    by_cases hmore : ∀ byte ∈ reader.bytesLeft.take 5, 128 ≤ byte.toNat
    · obtain ⟨error, hfail⟩ := hloop.1 hmore
      rw [hfail]
      constructor
      · intro hatomic hcuts
        have hsame := congrArg BitReader.bitPos (hatomic error _ rfl)
        have hpositive := List.length_pos_iff.mpr hcuts.2.1
        rw [List.length_take] at hsame
        dsimp only at hsame
        omega
      · intro hcuts e s' h
        cases h
        have hnil : reader.bytesLeft = [] := by
          by_contra hleft
          exact hcuts ⟨hpos, hleft, hmore⟩
        rw [hnil]
        rfl
    · push Not at hmore
      obtain ⟨value, after, hok⟩ := hloop.2 hmore
      refine ⟨fun _ hcuts => ?_, fun _ e s' h => ?_⟩
      · obtain ⟨byte, hbyte, hlast⟩ := hmore
        exact absurd (hcuts.2.2 byte hbyte) (Nat.not_le.mpr hlast)
      · rw [hok] at h
        cases h
  · refine ⟨fun _ hcuts => hpos hcuts.1, fun _ e s' h => ?_⟩
    simp only [BitReader.readVaru32, BitReader.ensureAligned, bind_apply, get_apply, if_pos hpos,
      fail_apply] at h
    cases h
    rfl

/-- A pure step after a call does not change whether it is atomic. -/
theorem atomic_bind_pure_iff {ε σ α β : Type} {s : σ} {x : Call ε σ α} {f : α → β} :
    AtomicAt s (x >>= fun a => Pure.pure (f a)) ↔ AtomicAt s x := by
  refine ⟨fun h e s' hrun => h e s' ?_, AtomicAt.bind_pure⟩
  rw [bind_apply, hrun]

/-! ## All operations -/

/-- The operation is a varint that the writer begins and cannot finish. -/
def Op.CutsWrite (writer : BitWriter) : Op → Prop
  | varu32 value => WriterCutsVarint writer (Bits.varu32 value).length
  | vars32 value => WriterCutsVarint writer (Bits.vars32 value).length
  | _ => False

/-- The operation is a varint that the reader begins and cannot finish. -/
def Op.CutsRead (reader : BitReader) : Op → Prop
  | varu32 _ | vars32 _ => ReaderCutsVarint reader
  | _ => False

/-- A writing operation that returns an `Err` leaves the writer as it was, exactly when it is not a
varint that is cut off. -/
theorem failed_write_leaves_no_trace_iff (op : Op) (writer : BitWriter) :
    (∀ error after, op.write writer = .error (.err error) after → after = writer)
      ↔ ¬ op.CutsWrite writer := by
  show AtomicAt writer op.write ↔ _
  cases op with
  | bit value => exact iff_of_true (atomic_write_bit value) not_false
  | bits value count => exact iff_of_true (atomic_write_bits value count) not_false
  | align => exact iff_of_true atomic_writer_align not_false
  | u8 value => exact iff_of_true (atomic_write_u8_aligned value) not_false
  | u16 value | u32 value | u64 value =>
      exact iff_of_true (atomic_write_bytes_aligned _) not_false
  | varu32 value => exact write_varu32_atomic_iff value
  | vars32 value => exact write_varu32_atomic_iff _

/-- The same for the operations of the reader. -/
theorem failed_read_leaves_no_trace_iff (op : Op) (reader : BitReader) :
    (∀ error after, op.read reader = .error (.err error) after → after = reader)
      ↔ ¬ op.CutsRead reader := by
  show AtomicAt reader op.read ↔ _
  cases op with
  | bit value => exact iff_of_true atomic_read_bit.bind_pure not_false
  | bits value count => exact iff_of_true (atomic_read_bits count).bind_pure not_false
  | align => exact iff_of_true atomic_reader_align.bind_pure not_false
  | u8 value => exact iff_of_true atomic_read_u8_aligned.bind_pure not_false
  | u16 value | u32 value | u64 value =>
      exact iff_of_true (atomic_read_aligned_bytes _).bind_pure.bind_pure not_false
  | varu32 value => exact atomic_bind_pure_iff.trans read_varu32_atomic_iff
  | vars32 value =>
      exact atomic_bind_pure_iff.trans (atomic_bind_pure_iff.trans read_varu32_atomic_iff)

/-- A failed operation leaves no trace, in a writer or in a reader, exactly when it is not a varint
that was cut off. -/
theorem failed_operation_leaves_no_trace_iff (op : Op) (writer : BitWriter) (reader : BitReader) :
    ((∀ error after, op.write writer = .error (.err error) after → after = writer)
      ↔ ¬ op.CutsWrite writer) ∧
    ((∀ error after, op.read reader = .error (.err error) after → after = reader)
      ↔ ¬ op.CutsRead reader) :=
  ⟨failed_write_leaves_no_trace_iff op writer, failed_read_leaves_no_trace_iff op reader⟩

/-- The first byte of 300 is written before the buffer ends, and read before the slice ends. -/
theorem failed_operation_leaves_trace :
    (Op.varu32 300).write ⟨[0], 0⟩ = .error (.err (.writeOverflow 8 0)) ⟨[0xAC], 8⟩ ∧
    (Op.varu32 0).read ⟨[0xAC], 0⟩ = .error (.err (.unexpectedEof 8 0)) ⟨[0xAC], 8⟩ :=
  ⟨by decide +kernel, by decide +kernel⟩

end Sdec.Bitstream
