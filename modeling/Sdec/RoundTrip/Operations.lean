import Sdec.Bitstream.Grows
import Sdec.Bitstream.Operation

/-!
# Sequences of bitstream operations

Whatever list of operations is written, with either writer, is what the reader of the same list gets
back. Read `operations_round_trip` first. A list is written as one layout, which both writers put
into their buffers and which the reader parses, so each operation needs three facts, one for each of
them: `Op.emits`, `Op.grows` and `Op.parses`.
-/

namespace Sdec.Bitstream

open Rust Bits

variable {pos : Nat} {op : Op} {ops : List Op}

namespace Op

/-- The operation as a call of `BitVecWriter`. -/
def writeVec : Op → Call BitError BitVecWriter Unit
  | bit value => BitVecWriter.writeBit value
  | bits value count => BitVecWriter.writeBits value count
  | align => BitVecWriter.alignToByte
  | u8 value => BitVecWriter.writeU8Aligned value
  | u16 value => BitVecWriter.writeU16Aligned value
  | u32 value => BitVecWriter.writeU32Aligned value
  | u64 value => BitVecWriter.writeU64Aligned value
  | varu32 value => BitVecWriter.writeVaru32 value
  | vars32 value => BitVecWriter.writeVars32 value

/-- A number is written with at most 64 bits, into which it fits. -/
def Valid : Op → Prop
  | bits value count => count.toNat ≤ 64 ∧ value.toNat < 2 ^ count.toNat
  | _ => True

/-- The operations that need a byte boundary. -/
def isWord : Op → Bool
  | bit _ | bits _ _ | align => false
  | _ => true

/-- The operation, behind an alignment if it needs one. -/
def prepared (op : Op) : List Op := if op.isWord then [align, op] else [op]

/-- The layout of an operation. -/
def layout : Op → Layout
  | bit value => [.bit value]
  | bits value count => [.number count.toNat value.toNat]
  | align => [.align]
  | u8 value => [.byte value]
  | u16 value => bytes (leBytes 2 value.toNat)
  | u32 value => bytes (leBytes 4 value.toNat)
  | u64 value => bytes (leBytes 8 value.toNat)
  | varu32 value => bytes (Bits.varu32 value)
  | vars32 value => bytes (Bits.vars32 value)

/-! ## Single operations -/

theorem emits (hvalid : op.Valid) (hpos : op.isWord → pos % 8 = 0) :
    Emits pos op.write True op.layout () := by
  cases op with
  | bit value => exact emits_write_bit value
  | bits value count =>
      exact (emits_write_bits value count).congr
        (iff_true_intro ⟨hvalid.1, .inr hvalid.2⟩)
  | align => exact emits_align_to_byte
  | u8 value => exact emits_write_u8_aligned (hpos rfl) value
  | u16 value => exact emits_write_u16_aligned (hpos rfl) value
  | u32 value => exact emits_write_u32_aligned (hpos rfl) value
  | u64 value => exact emits_write_u64_aligned (hpos rfl) value
  | varu32 value => exact emits_write_varu32 (hpos rfl) value
  | vars32 value => exact emits_write_vars32 (hpos rfl) value

theorem grows (hvalid : op.Valid) (hpos : op.isWord → pos % 8 = 0) :
    Grows pos op.writeVec op.layout := by
  cases op with
  | bit value => exact grows_write_bit value
  | bits value count => exact grows_write_bits hvalid.1 hvalid.2
  | align => exact grows_align_to_byte
  | u8 value => exact grows_write_u8_aligned (hpos rfl) value
  | u16 value | u32 value | u64 value => exact grows_write_bytes_aligned (hpos rfl) _
  | varu32 value => exact grows_write_varu32 (hpos rfl) value
  | vars32 value => exact grows_write_varu32 (hpos rfl) _

theorem parses (hvalid : op.Valid) (hpos : op.isWord → pos % 8 = 0) :
    Parses pos op.read op.layout op := by
  cases op with
  | bit value => exact (parses_read_bit value).map
  | bits value count => exact (parses_read_bits hvalid.1 hvalid.2).map
  | align => exact parses_align_to_byte.map
  | u8 value => exact (parses_read_u8_aligned (hpos rfl) value).map
  | u16 value => exact (parses_read_u16_aligned (hpos rfl) value).map
  | u32 value => exact (parses_read_u32_aligned (hpos rfl) value).map
  | u64 value => exact (parses_read_u64_aligned (hpos rfl) value).map
  | varu32 value => exact (parses_read_varu32 (hpos rfl) value).map
  | vars32 value => exact (parses_read_vars32 (hpos rfl) value).map

end Op

/-! ## Lists of operations -/

/-- Writes a list of operations with `BitWriter`. -/
def writeAll (ops : List Op) : Call BitError BitWriter Unit := ops.forM Op.write

/-- Writes a list of operations with `BitVecWriter`. -/
def writeAllVec (ops : List Op) : Call BitError BitVecWriter Unit := ops.forM Op.writeVec

/-- Reads a list of operations, and returns them with the values that were read. -/
def readAll : List Op → Call BitError BitReader (List Op)
  | [] => return []
  | op :: ops => do
      let value ← op.read
      let values ← readAll ops
      return value :: values

/-- The layout of a list of operations. -/
def layoutOf (ops : List Op) : Layout := ops.flatMap Op.layout

/-- From bit `pos` on, every operation is valid, and each that needs a byte boundary is at one. -/
def Placed : Nat → List Op → Prop
  | _, [] => True
  | pos, op :: ops => op.Valid ∧ (op.isWord → pos % 8 = 0) ∧ Placed (stop pos op.layout) ops

theorem Placed.emits (h : Placed pos ops) : Emits pos (writeAll ops) True (layoutOf ops) () := by
  induction ops generalizing pos with
  | nil => exact Emits.pure ()
  | cons op ops ih => exact (Op.emits h.1 h.2.1).seq (ih h.2.2)

theorem Placed.grows (h : Placed pos ops) : Grows pos (writeAllVec ops) (layoutOf ops) := by
  induction ops generalizing pos with
  | nil => exact Grows.pure
  | cons op ops ih => exact (Op.grows h.1 h.2.1).bind (ih h.2.2)

theorem Placed.parses (h : Placed pos ops) : Parses pos (readAll ops) (layoutOf ops) ops := by
  induction ops generalizing pos with
  | nil => exact Parses.pure []
  | cons op ops ih => exact (Op.parses h.1 h.2.1).bind (ih h.2.2).map

/-- Every operation preceded by an alignment if it needs one. -/
def prepare (ops : List Op) : List Op := ops.flatMap Op.prepared

theorem placed_prepare (hvalid : ∀ op ∈ ops, op.Valid) : Placed pos (prepare ops) := by
  induction ops generalizing pos with
  | nil => trivial
  | cons op ops ih =>
      rw [List.forall_mem_cons] at hvalid
      rw [prepare, List.flatMap_cons, Op.prepared]
      by_cases hword : op.isWord
      · rw [if_pos hword]
        have haligned : stop pos [.align] % 8 = 0 := by rw [stop_align, add_padding_mod]
        exact ⟨trivial, fun h => absurd h Bool.false_ne_true, hvalid.1, fun _ => haligned,
          ih hvalid.2⟩
      · rw [if_neg hword]
        exact ⟨hvalid.1, fun h => absurd h hword, ih hvalid.2⟩

/-- Reading from the whole bytes that hold the bits of a layout. -/
theorem Placed.read_finished (h : Placed 0 ops) {buf : List UInt8}
    (hsize : stop 0 (layoutOf ops) + 7 ≤ usizeMax)
    (hbits : (ofBytes buf).take (stop 0 (layoutOf ops)) = render 0 (layoutOf ops)) :
    readAll ops (BitReader.new (buf.take ((stop 0 (layoutOf ops) + 7) / 8)))
      = .ok ops ⟨buf.take ((stop 0 (layoutOf ops) + 7) / 8), stop 0 (layoutOf ops)⟩ := by
  obtain ⟨n, hn⟩ : ∃ n, n = (stop 0 (layoutOf ops) + 7) / 8 := ⟨_, rfl⟩
  rw [← hn]
  refine h.parses (buf.take n) (((ofBytes buf).take (8 * n)).drop (stop 0 (layoutOf ops))) ?_ ?_
  · rw [List.length_take]
    omega
  · have htake : (ofBytes buf).take (stop 0 (layoutOf ops))
        = ((ofBytes buf).take (8 * n)).take (stop 0 (layoutOf ops)) := by
      rw [List.take_take, Nat.min_eq_left (by omega)]
    rw [List.drop_zero, ← take_ofBytes, ← hbits, htake, List.take_append_drop]

/-- A list of operations is written to the same bits by both writers, into any buffer with room for
them, and read back from either. -/
theorem operations_round_trip (ops : List Op) (hvalid : ∀ op ∈ ops, op.Valid)
    (hsize : stop 0 (layoutOf (prepare ops)) + 7 ≤ usizeMax) :
    ∃ vec, writeAllVec (prepare ops) BitVecWriter.new = .ok () vec ∧
      readAll (prepare ops) (BitReader.new vec.finish)
        = .ok (prepare ops) ⟨vec.finish, vec.bitPos⟩ ∧
      ∀ buf, vec.bitPos ≤ capacity buf → ∃ writer,
        writeAll (prepare ops) (BitWriter.new buf) = .ok () writer ∧
        writer.bitPos = vec.bitPos ∧
        (ofBytes writer.buf).take writer.bitPos = (ofBytes vec.buf).take vec.bitPos ∧
        readAll (prepare ops) (BitReader.new (writer.buf.take writer.finish))
          = .ok (prepare ops) ⟨writer.buf.take writer.finish, writer.bitPos⟩ := by
  have hplaced : Placed 0 (prepare ops) := placed_prepare hvalid
  obtain ⟨buf', hrun, hfits, hbits⟩ := hplaced.grows [] (Nat.zero_le _) (by omega)
  rw [List.take_zero, List.nil_append] at hbits
  refine ⟨⟨buf', _⟩, hrun, hplaced.read_finished hsize hbits, fun buf hroom => ?_⟩
  obtain ⟨out, hwrite, hwritten⟩ := (hplaced.emits buf (Nat.zero_le _)).1 trivial hroom
  have hout : (ofBytes out).take (stop 0 (layoutOf (prepare ops)))
      = render 0 (layoutOf (prepare ops)) := by
    rw [hwritten, overwrite, List.take_zero, List.nil_append, stop, Nat.zero_add, List.take_left]
  exact ⟨⟨out, _⟩, hwrite, rfl, hout.trans hbits.symm, hplaced.read_finished hsize hout⟩

/-- A bit, three bits, and two varints behind them. -/
def mixedOps : List Op := [.bit true, .bits 5 3, .varu32 300, .align, .vars32 (-1)]

theorem operations_round_trip_mixed :
    ∃ vec, writeAllVec (prepare mixedOps) BitVecWriter.new = .ok () vec ∧
      readAll (prepare mixedOps) (BitReader.new vec.finish)
        = .ok (prepare mixedOps) ⟨vec.finish, vec.bitPos⟩ := by
  have hvalid : ∀ op ∈ mixedOps, op.Valid := by
    intro op hop
    simp only [mixedOps, List.mem_cons, List.not_mem_nil, or_false] at hop
    rcases hop with rfl | rfl | rfl | rfl | rfl
    · trivial
    · exact ⟨by decide, by decide⟩
    · trivial
    · trivial
    · trivial
  obtain ⟨vec, hwrite, hread, -⟩ := operations_round_trip mixedOps hvalid (by decide +kernel)
  exact ⟨vec, hwrite, hread⟩

end Sdec.Bitstream
