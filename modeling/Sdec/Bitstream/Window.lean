import Sdec.Bitstream.Parses
import Sdec.Rust.Ensures

/-!
# Windows of bytes

What a reader finds on a window of some bytes it finds on all of the bytes, moved by the bytes
before the window, provided that it ends at a bit that it can count to. So what `Parses` says about
slices whose bits can all be counted holds at every position of every slice.
-/

namespace Sdec.Bitstream

open Rust Bits

variable {ε ε' α β : Type}

/-- Where the call returns on a window of some bytes, it moves forward, and it returns the same on
all of the bytes unless they have more bits before its end than a reader can count. -/
def Windowed (read : Call ε BitReader α) : Prop :=
  ∀ before window after pos a reader, read ⟨window, pos⟩ = .ok a reader →
    (pos ≤ reader.bitPos ∧ reader.data = window) ∧
    (8 * before.length + reader.bitPos
        ≤ saturatingMul (before ++ window ++ after).length 8 →
      read ⟨before ++ window ++ after, 8 * before.length + pos⟩
        = .ok a ⟨before ++ window ++ after, 8 * before.length + reader.bitPos⟩)

/-! ## Composition -/

theorem Windowed.pure (a : α) : Windowed (pure a : Call ε BitReader α) := by
  intro before window after pos b reader h
  cases h
  exact ⟨⟨Nat.le_refl _, rfl⟩, fun _ => rfl⟩

theorem Windowed.fail (error : ε) : Windowed (fail error : Call ε BitReader α) := by
  intro before window after pos b reader h
  cases h

theorem Windowed.bind {read : Call ε BitReader α} {next : α → Call ε BitReader β}
    (h : Windowed read) (hnext : ∀ a, Windowed (next a)) : Windowed (read >>= next) := by
  intro before window after pos b reader hrun
  rw [bind_apply] at hrun
  cases hread : read ⟨window, pos⟩ with
  | error e r =>
      rw [hread] at hrun
      cases hrun
  | ok a middle =>
      rw [hread] at hrun
      obtain ⟨⟨hle, hdata⟩, hmoved⟩ := h before window after pos a middle hread
      obtain ⟨data, bitPos⟩ := middle
      subst hdata
      obtain ⟨⟨hle', hdata'⟩, hmoved'⟩ := hnext a before data after bitPos b reader hrun
      refine ⟨⟨Nat.le_trans hle hle', hdata'⟩, fun hroom => ?_⟩
      rw [bind_apply, hmoved (Nat.le_trans (Nat.add_le_add_left hle' _) hroom)]
      exact hmoved' hroom

theorem Windowed.ite {c : Prop} [Decidable c] {x y : Call ε BitReader α} (hx : Windowed x)
    (hy : Windowed y) : Windowed (if c then x else y) := by
  by_cases hc : c
  · rwa [if_pos hc]
  · rwa [if_neg hc]

/-- A check: `if c { return Err(..) }`. -/
theorem Windowed.check {c : Prop} [Decidable c] {error : ε} {next : Unit → Call ε BitReader α}
    (h : Windowed (next ())) : Windowed (if c then Rust.fail error >>= next else next ()) :=
  Windowed.ite ((Windowed.fail error).bind fun _ => h) h

/-- A call that does not read. -/
theorem Windowed.lift {x : Outcome ε α} : Windowed (liftM x : Call ε BitReader α) := by
  cases x with
  | ok a => exact Windowed.pure a
  | error e =>
      intro before window after pos b reader h
      cases h

theorem Windowed.map_err {f : ε → ε'} {read : Call ε BitReader α} (h : Windowed read) :
    Windowed (read.mapErr f) := by
  intro before window after pos a reader hrun
  rw [Call.mapErr] at hrun
  cases hread : read ⟨window, pos⟩ with
  | error e r =>
      rw [hread] at hrun
      cases hrun
  | ok b middle =>
      rw [hread] at hrun
      cases hrun
      obtain ⟨hstay, hmoved⟩ := h before window after pos a reader hread
      refine ⟨hstay, fun hroom => ?_⟩
      rw [Call.mapErr, hmoved hroom]

/-! ## The methods -/

theorem getElem?_window {before window after : List UInt8} {pos : Nat} {byte : UInt8}
    (h : window[pos / 8]? = some byte) :
    (before ++ window ++ after)[(8 * before.length + pos) / 8]? = some byte := by
  have hlt := (List.getElem?_eq_some_iff.mp h).1
  have hidx : (8 * before.length + pos) / 8 = before.length + pos / 8 := by omega
  rw [hidx, List.append_assoc, List.getElem?_append_right (Nat.le_add_right _ _),
    Nat.add_sub_cancel_left, List.getElem?_append_left hlt, h]

/-- What `read_bit` returns where it does not fail. -/
theorem read_bit_eq_ok {data : List UInt8} {pos : Nat} {bit : Bool} {reader : BitReader} :
    BitReader.readBit ⟨data, pos⟩ = .ok bit reader ↔
      pos + 1 ≤ saturatingMul data.length 8 ∧ reader = ⟨data, pos + 1⟩ ∧ ∃ byte,
        data[pos / 8]? = some byte ∧ ((byte >>> UInt8.ofNat (7 - pos % 8)) &&& 1 == 1) = bit := by
  have hrem : (BitReader.mk data pos).bitsRemaining = saturatingMul data.length 8 - pos := rfl
  have hcap : saturatingMul data.length 8 ≤ usizeMax := Nat.min_le_right _ _
  have hbytes : saturatingMul data.length 8 ≤ data.length * 8 := Nat.min_le_left _ _
  by_cases hfits : pos + 1 ≤ saturatingMul data.length 8
  · obtain ⟨byte, hbyte⟩ : ∃ byte, data[pos / 8]? = some byte :=
      ⟨_, List.getElem?_eq_getElem (by omega)⟩
    have hsome : ¬ saturatingMul data.length 8 - pos = 0 := by omega
    simp only [BitReader.readBit, bind_apply, get_apply, hrem, if_neg hsome, index_of_some hbyte,
      pure_apply, usize_add_of_le (Nat.le_trans hfits hcap), set_apply, hbyte]
    constructor
    · intro h
      cases h
      exact ⟨hfits, rfl, byte, rfl, rfl⟩
    · intro h
      obtain ⟨_, rfl, _, hsame, rfl⟩ := h
      cases hsame
      rfl
  · have hnone : saturatingMul data.length 8 - pos = 0 := by omega
    simp only [BitReader.readBit, bind_apply, get_apply, hrem, if_pos hnone, fail_apply]
    exact ⟨fun h => (by cases h), fun h => absurd h.1 hfits⟩

theorem windowed_read_bit : Windowed BitReader.readBit := by
  intro before window after pos bit reader h
  obtain ⟨_, rfl, byte, hbyte, hbit⟩ := read_bit_eq_ok.mp h
  refine ⟨⟨Nat.le_succ pos, rfl⟩, fun hroom => ?_⟩
  have hmod : (8 * before.length + pos) % 8 = pos % 8 := by omega
  exact read_bit_eq_ok.mpr ⟨hroom, rfl, byte, getElem?_window hbyte, by rwa [hmod]⟩

theorem windowed_read_bits_loop (n : Nat) (acc : UInt64) :
    Windowed (BitReader.readBitsLoop n acc) := by
  induction n generalizing acc with
  | zero => exact Windowed.pure acc
  | succ n ih => exact windowed_read_bit.bind fun bit => ih _

/-- The loop of `read_bits` moves over as many bits as it reads. -/
theorem read_bits_loop_moves {n : Nat} {acc value : UInt64} {data : List UInt8} {pos : Nat}
    {reader : BitReader} (h : BitReader.readBitsLoop n acc ⟨data, pos⟩ = .ok value reader) :
    reader.bitPos = pos + n := by
  induction n generalizing acc pos with
  | zero =>
      cases h
      rfl
  | succ n ih =>
      rw [BitReader.readBitsLoop, bind_apply] at h
      cases hbit : BitReader.readBit ⟨data, pos⟩ with
      | error e r =>
          rw [hbit] at h
          cases h
      | ok bit middle =>
          rw [hbit] at h
          obtain ⟨_, rfl, _⟩ := read_bit_eq_ok.mp hbit
          rw [ih h]
          omega

/-- A check that enough bits remain, before a call that moves over them. -/
theorem Windowed.ensure {n : Nat} {error : Nat → ε} {read : Call ε BitReader α} (h : Windowed read)
    (hmoves : ∀ data pos a reader, read ⟨data, pos⟩ = .ok a reader → pos + n ≤ reader.bitPos) :
    Windowed (do
      let reader ← get
      if n > reader.bitsRemaining then
        Rust.fail (error reader.bitsRemaining)
      read) := by
  intro before window after pos a reader hrun
  rw [bind_apply, get_apply] at hrun
  dsimp only at hrun
  by_cases hshort : n > (BitReader.mk window pos).bitsRemaining
  · rw [if_pos hshort] at hrun
    cases hrun
  · rw [if_neg hshort] at hrun
    obtain ⟨hstay, hmoved⟩ := h before window after pos a reader hrun
    refine ⟨hstay, fun hroom => ?_⟩
    have hle := hmoves window pos a reader hrun
    have henough : ¬ n > (BitReader.mk (before ++ window ++ after)
        (8 * before.length + pos)).bitsRemaining := by
      rw [BitReader.bitsRemaining]
      dsimp only
      omega
    rw [bind_apply, get_apply]
    dsimp only
    rw [if_neg henough]
    exact hmoved hroom

theorem windowed_read_bits (bits : UInt8) : Windowed (BitReader.readBits bits) := by
  unfold BitReader.readBits
  refine Windowed.check (Windowed.ite (Windowed.pure 0) ?_)
  exact Windowed.ensure (windowed_read_bits_loop _ _) fun data pos a reader h =>
    Nat.le_of_eq (read_bits_loop_moves h).symm

/-- Where `align_to_byte` stops if it does not fail. -/
theorem align_to_byte_eq_ok {data : List UInt8} {pos : Nat} {u : Unit} {reader : BitReader} :
    BitReader.alignToByte ⟨data, pos⟩ = .ok u reader ↔
      (pos % 8 = 0 ∨ pos + padding pos ≤ saturatingMul data.length 8)
        ∧ reader = ⟨data, pos + padding pos⟩ := by
  have hrem : (BitReader.mk data pos).bitsRemaining = saturatingMul data.length 8 - pos := rfl
  have hcap : saturatingMul data.length 8 ≤ usizeMax := Nat.min_le_right _ _
  by_cases haligned : pos % 8 = 0
  · simp only [BitReader.alignToByte, bind_apply, get_apply, if_pos haligned, pure_apply,
      padding_of_aligned haligned, Nat.add_zero]
    constructor
    · intro h
      cases h
      exact ⟨.inl haligned, rfl⟩
    · intro h
      rw [h.2]
  · have hpad : padding pos = 8 - pos % 8 := by
      rw [padding]
      omega
    by_cases hfits : pos + padding pos ≤ saturatingMul data.length 8
    · have henough : ¬ 8 - pos % 8 > saturatingMul data.length 8 - pos := by omega
      have hadd : pos + (8 - pos % 8) ≤ usizeMax := by omega
      simp only [BitReader.alignToByte, bind_apply, get_apply, if_neg haligned, hrem,
        if_neg henough, usize_add_of_le hadd, pure_apply, set_apply, hpad]
      constructor
      · intro h
        cases h
        exact ⟨.inr (hpad ▸ hfits), rfl⟩
      · intro h
        rw [h.2]
    · have hshort : 8 - pos % 8 > saturatingMul data.length 8 - pos := by
        have := padding_lt pos
        omega
      simp only [BitReader.alignToByte, bind_apply, get_apply, if_neg haligned, hrem,
        if_pos hshort, fail_apply]
      exact ⟨fun h => (by cases h), fun h => absurd (h.1.resolve_left haligned) hfits⟩

theorem windowed_align_to_byte : Windowed BitReader.alignToByte := by
  intro before window after pos u reader h
  obtain ⟨hfits, rfl⟩ := align_to_byte_eq_ok.mp h
  have hpad : padding (8 * before.length + pos) = padding pos := by
    rw [padding, padding]
    omega
  refine ⟨⟨Nat.le_add_right _ _, rfl⟩, fun hroom => align_to_byte_eq_ok.mpr ⟨.inr ?_, ?_⟩⟩
  · rw [hpad, Nat.add_assoc]
    exact hroom
  · rw [hpad, Nat.add_assoc]

/-- What `read_u8_aligned` returns where it does not fail. -/
theorem read_u8_aligned_eq_ok {data : List UInt8} {pos : Nat} {byte : UInt8} {reader : BitReader} :
    BitReader.readU8Aligned ⟨data, pos⟩ = .ok byte reader ↔
      pos % 8 = 0 ∧ pos + 8 ≤ saturatingMul data.length 8 ∧ reader = ⟨data, pos + 8⟩
        ∧ data[pos / 8]? = some byte := by
  have hrem : (BitReader.mk data pos).bitsRemaining = saturatingMul data.length 8 - pos := rfl
  have hcap : saturatingMul data.length 8 ≤ usizeMax := Nat.min_le_right _ _
  have hbytes : saturatingMul data.length 8 ≤ data.length * 8 := Nat.min_le_left _ _
  by_cases haligned : pos % 8 = 0
  · by_cases hfits : pos + 8 ≤ saturatingMul data.length 8
    · obtain ⟨found, hfound⟩ : ∃ found, data[pos / 8]? = some found :=
        ⟨_, List.getElem?_eq_getElem (by omega)⟩
      have henough : ¬ 8 > saturatingMul data.length 8 - pos := by omega
      simp only [BitReader.readU8Aligned, BitReader.ensureAligned, BitReader.ensureBits, bind_apply,
        get_apply, if_neg (not_not.mpr haligned), hrem, if_neg henough, pure_apply,
        index_of_some hfound, usize_add_of_le (Nat.le_trans hfits hcap), set_apply, hfound]
      constructor
      · intro h
        cases h
        exact ⟨haligned, hfits, rfl, rfl⟩
      · intro h
        obtain ⟨_, _, rfl, hsame⟩ := h
        cases hsame
        rfl
    · have hshort : 8 > saturatingMul data.length 8 - pos := by omega
      simp only [BitReader.readU8Aligned, BitReader.ensureAligned, BitReader.ensureBits, bind_apply,
        get_apply, if_neg (not_not.mpr haligned), hrem, if_pos hshort, pure_apply, fail_apply]
      exact ⟨fun h => (by cases h), fun h => absurd h.2.1 hfits⟩
  · simp only [BitReader.readU8Aligned, BitReader.ensureAligned, bind_apply, get_apply,
      if_pos haligned, fail_apply]
    exact ⟨fun h => (by cases h), fun h => absurd h.1 haligned⟩

theorem windowed_read_u8_aligned : Windowed BitReader.readU8Aligned := by
  intro before window after pos byte reader h
  obtain ⟨haligned, _, rfl, hbyte⟩ := read_u8_aligned_eq_ok.mp h
  refine ⟨⟨Nat.le_add_right _ _, rfl⟩, fun hroom => read_u8_aligned_eq_ok.mpr ?_⟩
  exact ⟨by omega, hroom, rfl, getElem?_window hbyte⟩

theorem windowed_read_varu32 : Windowed BitReader.readVaru32 := by
  have hloop (shifts : List UInt32) (result : UInt32) :
      Windowed (BitReader.readVaru32Loop shifts result) := by
    induction shifts generalizing result with
    | nil => exact Windowed.fail _
    | cons shift shifts ih =>
        unfold BitReader.readVaru32Loop
        exact windowed_read_u8_aligned.bind fun byte => Windowed.ite (Windowed.pure _) (ih _)
  intro before window after pos value reader h
  by_cases haligned : pos % 8 = 0
  · have hmoved : (8 * before.length + pos) % 8 = 0 := by omega
    have heq {data : List UInt8} {pos : Nat} (h : pos % 8 = 0) :
        BitReader.readVaru32 ⟨data, pos⟩
          = BitReader.readVaru32Loop [0, 7, 14, 21, 28] 0 ⟨data, pos⟩ := by
      simp only [BitReader.readVaru32, BitReader.ensureAligned, bind_apply, get_apply,
        if_neg (not_not.mpr h), pure_apply]
    rw [heq haligned] at h
    rw [heq hmoved]
    exact hloop _ _ before window after pos value reader h
  · simp only [BitReader.readVaru32, BitReader.ensureAligned, bind_apply, get_apply,
      if_pos haligned, fail_apply] at h
    cases h

theorem windowed_read_vars32 : Windowed BitReader.readVars32 :=
  windowed_read_varu32.bind fun _ => Windowed.pure _

/-! ## Layouts at every position -/

/-- A call that parses a short layout finds it at every position of every slice: it lies in a window
whose bits can be counted. -/
theorem Parses.of_room {pos : Nat} {read : Call ε BitReader α} {items : Layout} {a : α}
    (h : ∀ pos, Parses pos read items a) (hwindowed : Windowed read)
    (hshort : ∀ pos, stop pos items ≤ pos + 64) {data : List UInt8} {rest : List Bool}
    (hdata : (ofBytes data).drop pos = render pos items ++ rest)
    (hroom : stop pos items ≤ saturatingMul data.length 8) :
    read ⟨data, pos⟩ = .ok a ⟨data, stop pos items⟩ := by
  obtain ⟨k, hk⟩ : ∃ k, k = pos / 8 := ⟨_, rfl⟩
  have hpos : 8 * k + pos % 8 = pos := by omega
  have hbytes : saturatingMul data.length 8 ≤ data.length * 8 := Nat.min_le_left _ _
  have hle := le_stop pos items
  have hmod : pos % 8 % 8 = pos % 8 := Nat.mod_mod _ _
  have hrender := render_of_mod_eq hmod items
  have hstop : 8 * k + stop (pos % 8) items = stop pos items := by
    rw [stop, stop, hrender, ← Nat.add_assoc, hpos]
  -- Sixteen bytes from the one of the position on hold the layout.
  obtain ⟨before, hbefore⟩ : ∃ before, before = data.take k := ⟨_, rfl⟩
  obtain ⟨window, hwindow⟩ : ∃ window, window = (data.drop k).take 16 := ⟨_, rfl⟩
  obtain ⟨after, hafter⟩ : ∃ after, after = (data.drop k).drop 16 := ⟨_, rfl⟩
  have hsplit : data = before ++ window ++ after := by
    rw [hbefore, hwindow, hafter, List.append_assoc, List.take_append_drop, List.take_append_drop]
  have hlength : before.length = k := by
    rw [hbefore, List.length_take]
    omega
  have hlen : 8 * window.length ≤ usizeMax := by
    rw [hwindow, List.length_take]
    simp only [usizeMax]
    omega
  have hbits : (ofBytes window).drop (pos % 8)
      = render (pos % 8) items ++ rest.take (128 - pos % 8 - (render pos items).length) := by
    have hfits : (render pos items).length ≤ 128 - pos % 8 := by
      have := hshort pos
      rw [stop] at this
      omega
    rw [hwindow, ← take_ofBytes, ← drop_ofBytes, List.drop_take, List.drop_drop, hpos, hdata,
      hrender, List.take_append, List.take_of_length_le hfits]
  have hread := h (pos % 8) window _ hlen hbits
  have hmoved := (hwindowed before window after _ a _ hread).2
  rw [← hsplit, hlength, hpos, hstop] at hmoved
  exact hmoved hroom

end Sdec.Bitstream
