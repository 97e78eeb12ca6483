import Sdec.Bitstream.Parses
import Sdec.Bitstream.Writer

/-!
# What the bit writer writes

`Emits pos write ok items a` says what the call `write` does on every buffer at bit `pos`: when
`ok` holds and the layout `items` fits, it returns `a`, overwrites the bits of the layout, and
stops right behind it; otherwise it fails. The buffer enters only through its capacity, so a call
that emits a layout writes the same bits into every buffer that is large enough. Layouts compose
by `Emits.bind`, and each method of `BitWriter` emits the item it is named after.
-/

namespace Sdec.Bitstream

open Rust Bits

variable {ε ε' α β : Type} {pos : Nat} {items more : Layout} {ok ok' : Prop}

/-- The number of bits a writer can hold, as `bits_remaining` counts them. -/
def capacity (buf : List UInt8) : Nat := saturatingMul buf.length 8

/-- A bit string with the bits from `pos` on replaced by `new`. -/
def overwrite (bits : List Bool) (pos : Nat) (new : List Bool) : List Bool :=
  bits.take pos ++ new ++ bits.drop (pos + new.length)

/-- On a buffer at bit `pos`, the call writes `items` and returns `a` if `ok` holds and they fit,
and fails otherwise. -/
def Emits (pos : Nat) (write : Call ε BitWriter α) (ok : Prop) (items : Layout) (a : α) : Prop :=
  ∀ buf, pos ≤ capacity buf →
    (ok → stop pos items ≤ capacity buf → ∃ buf',
      write ⟨buf, pos⟩ = .ok a ⟨buf', stop pos items⟩
        ∧ ofBytes buf' = overwrite (ofBytes buf) pos (render pos items)) ∧
    (¬ (ok ∧ stop pos items ≤ capacity buf) →
      ∃ error writer, write ⟨buf, pos⟩ = .error error writer)

/-! ## Overwriting -/

theorem capacity_le (buf : List UInt8) : capacity buf ≤ (ofBytes buf).length := by
  rw [length_ofBytes, capacity, saturatingMul]
  omega

theorem capacity_le_usize_max (buf : List UInt8) : capacity buf ≤ usizeMax := Nat.min_le_right _ _

@[simp] theorem overwrite_nil (bits : List Bool) (pos : Nat) : overwrite bits pos [] = bits := by
  simp [overwrite]

theorem length_overwrite {bits new : List Bool} (h : pos + new.length ≤ bits.length) :
    (overwrite bits pos new).length = bits.length := by
  simp [overwrite]
  omega

/-- A buffer of which some bits were overwritten has the length it had. -/
theorem length_eq_of_overwrite {buf buf' : List UInt8} {new : List Bool}
    (h : ofBytes buf' = overwrite (ofBytes buf) pos new) (hfits : pos + new.length ≤ capacity buf) :
    buf'.length = buf.length := by
  have hlen : (ofBytes buf').length = (ofBytes buf).length := by
    rw [h]
    exact length_overwrite (Nat.le_trans hfits (capacity_le buf))
  rw [length_ofBytes, length_ofBytes] at hlen
  omega

theorem capacity_eq_of_overwrite {buf buf' : List UInt8} {new : List Bool}
    (h : ofBytes buf' = overwrite (ofBytes buf) pos new) (hfits : pos + new.length ≤ capacity buf) :
    capacity buf' = capacity buf := by
  rw [capacity, capacity, length_eq_of_overwrite h hfits]

/-- Overwriting twice in a row is overwriting once. -/
theorem overwrite_overwrite {bits xs ys : List Bool} (h : pos ≤ bits.length) :
    overwrite (overwrite bits pos xs) (pos + xs.length) ys = overwrite bits pos (xs ++ ys) := by
  have hhead : (bits.take pos ++ xs).length = pos + xs.length := by
    rw [List.length_append, List.length_take, Nat.min_eq_left h]
  have hdrop : (bits.take pos ++ xs ++ bits.drop (pos + xs.length)).drop
      (pos + xs.length + ys.length) = bits.drop (pos + (xs ++ ys).length) := by
    rw [← hhead, List.drop_append, List.drop_eq_nil_of_le (by omega), List.nil_append,
      List.drop_drop, show (xs ++ ys).length = xs.length + ys.length from List.length_append]
    congr 1
    omega
  rw [overwrite, overwrite, hdrop, List.take_left' hhead, overwrite, List.append_assoc _ xs ys]

theorem getElem?_overwrite_one {bits : List Bool} (h : pos < bits.length) (value : Bool)
    (i : Nat) : (overwrite bits pos [value])[i]? = if i = pos then some value else bits[i]? := by
  have hlen : (bits.take pos).length = pos := by simp; omega
  rw [overwrite, List.append_assoc]
  rcases Nat.lt_trichotomy i pos with hi | rfl | hi
  · rw [List.getElem?_append_left (by omega), List.getElem?_take_of_lt hi, if_neg (by omega)]
  · rw [List.getElem?_append_right (by omega), hlen]
    simp
  · rw [List.getElem?_append_right (by omega), hlen, if_neg (by omega),
      List.singleton_append, show i - pos = (i - pos - 1) + 1 by omega, List.getElem?_cons_succ,
      List.getElem?_drop]
    congr 1
    simp
    omega

/-! ## Composition -/

theorem Emits.pure (a : α) : Emits pos (pure a : Call ε BitWriter α) True [] a := by
  intro buf hpos
  exact ⟨fun _ _ => ⟨buf, rfl, by simp⟩, fun h => absurd ⟨trivial, by simpa using hpos⟩ h⟩

theorem Emits.fail (error : ε) (a : α) :
    Emits pos (fail error : Call ε BitWriter α) False items a := by
  intro buf _
  exact ⟨fun h => h.elim, fun _ => ⟨_, _, rfl⟩⟩

/-- A panic is final, whatever was to follow. -/
theorem Emits.fault_bind (error : Fault ε) {next : α → Call ε BitWriter β} {b : β} :
    Emits pos ((Rust.fault error : Call ε BitWriter α) >>= next) False items b := by
  intro buf _
  exact ⟨fun h => h.elim, fun _ => ⟨_, _, rfl⟩⟩

theorem Emits.congr {write : Call ε BitWriter α} {a : α} (h : Emits pos write ok items a)
    (hok : ok ↔ ok') : Emits pos write ok' items a := by
  rwa [show ok' = ok from propext hok.symm]

/-- A call that never succeeds emits every layout, since it never has to. -/
theorem Emits.of_ok_false {write : Call ε BitWriter α} {a b : α} (h : Emits pos write ok items a)
    (hok : ¬ ok) : Emits pos write False more b := by
  intro buf hpos
  exact ⟨False.elim, fun _ => (h buf hpos).2 fun hyes => hok hyes.1⟩

theorem Emits.bind {write : Call ε BitWriter α} {next : α → Call ε BitWriter β} {a : α} {b : β}
    (h : Emits pos write ok items a)
    (hnext : ok → Emits (stop pos items) (next a) ok' more b) :
    Emits pos (write >>= next) (ok ∧ ok') (items ++ more) b := by
  intro buf hpos
  obtain ⟨hwrite, herror⟩ := h buf hpos
  by_cases hfits : ok ∧ stop pos items ≤ capacity buf
  · obtain ⟨buf', hrun, hbits⟩ := hwrite hfits.1 hfits.2
    have hcap := capacity_eq_of_overwrite hbits hfits.2
    obtain ⟨hwrite', herror'⟩ := hnext hfits.1 buf' (by rw [hcap]; exact hfits.2)
    rw [hcap] at hwrite' herror'
    rw [bind_apply, hrun, stop_append]
    refine ⟨fun hok hstop => ?_, fun hno => herror' fun hyes => hno ⟨⟨hfits.1, hyes.1⟩, hyes.2⟩⟩
    obtain ⟨buf'', hrun', hbits'⟩ := hwrite' hok.2 hstop
    refine ⟨buf'', hrun', ?_⟩
    rw [hbits', hbits, render_append, stop,
      overwrite_overwrite (Nat.le_trans hpos (capacity_le buf))]
  · obtain ⟨error, writer, hrun⟩ := herror hfits
    rw [bind_apply, hrun, stop_append]
    have hle := le_stop (stop pos items) more
    exact ⟨fun hok hstop => absurd ⟨hok.1, Nat.le_trans hle hstop⟩ hfits,
      fun _ => ⟨error, writer, rfl⟩⟩

/-- A first item written on its own. -/
theorem Emits.cons {write : Call ε BitWriter α} {next : α → Call ε BitWriter β} {item : Item}
    {a : α} {b : β} (h : Emits pos write ok [item] a)
    (hnext : ok → Emits (stop pos [item]) (next a) ok' more b) :
    Emits pos (write >>= next) (ok ∧ ok') (item :: more) b :=
  Emits.bind h hnext

/-- Two calls that always succeed, one after the other. -/
theorem Emits.seq {write : Call ε BitWriter α} {next : α → Call ε BitWriter β} {a : α} {b : β}
    (h : Emits pos write True items a) (hnext : Emits (stop pos items) (next a) True more b) :
    Emits pos (write >>= next) True (items ++ more) b :=
  (h.bind fun _ => hnext).congr (by rw [true_and])

/-- A loop of calls that always succeed. -/
theorem Emits.forM {f : β → Call ε BitWriter PUnit} {layout : β → Layout} {xs : List β}
    (h : ∀ x ∈ xs, ∀ pos, Emits pos (f x) True (layout x) PUnit.unit) :
    Emits pos (xs.forM f) True (xs.flatMap layout) PUnit.unit := by
  induction xs generalizing pos with
  | nil => exact Emits.pure PUnit.unit
  | cons x xs ih =>
      rw [List.forM, List.flatMap_cons]
      exact (h x List.mem_cons_self pos).seq (ih fun y hy => h y (List.mem_cons_of_mem _ hy))

/-- A check before a write: `if c { return Err(..) }`. -/
theorem Emits.check {c : Prop} [Decidable c] {next : Unit → Call ε BitWriter α} {error : ε} {a : α}
    (hc : c → ¬ ok) (h : ¬ c → Emits pos (next ()) ok items a) :
    Emits pos (if c then Rust.fail error >>= next else next ()) ok items a := by
  by_cases hif : c
  · intro buf _
    rw [if_pos hif]
    exact ⟨fun hok => absurd hok (hc hif), fun _ => ⟨_, _, rfl⟩⟩
  · rw [if_neg hif]
    exact h hif

/-- A pure computation before a write. -/
theorem Emits.lift {x : Outcome ε α} {next : α → Call ε BitWriter β} {b : β}
    (h : ∀ a, x = .ok a → Emits pos (next a) ok items b) (herror : ∀ e, x = .error e → ¬ ok) :
    Emits pos ((liftM x : Call ε BitWriter α) >>= next) ok items b := by
  cases hx : x with
  | ok a => exact h a hx
  | error e =>
      intro buf _
      exact ⟨fun hok => absurd hok (herror e hx), fun _ => ⟨_, _, rfl⟩⟩

theorem Emits.map_err {f : ε → ε'} {write : Call ε BitWriter α} {a : α}
    (h : Emits pos write ok items a) : Emits pos (write.mapErr f) ok items a := by
  intro buf hpos
  obtain ⟨hwrite, herror⟩ := h buf hpos
  refine ⟨fun hok hstop => ?_, fun hno => ?_⟩
  · obtain ⟨buf', hrun, hbits⟩ := hwrite hok hstop
    exact ⟨buf', by simp only [Call.mapErr, hrun], hbits⟩
  · obtain ⟨error, writer, hrun⟩ := herror hno
    exact ⟨error.map f, writer, by simp only [Call.mapErr, hrun]⟩

/-- Only the bits of a layout matter, not how it is divided into items. -/
theorem Emits.of_render_eq {write : Call ε BitWriter α} {a : α} (h : Emits pos write ok items a)
    (hrender : render pos items = render pos more) : Emits pos write ok more a := by
  have hstop : stop pos items = stop pos more := by rw [stop, stop, hrender]
  intro buf hpos
  have := h buf hpos
  rwa [hstop, hrender] at this

/-! ## Single bits -/

/-- The bits of a byte after the read-modify-write of `write_bit_unchecked`. -/
theorem testBit_set_bit (byte : UInt8) (value : Bool) {i m : Nat} (hi : i < 8) (hm : m < 8) :
    (if value then byte ||| ((1 : UInt8) <<< UInt8.ofNat i)
      else byte &&& ~~~((1 : UInt8) <<< UInt8.ofNat i)).toNat.testBit m
      = if m = i then value else byte.toNat.testBit m := by
  have hmask : ((1 : UInt8) <<< UInt8.ofNat i).toBitVec = 1#8 <<< i := by
    have : i % 256 % 8 = i := by omega
    simp [this]
  have hbit : (1#8 <<< i).getLsbD m = decide (m = i) := by
    rw [BitVec.getLsbD_shiftLeft]
    by_cases h : m < i
    · simp [h]; omega
    · simp [hm, h]; omega
  rw [← UInt8.toNat_toBitVec, ← BitVec.getLsbD, ← UInt8.toNat_toBitVec, ← BitVec.getLsbD]
  cases value with
  | true =>
      simp [hmask, hbit]
      by_cases h : m = i <;> simp [h]
  | false =>
      simp [hmask, hm]
      by_cases h : m = i
      · simp [h]
      · simp [h]
        intro _
        omega

/-- Setting one bit of one byte overwrites one bit of the buffer. -/
theorem ofBytes_set_bit {buf : List UInt8} {byte : UInt8} (hbyte : buf[pos / 8]? = some byte)
    (value : Bool) :
    ofBytes (buf.set (pos / 8) (if value then byte ||| ((1 : UInt8) <<< UInt8.ofNat (7 - pos % 8))
      else byte &&& ~~~((1 : UInt8) <<< UInt8.ofNat (7 - pos % 8))))
      = overwrite (ofBytes buf) pos [value] := by
  have hlt : pos / 8 < buf.length := (List.getElem?_eq_some_iff.mp hbyte).1
  apply List.ext_getElem?
  intro i
  rw [getElem?_overwrite_one (by rw [length_ofBytes]; omega), getElem?_ofBytes, getElem?_ofBytes,
    List.getElem?_set]
  by_cases hsame : pos / 8 = i / 8
  · rw [if_pos hsame, if_pos hlt, Option.map_some,
      testBit_set_bit byte value (by omega) (by omega), ← hsame, hbyte, Option.map_some]
    by_cases hi : i = pos
    · rw [if_pos (by omega), if_pos hi]
    · rw [if_neg (by omega), if_neg hi]
  · rw [if_neg hsame, if_neg (by rintro rfl; exact hsame rfl)]

theorem emits_write_bit_unchecked (value : Bool) :
    Emits pos (BitWriter.writeBitUnchecked value) True [.bit value] () := by
  intro buf hpos
  have hcap := capacity_le buf
  have hmax := capacity_le_usize_max buf
  rw [length_ofBytes] at hcap
  rw [stop_bit]
  refine ⟨fun _ hstop => ?_, fun hno => ?_⟩
  · have hlt : pos / 8 < buf.length := by omega
    have hbyte : buf[pos / 8]? = some buf[pos / 8] := List.getElem?_eq_getElem hlt
    have hadd : pos + 1 ≤ usizeMax := by omega
    refine ⟨_, ?_, (ofBytes_set_bit hbyte value).trans (by rw [render_cons, render_bit]; rfl)⟩
    simp only [BitWriter.writeBitUnchecked, bind_apply, get_apply, index_of_some hbyte, pure_apply,
      store_of_lt hlt, usize_add_of_le hadd, set_apply]
  · -- Either the byte is missing or the position would overflow, and both panic.
    have hno : capacity buf < pos + 1 := Nat.not_le.mp fun h => hno ⟨trivial, h⟩
    simp only [BitWriter.writeBitUnchecked, bind_apply, get_apply, index]
    cases hbyte : buf[pos / 8]? with
    | none => exact ⟨_, _, rfl⟩
    | some byte =>
        have hlt : pos / 8 < buf.length := (List.getElem?_eq_some_iff.mp hbyte).1
        have hadd : ¬ pos + 1 ≤ usizeMax := by
          rw [capacity, saturatingMul] at hno
          omega
        simp only [store_of_lt hlt, pure_apply, usizeAdd, if_neg hadd]
        exact ⟨_, _, rfl⟩

/-- The check that space remains adds nothing to what a call emits. -/
theorem emits_ensure_bits {write : Call BitError BitWriter α} {a : α} {bits : Nat}
    (h : Emits pos write ok items a) (hbits : stop pos items = pos + bits) :
    Emits pos (do BitWriter.ensureBits bits; write) ok items a := by
  intro buf hpos
  obtain ⟨hwrite, herror⟩ := h buf hpos
  have hrem : (BitWriter.mk buf pos).bitsRemaining = capacity buf - pos := rfl
  by_cases hfits : bits > capacity buf - pos
  · have hover : capacity buf < stop pos items := by omega
    refine ⟨fun _ hstop => by omega, fun _ => ?_⟩
    simp only [BitWriter.ensureBits, bind_apply, get_apply, hrem, if_pos hfits, fail_apply]
    exact ⟨_, _, rfl⟩
  · simp only [BitWriter.ensureBits, bind_apply, get_apply, hrem, if_neg hfits, pure_apply]
    exact ⟨hwrite, herror⟩

theorem emits_write_bit (value : Bool) :
    Emits pos (BitWriter.writeBit value) True [.bit value] () :=
  emits_ensure_bits (emits_write_bit_unchecked value) (stop_bit pos value)

theorem emits_write_bits_loop (n : Nat) (value : UInt64) (hn : n ≤ 64) :
    Emits pos (BitWriter.writeBitsLoop n value) True (flags (ofNat n value.toNat)) () := by
  induction n generalizing pos with
  | zero => exact Emits.pure ()
  | succ n ih =>
      have hbit : ((value >>> UInt64.ofNat n) &&& 1 == 1) = value.toNat.testBit n := by
        have hshift : (UInt64.ofNat n).toNat % 64 = n := by simp; omega
        apply Bool.eq_iff_iff.mpr
        rw [beq_iff_eq, ← UInt64.toNat_inj, UInt64.toNat_and, UInt64.toNat_shiftRight, hshift,
          UInt64.toNat_one, Nat.and_one_is_mod, Nat.shiftRight_eq_div_pow,
          Nat.testBit_eq_decide_div_mod_eq, decide_eq_true_eq]
      rw [BitWriter.writeBitsLoop, hbit]
      exact (Emits.bind (emits_write_bit_unchecked _) fun _ => ih (by omega)).congr (by simp)

theorem one_shiftLeft_le_iff {value : UInt64} {bits : UInt8} (hbits : bits.toNat < 64) :
    1 <<< bits.toUInt64 ≤ value ↔ 2 ^ bits.toNat ≤ value.toNat := by
  have hpow : 2 ^ bits.toNat < 2 ^ 64 := Nat.pow_lt_pow_right (by decide) hbits
  rw [UInt64.le_iff_toNat_le, UInt64.toNat_shiftLeft, UInt8.toNat_toUInt64, UInt64.toNat_one,
    Nat.mod_eq_of_lt hbits, Nat.shiftLeft_eq, Nat.one_mul, Nat.mod_eq_of_lt hpow]

/-- A number of up to 64 bits that fits them. A width of zero writes nothing, and checks
nothing. -/
theorem emits_write_bits (value : UInt64) (bits : UInt8) :
    Emits pos (BitWriter.writeBits value bits)
      (bits.toNat ≤ 64 ∧ (bits.toNat = 0 ∨ value.toNat < 2 ^ bits.toNat))
      [.number bits.toNat value.toNat] () := by
  have hwide : bits > 64 ↔ ¬ bits.toNat ≤ 64 := by
    rw [gt_iff_lt, UInt8.lt_iff_toNat_lt, Nat.not_le]
    rfl
  have hzero : bits = 0 ↔ bits.toNat = 0 := by rw [← UInt8.toNat_inj]; rfl
  have hnarrow : bits < 64 ↔ bits.toNat < 64 := UInt8.lt_iff_toNat_lt
  have hrender : render pos (flags (ofNat bits.toNat value.toNat))
      = render pos [.number bits.toNat value.toNat] := by simp [render, Item.render]
  have hloop : bits.toNat ≤ 64 → Emits pos
      (do BitWriter.ensureBits bits.toNat; BitWriter.writeBitsLoop bits.toNat value) True
      [.number bits.toNat value.toNat] () := fun hle =>
    emits_ensure_bits ((emits_write_bits_loop bits.toNat value hle).of_render_eq hrender)
      (stop_number pos bits.toNat value.toNat)
  unfold BitWriter.writeBits
  refine Emits.check (fun hbits hok => hwide.mp hbits hok.1) fun hbits => ?_
  have hle : bits.toNat ≤ 64 := Decidable.not_not.mp (hwide.not.mp hbits)
  by_cases hz : bits.toNat = 0
  · rw [if_pos (hzero.mpr hz), hz]
    exact ((Emits.pure ()).of_render_eq rfl).congr (by simp)
  · rw [if_neg (hzero.not.mpr hz)]
    refine Emits.check (fun hlarge hok => ?_) fun hsmall => (hloop hle).congr ?_
    · have hfits := hok.2.resolve_left hz
      have := (one_shiftLeft_le_iff (hnarrow.mp hlarge.1)).mp hlarge.2
      omega
    · have hfits : value.toNat < 2 ^ bits.toNat := by
        rcases Nat.lt_or_eq_of_le hle with hlt | heq
        · have := mt (fun h => ⟨hnarrow.mpr hlt, (one_shiftLeft_le_iff hlt).mpr h⟩) hsmall
          omega
        · rw [heq]
          exact value.toNat_lt
      simp [hle, hfits]

/-! ## Alignment and bytes -/

theorem emits_write_zeros (n : Nat) :
    Emits pos (BitWriter.writeZeros n) True (flags (List.replicate n false)) () := by
  induction n generalizing pos with
  | zero => exact Emits.pure ()
  | succ n ih => exact (Emits.bind (emits_write_bit_unchecked _) fun _ => ih).congr (by simp)

theorem emits_align_to_byte : Emits pos BitWriter.alignToByte True [.align] () := by
  intro buf hpos
  by_cases haligned : pos % 8 = 0
  · have h := ((Emits.pure (ε := BitError) ()).of_render_eq
      (render_align_of_aligned haligned []).symm) buf hpos
    simpa [BitWriter.alignToByte, haligned] using h
  · have hpad : padding pos = 8 - pos % 8 := by rw [padding]; omega
    have hrender :
        render pos (flags (List.replicate (8 - pos % 8) false)) = render pos [.align] := by
      simp [render, Item.render, hpad]
    have h := emits_ensure_bits ((emits_write_zeros (8 - pos % 8)).of_render_eq hrender)
      (by rw [stop_align, hpad]) buf hpos
    simpa [BitWriter.alignToByte, haligned] using h

/-- At a byte boundary, the check of the alignment adds nothing either. -/
theorem emits_ensure_aligned {write : Call BitError BitWriter α} {a : α} (hpos : pos % 8 = 0)
    (h : Emits pos write ok items a) :
    Emits pos (do BitWriter.ensureAligned; write) ok items a := by
  intro buf hle
  have haligned : ¬ pos % 8 ≠ 0 := not_not.mpr hpos
  simpa only [BitWriter.ensureAligned, bind_apply, get_apply, if_neg haligned, pure_apply]
    using h buf hle

/-- Overwriting whole bytes of the buffer. -/
theorem ofBytes_splice {buf values : List UInt8} (hpos : pos % 8 = 0) :
    ofBytes (buf.take (pos / 8) ++ values ++ buf.drop (pos / 8 + values.length))
      = overwrite (ofBytes buf) pos (ofBytes values) := by
  have hpos : pos = 8 * (pos / 8) := by omega
  rw [overwrite, ofBytes_append, ofBytes_append, ← take_ofBytes, ← drop_ofBytes, length_ofBytes,
    Nat.mul_add, ← hpos]

/-- The part of `write_bytes_aligned` behind its checks. -/
theorem emits_copy_bytes (hpos : pos % 8 = 0) (values : List UInt8) :
    Emits pos (do
      let writer ← get
      let buf ← copyFromSlice writer.buf (writer.bitPos / 8) values
      let bitPos ← usizeAdd writer.bitPos (values.length * 8)
      set (BitWriter.mk buf bitPos) : Call BitError BitWriter Unit) True (bytes values) () := by
  intro buf hle
  have hcap := capacity_le buf
  have hmax := capacity_le_usize_max buf
  rw [length_ofBytes] at hcap
  rw [stop_bytes, Nat.mul_comm 8]
  refine ⟨fun _ hstop => ?_, fun hno => ?_⟩
  · have hfits : pos / 8 + values.length ≤ buf.length := by omega
    have hadd : pos + values.length * 8 ≤ usizeMax := by omega
    refine ⟨_, ?_, (ofBytes_splice hpos).trans (by rw [render_bytes])⟩
    simp only [bind_apply, get_apply, copy_from_slice_of_le hfits, pure_apply,
      usize_add_of_le hadd, set_apply]
  · have hno : capacity buf < pos + values.length * 8 := Nat.not_le.mp fun h => hno ⟨trivial, h⟩
    simp only [bind_apply, get_apply]
    by_cases hfits : pos / 8 + values.length ≤ buf.length
    · have hadd : ¬ pos + values.length * 8 ≤ usizeMax := by
        rw [capacity, saturatingMul] at hno
        omega
      simp only [copy_from_slice_of_le hfits, pure_apply, usizeAdd, if_neg hadd]
      exact ⟨_, _, rfl⟩
    · simp only [copyFromSlice, if_neg hfits]
      exact ⟨_, _, rfl⟩

theorem emits_write_bytes_aligned (hpos : pos % 8 = 0) (values : List UInt8) :
    Emits pos (BitWriter.writeBytesAligned values) True (bytes values) () :=
  emits_ensure_aligned hpos
    (emits_ensure_bits (emits_copy_bytes hpos values) (by rw [stop_bytes, Nat.mul_comm]))

/-- Storing one element is copying a slice of one element. -/
theorem store_eq_copy_from_slice {m : Type → Type} [Monad m] [MonadFault ε m] (xs : List α)
    (i : Nat) (x : α) : store (m := m) xs i x = copyFromSlice xs i [x] := by
  rw [store, copyFromSlice, List.length_singleton]
  by_cases h : i < xs.length
  · rw [if_pos h, if_pos (Nat.succ_le_of_lt h), List.set_eq_take_append_cons_drop, if_pos h,
      List.append_assoc, List.singleton_append]
  · rw [if_neg h, if_neg (by omega)]

/-- A byte is written as a slice of one byte is. -/
theorem write_u8_aligned_eq (value : UInt8) :
    BitWriter.writeU8Aligned value = BitWriter.writeBytesAligned [value] := by
  simp only [BitWriter.writeU8Aligned, BitWriter.writeBytesAligned, store_eq_copy_from_slice,
    List.length_singleton, Nat.one_mul]

theorem emits_write_u8_aligned (hpos : pos % 8 = 0) (value : UInt8) :
    Emits pos (BitWriter.writeU8Aligned value) True [.byte value] () := by
  rw [write_u8_aligned_eq]
  exact emits_write_bytes_aligned hpos [value]

theorem emits_write_u16_aligned (hpos : pos % 8 = 0) (value : UInt16) :
    Emits pos (BitWriter.writeU16Aligned value) True (bytes (leBytes 2 value.toNat)) () :=
  emits_write_bytes_aligned hpos _

theorem emits_write_u32_aligned (hpos : pos % 8 = 0) (value : UInt32) :
    Emits pos (BitWriter.writeU32Aligned value) True (bytes (leBytes 4 value.toNat)) () :=
  emits_write_bytes_aligned hpos _

theorem emits_write_u64_aligned (hpos : pos % 8 = 0) (value : UInt64) :
    Emits pos (BitWriter.writeU64Aligned value) True (bytes (leBytes 8 value.toNat)) () :=
  emits_write_bytes_aligned hpos _

/-! ## Varints -/

theorem emits_write_varu32_loop (fuel : Nat) (value : UInt32) (hpos : pos % 8 = 0) :
    Emits pos (BitWriter.writeVaru32Loop fuel value) True (bytes (leb128 fuel value.toNat)) () := by
  induction fuel generalizing pos value with
  | zero => exact Emits.pure ()
  | succ fuel ih =>
      have hrest := shiftRight_seven_toNat value
      have hzero : value >>> 7 = 0 ↔ value.toNat < 128 := by
        rw [← UInt32.toNat_inj, hrest, UInt32.toNat_zero]
        omega
      rw [BitWriter.writeVaru32Loop]
      simp only [varint_byte_eq]
      by_cases h : value.toNat < 128
      · rw [leb128_of_lt h, if_pos h]
        refine Emits.congr (Emits.cons
          (emits_write_u8_aligned hpos _) fun _ => ?_) (and_self_iff (a := True))
        rw [if_pos (hzero.mpr h)]
        exact Emits.pure ()
      · rw [leb128_of_le (Nat.le_of_not_lt h), if_neg h]
        refine Emits.congr (Emits.cons
          (emits_write_u8_aligned hpos _) fun _ => ?_) (and_self_iff (a := True))
        rw [if_neg (hzero.not.mpr h), ← hrest]
        exact ih _ (by rw [stop_byte]; omega)

theorem emits_write_varu32 (hpos : pos % 8 = 0) (value : UInt32) :
    Emits pos (BitWriter.writeVaru32 value) True (bytes (varu32 value)) () :=
  emits_ensure_aligned hpos (emits_write_varu32_loop 5 value hpos)

theorem emits_write_vars32 (hpos : pos % 8 = 0) (value : Int32) :
    Emits pos (BitWriter.writeVars32 value) True (bytes (vars32 value)) () :=
  emits_write_varu32 hpos _

end Sdec.Bitstream
