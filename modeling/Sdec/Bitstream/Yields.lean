import Sdec.Bitstream.Parses
import Sdec.Rust.Ensures

/-!
# What a decoder yields on any bytes

`Yields c read post risk` says what the call `read` does on a slice of which nothing is known. A
value that it returns satisfies `post` together with some layout, and if the reader stood at or
behind bit `c` before the call, it stands at or behind the end of that layout afterwards, at the
same place within its byte. So the layout of what was read, laid out from `c` on, takes no more room
than the bits that were read, however redundant these are. The call panics only where `risk` holds.
-/

namespace Sdec.Bitstream

open Rust Bits

variable {ε ε' α β : Type} {c : Nat} {post q : α → Layout → Prop} {risk risk' : Prop}

/-- The reader stands at or behind bit `c`, at the same place within its byte. -/
structure Behind (data : List UInt8) (c : Nat) (reader : BitReader) : Prop where
  data_eq : reader.data = data
  le_length : reader.bitPos ≤ saturatingMul data.length 8
  le : c ≤ reader.bitPos
  mod : c % 8 = reader.bitPos % 8

/-- What the call returns satisfies `post` with a layout behind whose end the reader stands, if it
stood behind `c` before. The call panics only if `risk` holds. -/
def Yields (c : Nat) (read : Call ε BitReader α) (post : α → Layout → Prop) (risk : Prop) : Prop :=
  ∀ data reader, Behind data c reader →
    match read reader with
    | .ok a reader' => ∃ items, post a items ∧ Behind data (stop c items) reader'
    | .error e _ => PanicsOnlyIf risk e

/-- The reader moved over as many bits as the layout takes. -/
theorem Behind.move {data : List UInt8} {reader : BitReader} {items : Layout} {n : Nat}
    (h : Behind data c reader) (hstop : stop c items = c + n)
    (hfits : n ≤ reader.bitsRemaining) :
    Behind data (stop c items) ⟨data, reader.bitPos + n⟩ where
  data_eq := rfl
  le_length := by
    have hle := h.le_length
    rw [BitReader.bitsRemaining, h.data_eq] at hfits
    show reader.bitPos + n ≤ _
    omega
  le := by
    rw [hstop]
    exact Nat.add_le_add_right h.le n
  mod := by
    show stop c items % 8 = (reader.bitPos + n) % 8
    rw [hstop, Nat.add_mod, h.mod, ← Nat.add_mod]

/-- A shorter layout that ends at the same place within a byte. -/
theorem Behind.shorten {data : List UInt8} {reader : BitReader} {a b : Nat}
    (h : Behind data a reader) (hle : b ≤ a) (hmod : b % 8 = a % 8) : Behind data b reader where
  data_eq := h.data_eq
  le_length := h.le_length
  le := Nat.le_trans hle h.le
  mod := hmod.trans h.mod

/-! ## Composition -/

theorem Yields.pure {a : α} (h : post a []) :
    Yields c (pure a : Call ε BitReader α) post risk :=
  fun _ _ hreader => ⟨[], h, hreader⟩

theorem Yields.fail (error : ε) : Yields c (fail error : Call ε BitReader α) post risk :=
  fun _ _ _ h => nomatch h

/-- Another layout that ends no later, at the same place within a byte. -/
theorem Yields.relayout {read : Call ε BitReader α} (h : Yields c read q risk)
    (hpost : ∀ a items, q a items →
      ∃ more, post a more ∧ stop c more ≤ stop c items ∧ stop c more % 8 = stop c items % 8) :
    Yields c read post risk := by
  intro data reader hreader
  have h := h data reader hreader
  revert h
  cases read reader with
  | error e _ => exact id
  | ok a reader' =>
      intro ⟨items, hq, hbehind⟩
      obtain ⟨more, hmore, hle, hmod⟩ := hpost a items hq
      exact ⟨more, hmore, hbehind.shorten hle hmod⟩

/-- A layout that ends where that of the value does. -/
theorem Yields.of_stop_eq {read : Call ε BitReader α} {p : α → Prop} {layout : α → Layout}
    (h : Yields c read (fun a items => p a ∧ stop c items = stop c (layout a)) risk) :
    Yields c read (fun a items => p a ∧ items = layout a) risk :=
  h.relayout fun _ _ h => ⟨_, ⟨h.1, rfl⟩, Nat.le_of_eq h.2.symm, by rw [h.2]⟩

theorem Yields.mono {read : Call ε BitReader α} (h : Yields c read q risk')
    (hpost : ∀ a items, q a items → post a items) (hrisk : risk' → risk) :
    Yields c read post risk := by
  intro data reader hreader
  have h := h data reader hreader
  revert h
  cases read reader with
  | ok a reader' => exact fun ⟨items, hq, hbehind⟩ => ⟨items, hpost a items hq, hbehind⟩
  | error e _ => exact fun h hpanic => hrisk (h hpanic)

/-- A weaker statement about the value. -/
theorem Yields.imp {read : Call ε BitReader α} (h : Yields c read q risk)
    (hpost : ∀ a items, q a items → post a items) : Yields c read post risk :=
  h.mono hpost id

/-- A call that never panics, where a panic would be allowed. -/
theorem Yields.safe {read : Call ε BitReader α} (h : Yields c read post False) :
    Yields c read post risk :=
  h.mono (fun _ _ h => h) False.elim

theorem Yields.bind {read : Call ε BitReader α} {next : α → Call ε BitReader β}
    {post : β → Layout → Prop} (h : Yields c read q risk)
    (hnext : ∀ a items, q a items →
      Yields (stop c items) (next a) (fun b more => post b (items ++ more)) risk) :
    Yields c (read >>= next) post risk := by
  intro data reader hreader
  have h := h data reader hreader
  rw [bind_apply]
  cases hread : read reader with
  | error e _ =>
      rw [hread] at h
      exact h
  | ok a reader' =>
      rw [hread] at h
      obtain ⟨items, hq, hbehind⟩ := h
      have hrest := hnext a items hq data reader' hbehind
      dsimp only
      cases hread' : next a reader' with
      | error e _ =>
          rw [hread'] at hrest
          exact hrest
      | ok b reader'' =>
          rw [hread'] at hrest
          obtain ⟨more, hpost, hbehind'⟩ := hrest
          rw [← stop_append] at hbehind'
          exact ⟨items ++ more, hpost, hbehind'⟩

/-- A call whose layout is known from its value, and what follows. -/
theorem Yields.bind_layout {read : Call ε BitReader α} {next : α → Call ε BitReader β}
    {p : α → Prop} {layout : α → Layout} {post : β → Layout → Prop}
    (h : Yields c read (fun a items => p a ∧ items = layout a) risk)
    (hnext : ∀ a, p a →
      Yields (stop c (layout a)) (next a) (fun b more => post b (layout a ++ more)) risk) :
    Yields c (read >>= next) post risk := by
  refine h.bind fun a items hq => ?_
  obtain ⟨ha, rfl⟩ := hq
  exact hnext a ha

/-- A pure computation on what was read. -/
theorem Yields.lift {x : Outcome ε α} {next : α → Call ε BitReader β} {p : α → Prop}
    {post : β → Layout → Prop} (h : Ensures x p (PanicsOnlyIf risk))
    (hnext : ∀ a, p a → Yields c (next a) post risk) :
    Yields c ((liftM x : Call ε BitReader α) >>= next) post risk := by
  cases x with
  | ok a => exact hnext a h
  | error e => exact fun _ _ _ => h

/-- A check of what was read: `if c { return Err(..) }`. -/
theorem Yields.check {p : Prop} [Decidable p] {next : Unit → Call ε BitReader α} {error : ε}
    (h : ¬ p → Yields c (next ()) post risk) :
    Yields c (if p then Rust.fail error >>= next else next ()) post risk := by
  by_cases hp : p
  · rw [if_pos hp]
    exact fun _ _ _ h => nomatch h
  · rw [if_neg hp]
    exact h hp

theorem Yields.map_err {f : ε → ε'} {read : Call ε BitReader α} (h : Yields c read post risk) :
    Yields c (read.mapErr f) post risk := by
  intro data reader hreader
  have h := h data reader hreader
  unfold Call.mapErr
  revert h
  cases read reader with
  | ok a reader' => exact fun h => h
  | error e _ =>
      cases e with
      | err error => exact fun _ h => nomatch h
      | panic => exact fun h _ => h rfl

/-- A look at the reader. -/
theorem Yields.get {next : BitReader → Call ε BitReader α}
    (h : ∀ reader, Yields c (next reader) post risk) :
    Yields c ((get : Call ε BitReader BitReader) >>= next) post risk := by
  intro data reader hreader
  rw [bind_apply, get_apply]
  exact h reader data reader hreader

/-- An element of a slice that is long enough. -/
theorem Yields.index {xs : List α} {i : Nat} {next : α → Call ε BitReader β}
    {post : β → Layout → Prop} (hi : i < xs.length)
    (h : ∀ a, xs[i]? = some a → Yields c (next a) post risk) :
    Yields c (index xs i >>= next) post risk := by
  have hsome : xs[i]? = some xs[i] := List.getElem?_eq_getElem hi
  rw [index_of_some hsome, pure_bind]
  exact h _ hsome

/-- Values that were read one after another, each with a layout. -/
inductive Sequence (post : α → Layout → Prop) : List α → Layout → Prop
  | nil : Sequence post [] []
  | cons {a : α} {as : List α} {items more : Layout} (head : post a items)
      (tail : Sequence post as more) : Sequence post (a :: as) (items ++ more)

theorem Sequence.forall_mem {as : List α} {items : Layout} (h : Sequence post as items) :
    ∀ a ∈ as, ∃ items, post a items := by
  induction h with
  | nil => exact fun _ h => nomatch h
  | cons head _ ih => exact List.forall_mem_cons.mpr ⟨⟨_, head⟩, ih⟩

/-- Values whose layouts are known are laid out one after another. -/
theorem Sequence.eq_flatMap {as : List α} {items : Layout} (layout : α → Layout)
    (h : Sequence post as items) (hlayout : ∀ a ∈ as, ∀ items, post a items → items = layout a) :
    items = as.flatMap layout := by
  induction h with
  | nil => rfl
  | cons head _ ih =>
      rw [List.flatMap_cons, ← hlayout _ List.mem_cons_self _ head,
        ← ih fun a ha => hlayout a (List.mem_cons_of_mem _ ha)]

/-- A call on a whole slice. The layout of what it returns is no longer than the slice. -/
theorem Yields.eval_on {read : Call ε BitReader α} {data : List UInt8}
    (post : α → Layout → Prop) (h : Yields 0 read post risk) :
    Ensures (read.evalOn (BitReader.new data))
      (fun a => ∃ items, post a items ∧ stop 0 items ≤ 8 * data.length) (PanicsOnlyIf risk) := by
  have h := h data (BitReader.new data) ⟨rfl, Nat.zero_le _, Nat.le_refl _, rfl⟩
  unfold Call.evalOn
  revert h
  cases read (BitReader.new data) with
  | error e _ => exact id
  | ok a reader =>
      intro ⟨items, ha, hbehind⟩
      have hlength := hbehind.le_length
      have hle := hbehind.le
      simp only [saturatingMul] at hlength
      exact ⟨items, ha, by omega⟩

/-! ## The methods -/

/-- The bits that remain, of which there are no more than a `usize` counts. -/
theorem Behind.remaining {data : List UInt8} {reader : BitReader} (h : Behind data c reader) :
    reader.bitPos + reader.bitsRemaining ≤ 8 * data.length
      ∧ reader.bitPos + reader.bitsRemaining ≤ usizeMax := by
  have hle := h.le_length
  rw [BitReader.bitsRemaining, h.data_eq]
  simp only [saturatingMul] at *
  omega

theorem yields_read_bit :
    Yields c BitReader.readBit (fun bit items => True ∧ items = [.bit bit]) False := by
  intro data reader hreader
  obtain ⟨slice, pos⟩ := reader
  obtain rfl : slice = data := hreader.data_eq
  obtain ⟨hdata, hmax⟩ := hreader.remaining
  dsimp only at hdata hmax
  by_cases hnone : (BitReader.mk slice pos).bitsRemaining = 0
  · simp only [BitReader.readBit, bind_apply, get_apply, if_pos hnone, fail_apply]
    exact fun h => by cases h
  · have hlt : pos / 8 < slice.length := by omega
    have hadd : pos + 1 ≤ usizeMax := by omega
    simp only [BitReader.readBit, bind_apply, get_apply, if_neg hnone, pure_apply,
      index_of_some (List.getElem?_eq_getElem hlt), usize_add_of_le hadd, set_apply]
    exact ⟨_, ⟨trivial, rfl⟩, hreader.move (stop_bit c _) (Nat.pos_of_ne_zero hnone)⟩

/-- The bits that the loop of `read_bits` puts behind those it has. -/
theorem yields_read_bits_loop (n k : Nat) {value : UInt64} (hn : k + n ≤ 64)
    (hvalue : value.toNat < 2 ^ k) :
    Yields c (BitReader.readBitsLoop n value)
      (fun result items => result.toNat < 2 ^ (k + n) ∧ stop c items = c + n) False := by
  induction n generalizing c k value with
  | zero => exact Yields.pure ⟨hvalue, stop_nil c⟩
  | succ n ih =>
      have hpow : 2 ^ (k + 1) ≤ 2 ^ 64 := Nat.pow_le_pow_right (by omega) (by omega)
      have hdouble : 2 ^ (k + 1) = 2 * 2 ^ k := pow_succ' 2 k
      unfold BitReader.readBitsLoop
      refine yields_read_bit.bind_layout fun bit _ => ?_
      have hbit := bit.toNat_lt
      have hshift := shift_or_bit value bit (by omega)
      refine (ih (k + 1) (by omega) (by rw [hshift]; omega)).imp fun result items h => ⟨?_, ?_⟩
      · rw [show k + (n + 1) = k + 1 + n by omega]
        exact h.1
      · rw [List.singleton_append, stop_cons, h.2, stop_bit]
        omega

/-- A number of as many bits. Whatever it is, it takes their room. -/
theorem yields_read_bits (bits : UInt8) :
    Yields c (BitReader.readBits bits) (fun value items =>
      (bits.toNat ≤ 64 ∧ value.toNat < 2 ^ bits.toNat)
        ∧ items = [.number bits.toNat value.toNat]) False := by
  unfold BitReader.readBits
  refine Yields.check fun hwide => ?_
  have hle : bits.toNat ≤ 64 := by
    rw [gt_iff_lt, UInt8.lt_iff_toNat_lt] at hwide
    exact Nat.le_of_not_lt hwide
  refine Yields.of_stop_eq ?_
  by_cases hzero : bits = 0
  · subst hzero
    exact Yields.pure ⟨⟨hle, Nat.one_pos⟩, by rw [stop_number]; rfl⟩
  · rw [if_neg hzero]
    refine Yields.get fun reader => Yields.check fun _ => ?_
    have hzero : (0 : UInt64).toNat < 2 ^ 0 := Nat.one_pos
    refine (yields_read_bits_loop bits.toNat 0 (by omega) hzero).imp fun value items h =>
      ⟨⟨hle, ?_⟩, ?_⟩
    · rw [← Nat.zero_add bits.toNat]
      exact h.1
    · rw [h.2, stop_number]

theorem yields_align_to_byte :
    Yields c BitReader.alignToByte (fun _ items => True ∧ items = [.align]) False := by
  intro data reader hreader
  obtain ⟨slice, pos⟩ := reader
  obtain rfl : slice = data := hreader.data_eq
  obtain ⟨hdata, hmax⟩ := hreader.remaining
  dsimp only at hdata hmax
  have hmod : c % 8 = pos % 8 := hreader.mod
  by_cases hpos : pos % 8 = 0
  · simp only [BitReader.alignToByte, bind_apply, get_apply, if_pos hpos, pure_apply]
    refine ⟨_, ⟨trivial, rfl⟩, ?_⟩
    rw [stop_align_of_aligned (hmod.trans hpos)]
    exact hreader
  · have hpad : padding c = 8 - pos % 8 := by
      rw [padding, hmod]
      omega
    by_cases hshort : 8 - pos % 8 > (BitReader.mk slice pos).bitsRemaining
    · simp only [BitReader.alignToByte, bind_apply, get_apply, if_neg hpos,
        if_pos hshort, fail_apply]
      exact fun h => by cases h
    · have hadd : pos + (8 - pos % 8) ≤ usizeMax := by omega
      simp only [BitReader.alignToByte, bind_apply, get_apply, if_neg hpos, if_neg hshort,
        pure_apply, usize_add_of_le hadd, set_apply]
      exact ⟨_, ⟨trivial, rfl⟩, hreader.move (by rw [stop_align, hpad]) (Nat.le_of_not_lt hshort)⟩

/-- A check that the reader is at a byte boundary. -/
theorem Yields.ensure_aligned {next : Unit → Call BitError BitReader α}
    {post : α → Layout → Prop} (h : Yields c (next ()) post risk) :
    Yields c (BitReader.ensureAligned >>= next) post risk := by
  intro data reader hreader
  rw [bind_apply]
  unfold BitReader.ensureAligned
  by_cases hpos : reader.bitPos % 8 ≠ 0
  · simp only [bind_apply, get_apply, if_pos hpos, fail_apply]
    exact fun h => nomatch h
  · simp only [bind_apply, get_apply, if_neg hpos, pure_apply]
    exact h data reader hreader

/-- Bytes at a byte boundary. Elsewhere the call fails. -/
theorem yields_read_aligned_bytes (n : Nat) :
    Yields c (BitReader.readAlignedBytes n)
      (fun values items => values.length = n ∧ items = bytes values) False := by
  intro data reader hreader
  obtain ⟨slice, pos⟩ := reader
  obtain rfl : slice = data := hreader.data_eq
  obtain ⟨hdata, hmax⟩ := hreader.remaining
  dsimp only at hdata hmax
  by_cases hpos : pos % 8 = 0
  · by_cases hshort : n * 8 > (BitReader.mk slice pos).bitsRemaining
    · simp only [BitReader.readAlignedBytes, BitReader.ensureAligned, BitReader.ensureBits,
        bind_apply, get_apply, ne_eq, hpos, not_true, if_false, if_pos hshort,
        pure_apply, fail_apply]
      exact fun h => by cases h
    · have hend : pos / 8 + n ≤ slice.length := by omega
      have hadd : pos + n * 8 ≤ usizeMax := by omega
      have hcount : ((slice.take (pos / 8 + n)).drop (pos / 8)).length = n := by
        rw [List.length_drop, List.length_take]
        omega
      simp only [BitReader.readAlignedBytes, BitReader.ensureAligned, BitReader.ensureBits,
        bind_apply, get_apply, ne_eq, hpos, not_true, if_false, if_neg hshort, pure_apply,
        slice_of_le (Nat.le_add_right _ _) hend, usize_add_of_le hadd, set_apply]
      refine ⟨_, ⟨hcount, rfl⟩, hreader.move ?_ (Nat.le_of_not_lt hshort)⟩
      rw [stop_bytes, hcount, Nat.mul_comm]
  · simp only [BitReader.readAlignedBytes, BitReader.ensureAligned, bind_apply, get_apply, ne_eq,
      hpos, not_false_eq_true, if_true, fail_apply]
    exact fun h => by cases h

theorem yields_read_u16_aligned :
    Yields c BitReader.readU16Aligned
      (fun value items => True ∧ items = bytes (leBytes 2 value.toNat)) False := by
  refine Yields.of_stop_eq ?_
  unfold BitReader.readU16Aligned
  refine (yields_read_aligned_bytes 2).bind_layout fun values hvalues => Yields.pure ⟨trivial, ?_⟩
  rw [List.append_nil, stop_bytes, stop_bytes, hvalues, length_leBytes]

theorem yields_read_u32_aligned :
    Yields c BitReader.readU32Aligned
      (fun value items => True ∧ items = bytes (leBytes 4 value.toNat)) False := by
  refine Yields.of_stop_eq ?_
  unfold BitReader.readU32Aligned
  refine (yields_read_aligned_bytes 4).bind_layout fun values hvalues => Yields.pure ⟨trivial, ?_⟩
  rw [List.append_nil, stop_bytes, stop_bytes, hvalues, length_leBytes]

theorem yields_read_u8_aligned :
    Yields c BitReader.readU8Aligned (fun value items => True ∧ items = [.byte value]) False := by
  intro data reader hreader
  obtain ⟨slice, pos⟩ := reader
  obtain rfl : slice = data := hreader.data_eq
  obtain ⟨hdata, hmax⟩ := hreader.remaining
  dsimp only at hdata hmax
  by_cases hpos : pos % 8 = 0
  · by_cases hshort : 8 > (BitReader.mk slice pos).bitsRemaining
    · simp only [BitReader.readU8Aligned, BitReader.ensureAligned, BitReader.ensureBits, bind_apply,
        get_apply, ne_eq, hpos, not_true, if_false, if_pos hshort, pure_apply, fail_apply]
      exact fun h => by cases h
    · have hlt : pos / 8 < slice.length := by omega
      have hadd : pos + 8 ≤ usizeMax := by omega
      simp only [BitReader.readU8Aligned, BitReader.ensureAligned, BitReader.ensureBits, bind_apply,
        get_apply, ne_eq, hpos, not_true, if_false, if_neg hshort, pure_apply,
        index_of_some (List.getElem?_eq_getElem hlt), usize_add_of_le hadd, set_apply]
      exact ⟨_, ⟨trivial, rfl⟩, hreader.move (stop_byte c _) (Nat.le_of_not_lt hshort)⟩
  · simp only [BitReader.readU8Aligned, BitReader.ensureAligned, bind_apply, get_apply, ne_eq, hpos,
      not_false_eq_true, if_true, fail_apply]
    exact fun h => by cases h

/-- The loop of `read_varu32` has read `j` groups of seven bits, and reads at most `n` more. -/
theorem yields_read_varu32_loop (n j : Nat) (result : UInt32) (hn : j + n = 5)
    (hresult : result.toNat < 2 ^ (7 * j)) :
    Yields c (BitReader.readVaru32Loop ((List.range' j n).map fun i => UInt32.ofNat (7 * i)) result)
      (fun value items =>
        ∃ k, 0 < k ∧ value.toNat < 2 ^ (7 * (j + k)) ∧ stop c items = c + 8 * k) False := by
  induction n generalizing c j result with
  | zero => exact Yields.fail _
  | succ n ih =>
      rw [List.range'_succ, List.map_cons]
      unfold BitReader.readVaru32Loop
      refine yields_read_u8_aligned.bind_layout fun byte _ => ?_
      have hor := or_group_toNat byte (by omega : j ≤ 4) hresult
      have hlt := add_group_lt byte.toNat hresult
      have hnext : (result ||| ((byte &&& 0x7F).toUInt32 <<< UInt32.ofNat (7 * j))).toNat
          < 2 ^ (7 * (j + 1)) := by
        rw [hor]
        exact Nat.lt_of_le_of_lt (Nat.mod_le _ _) hlt
      by_cases hlast : byte &&& 0x80 = 0
      · rw [if_pos hlast]
        exact Yields.pure ⟨1, Nat.one_pos, hnext, by rw [List.append_nil, stop_byte]⟩
      · rw [if_neg hlast]
        refine (ih (j + 1) _ (by omega) hnext).imp fun value items h => ?_
        obtain ⟨k, hk, hvalue, hstop⟩ := h
        refine ⟨k + 1, Nat.succ_pos k, ?_, ?_⟩
        · rw [show j + (k + 1) = j + 1 + k by omega]
          exact hvalue
        · rw [List.singleton_append, stop_cons, hstop, stop_byte]
          omega

/-- A varint, however many bytes it takes, takes no less room than the canonical bytes of its
number. -/
theorem yields_read_varu32 :
    Yields c BitReader.readVaru32
      (fun value items => True ∧ items = bytes (varu32 value)) False := by
  unfold BitReader.readVaru32
  refine Yields.ensure_aligned ?_
  have hloop := yields_read_varu32_loop (c := c) 5 0 0 rfl Nat.one_pos
  refine hloop.relayout fun value items ⟨k, hk, hvalue, hstop⟩ => ⟨_, ⟨trivial, rfl⟩, ?_⟩
  have hlength : (varu32 value).length ≤ k := by
    refine length_leb128_le_of_lt hk ?_
    rw [Nat.zero_add, pow_mul] at hvalue
    exact hvalue
  rw [hstop, stop_bytes]
  omega

theorem yields_read_vars32 :
    Yields c BitReader.readVars32
      (fun value items => True ∧ items = bytes (vars32 value)) False := by
  refine Yields.of_stop_eq ?_
  unfold BitReader.readVars32
  refine yields_read_varu32.bind_layout fun code _ => Yields.pure ⟨trivial, ?_⟩
  -- The zigzag code of the number is the code that was read.
  have hcode : ((((code >>> 1).toInt32 ^^^ (-(code &&& 1).toInt32)) <<< 1)
      ^^^ (((code >>> 1).toInt32 ^^^ (-(code &&& 1).toInt32)) >>> 31)).toUInt32 = code := by
    apply UInt32.toBitVec_inj.mp
    simpa [BitVec.sshiftRight'] using zigzag_encode_decode (n := 31) code.toBitVec
  rw [List.append_nil, vars32, hcode]

end Sdec.Bitstream
