import Sdec.Bits.Field
import Mathlib.Algebra.Order.Ring.Nat

/-!
# Base-128 varints

The canonical little-endian base-128 encoding of a number: seven bits a byte, least significant
group first, with the high bit of every byte but the last set. Signed numbers are first folded
into unsigned ones by the zigzag code, which `zigzag_decode_encode` shows to be invertible.
-/

namespace Bits

/-- The base-128 bytes of `value`, cut off after `fuel` bytes. -/
def leb128 : Nat → Nat → List UInt8
  | 0, _ => []
  | fuel + 1, value =>
      if value < 128 then [UInt8.ofNat value]
      else UInt8.ofNat (value % 128 + 128) :: leb128 fuel (value / 128)

theorem leb128_of_lt {fuel value : Nat} (h : value < 128) :
    leb128 (fuel + 1) value = [UInt8.ofNat value] := by
  rw [leb128, if_pos h]

theorem leb128_of_le {fuel value : Nat} (h : 128 ≤ value) :
    leb128 (fuel + 1) value = UInt8.ofNat (value % 128 + 128) :: leb128 fuel (value / 128) := by
  rw [leb128, if_neg (Nat.not_lt.mpr h)]

theorem length_leb128_le (fuel value : Nat) : (leb128 fuel value).length ≤ fuel := by
  induction fuel generalizing value with
  | zero => simp [leb128]
  | succ fuel ih =>
      rw [leb128]
      split
      · simp
      · simpa using ih _

/-- A number of `k` groups of seven bits takes at most `k` bytes. -/
theorem length_leb128_le_of_lt {fuel value k : Nat} (hk : 0 < k) (h : value < 128 ^ k) :
    (leb128 fuel value).length ≤ k := by
  induction fuel generalizing value k with
  | zero => exact Nat.zero_le _
  | succ fuel ih =>
      by_cases hlast : value < 128
      · rw [leb128_of_lt hlast, List.length_singleton]
        exact hk
      · obtain ⟨k, rfl⟩ : ∃ j, k = j + 1 := ⟨k - 1, by omega⟩
        have hrest : value / 128 < 128 ^ k := by
          rw [Nat.div_lt_iff_lt_mul (by omega), ← Nat.pow_succ]
          exact h
        have hk : 0 < k := by
          rcases Nat.eq_zero_or_pos k with rfl | hk
          · omega
          · exact hk
        rw [leb128_of_le (Nat.le_of_not_lt hlast), List.length_cons]
        exact Nat.succ_le_succ (ih hk hrest)

theorem length_leb128_pos (fuel value : Nat) : 0 < (leb128 (fuel + 1) value).length := by
  rw [leb128]
  split <;> simp

/-! ## Reading -/

/-- What reading a varint from the front of a byte string finds: a number and its length in bytes,
the end of the bytes, or no last byte within the allowed length. -/
inductive Scan where
  | value (number length : Nat)
  | truncated
  | overlong
  deriving DecidableEq, Repr

/-- A reading with a group of seven bits put below it. -/
def Scan.prepend (group : Nat) : Scan → Scan
  | .value number length => .value (group + 128 * number) (length + 1)
  | .truncated => .truncated
  | .overlong => .overlong

/-- Reads a varint of at most `fuel` bytes. The number is not bounded by a machine width. -/
def scan : Nat → List UInt8 → Scan
  | 0, _ => .overlong
  | _ + 1, [] => .truncated
  | fuel + 1, byte :: rest =>
      if byte.toNat < 128 then .value byte.toNat 1
      else (scan fuel rest).prepend (byte.toNat % 128)

theorem scan_leb128_of_lt {fuel value : Nat} (h : value < 128) (rest : List UInt8) :
    scan (fuel + 1) (leb128 (fuel + 1) value ++ rest) = .value value 1 := by
  have hbyte : (UInt8.ofNat value).toNat = value := by
    rw [UInt8.toNat_ofNat']
    omega
  rw [leb128_of_lt h, List.singleton_append, scan, hbyte, if_pos h]

/-- Reading back a number that fits the allowed length. -/
theorem scan_leb128 {fuel value : Nat} (h : value < 128 ^ (fuel + 1)) (rest : List UInt8) :
    scan (fuel + 1) (leb128 (fuel + 1) value ++ rest)
      = .value value (leb128 (fuel + 1) value).length := by
  induction fuel generalizing value with
  | zero =>
      have hlast : value < 128 := by simpa using h
      rw [scan_leb128_of_lt hlast, leb128_of_lt hlast, List.length_singleton]
  | succ fuel ih =>
      by_cases hlast : value < 128
      · rw [scan_leb128_of_lt hlast, leb128_of_lt hlast, List.length_singleton]
      · have hbyte : (UInt8.ofNat (value % 128 + 128)).toNat = value % 128 + 128 := by
          rw [UInt8.toNat_ofNat']
          omega
        have hrest : value / 128 < 128 ^ (fuel + 1) := by
          rw [Nat.div_lt_iff_lt_mul (by decide), ← Nat.pow_succ]
          exact h
        rw [leb128_of_le (Nat.le_of_not_lt hlast), List.cons_append, scan, hbyte,
          if_neg (by omega), ih hrest, Scan.prepend, List.length_cons]
        congr 1
        omega

/-- A varint that is found ends in its first byte, or goes on behind it. -/
theorem scan_eq_value {fuel number length : Nat} {bytes : List UInt8}
    (h : scan (fuel + 1) bytes = .value number length) :
    ∃ byte rest, bytes = byte :: rest ∧ ((byte.toNat < 128 ∧ number = byte.toNat ∧ length = 1) ∨
      (128 ≤ byte.toNat ∧ ∃ number' length', scan fuel rest = .value number' length'
        ∧ number = byte.toNat % 128 + 128 * number' ∧ length = length' + 1)) := by
  cases bytes with
  | nil => cases h
  | cons byte rest =>
      refine ⟨byte, rest, rfl, ?_⟩
      rw [scan] at h
      by_cases hlast : byte.toNat < 128
      · rw [if_pos hlast] at h
        cases h
        exact .inl ⟨hlast, rfl, rfl⟩
      · rw [if_neg hlast] at h
        cases hscan : scan fuel rest with
        | value number' length' =>
            rw [hscan] at h
            cases h
            exact .inr ⟨Nat.le_of_not_lt hlast, _, _, rfl, rfl, rfl⟩
        | truncated | overlong =>
            rw [hscan] at h
            cases h

/-- A varint that is found lies within the bytes. -/
theorem scan_length {fuel number length : Nat} {bytes : List UInt8}
    (h : scan fuel bytes = .value number length) : 0 < length ∧ length ≤ bytes.length := by
  induction fuel generalizing bytes number length with
  | zero => cases h
  | succ fuel ih =>
      obtain ⟨byte, rest, rfl, ⟨_, _, rfl⟩ | ⟨_, _, length', hscan, _, rfl⟩⟩ := scan_eq_value h
      · simp
      · have := ih hscan
        rw [List.length_cons]
        omega

/-- A varint takes no more bytes than are allowed. -/
theorem scan_length_le {fuel number length : Nat} {bytes : List UInt8}
    (h : scan fuel bytes = .value number length) : length ≤ fuel := by
  induction fuel generalizing bytes number length with
  | zero => cases h
  | succ fuel ih =>
      obtain ⟨byte, rest, rfl, ⟨_, _, rfl⟩ | ⟨_, _, length', hscan, _, rfl⟩⟩ := scan_eq_value h
      · exact Nat.succ_le_succ (Nat.zero_le _)
      · exact Nat.succ_le_succ (ih hscan)

/-- A varint of some bytes denotes a number of seven bits for each of them. -/
theorem scan_lt {fuel number length : Nat} {bytes : List UInt8}
    (h : scan fuel bytes = .value number length) : number < 128 ^ length := by
  induction fuel generalizing bytes number length with
  | zero => cases h
  | succ fuel ih =>
      obtain ⟨byte, rest, rfl, ⟨hlast, rfl, rfl⟩ | ⟨_, _, length', hscan, rfl, rfl⟩⟩ :=
        scan_eq_value h
      · rwa [pow_one]
      · have := ih hscan
        rw [pow_succ]
        omega

/-- A reading depends on the bytes of the varint only. -/
theorem scan_take {fuel number length : Nat} {bytes : List UInt8}
    (h : scan fuel bytes = .value number length) :
    scan fuel (bytes.take length) = .value number length := by
  induction fuel generalizing bytes number length with
  | zero => cases h
  | succ fuel ih =>
      obtain ⟨byte, rest, rfl, ⟨hlast, rfl, rfl⟩ | ⟨hmore, _, length', hscan, rfl, rfl⟩⟩ :=
        scan_eq_value h
      · rw [List.take_succ_cons, scan, if_pos hlast]
      · rw [List.take_succ_cons, scan, if_neg (Nat.not_lt.mpr hmore), ih hscan, Scan.prepend]

/-- A reading is the same in front of more bytes. -/
theorem scan_append {fuel number length : Nat} {bytes : List UInt8}
    (h : scan fuel bytes = .value number length) (rest : List UInt8) :
    scan fuel (bytes ++ rest) = .value number length := by
  induction fuel generalizing bytes number length with
  | zero => cases h
  | succ fuel ih =>
      obtain ⟨byte, tail, rfl, ⟨hlast, rfl, rfl⟩ | ⟨hmore, _, length', hscan, rfl, rfl⟩⟩ :=
        scan_eq_value h
      · rw [List.cons_append, scan, if_pos hlast]
      · rw [List.cons_append, scan, if_neg (Nat.not_lt.mpr hmore), ih hscan, Scan.prepend]

/-! ## The number of the bytes -/

/-- The number that little-endian groups of seven bits denote. -/
def base128 : List UInt8 → Nat
  | [] => 0
  | byte :: rest => byte.toNat % 128 + 128 * base128 rest

/-- A varint that is found denotes the number of its bytes. -/
theorem scan_eq_base128 {fuel number length : Nat} {bytes : List UInt8}
    (h : scan fuel bytes = .value number length) : number = base128 (bytes.take length) := by
  induction fuel generalizing bytes number length with
  | zero => cases h
  | succ fuel ih =>
      obtain ⟨byte, rest, rfl, ⟨hlast, rfl, rfl⟩ | ⟨_, _, length', hscan, rfl, rfl⟩⟩ :=
        scan_eq_value h
      · show byte.toNat = byte.toNat % 128 + 128 * 0
        omega
      · rw [List.take_succ_cons, base128, ← ih hscan]

/-- A varint whose last allowed byte, after `more` others, is its last one and holds more than four
bits. -/
def Overlarge : Nat → List UInt8 → Prop
  | _, [] => False
  | 0, byte :: _ => 16 ≤ byte.toNat ∧ byte.toNat < 128
  | more + 1, byte :: rest => 128 ≤ byte.toNat ∧ Overlarge more rest

instance decidableOverlarge : (more : Nat) → (bytes : List UInt8) → Decidable (Overlarge more bytes)
  | 0, [] => isFalse id
  | _ + 1, [] => isFalse id
  | 0, _ :: _ => inferInstanceAs (Decidable (_ ∧ _))
  | more + 1, _ :: rest =>
      @instDecidableAnd _ _ inferInstance (decidableOverlarge more rest)

/-- A varint that is found exceeds the `7 * more + 4` bits it may use when it is overlarge. -/
theorem scan_lt_iff {more number length : Nat} {bytes : List UInt8}
    (h : scan (more + 1) bytes = .value number length) :
    number < 16 * 128 ^ more ↔ ¬ Overlarge more bytes := by
  induction more generalizing bytes number length with
  | zero =>
      obtain ⟨byte, rest, rfl, ⟨hlast, rfl, rfl⟩ | ⟨_, _, _, hscan, _⟩⟩ := scan_eq_value h
      · show byte.toNat < 16 * 1 ↔ ¬ (16 ≤ byte.toNat ∧ byte.toNat < 128)
        omega
      · cases hscan
  | succ more ih =>
      have hpow : 128 ^ (more + 1) = 128 * 128 ^ more := by rw [pow_succ, Nat.mul_comm]
      have hpos : 0 < 128 ^ more := Nat.pow_pos (by omega)
      obtain ⟨byte, rest, rfl, ⟨hlast, rfl, rfl⟩ | ⟨hmore, _, _, hscan, rfl, rfl⟩⟩ :=
        scan_eq_value h
      · refine ⟨fun _ hover => absurd hover.1 (by omega), fun _ => ?_⟩
        rw [hpow]
        omega
      · have hrest := ih hscan
        have hover : Overlarge (more + 1) (byte :: rest) ↔ Overlarge more rest :=
          and_iff_right hmore
        rw [hover, ← hrest, hpow]
        omega

/-- An overlarge varint is found. -/
theorem scan_of_overlarge {more : Nat} {bytes : List UInt8} (h : Overlarge more bytes) :
    ∃ number length, scan (more + 1) bytes = .value number length := by
  induction more generalizing bytes with
  | zero =>
      cases bytes with
      | nil => exact h.elim
      | cons byte rest => exact ⟨_, _, by rw [scan, if_pos h.2]⟩
  | succ more ih =>
      cases bytes with
      | nil => exact h.elim
      | cons byte rest =>
          obtain ⟨number, length, hscan⟩ := ih h.2
          refine ⟨byte.toNat % 128 + 128 * number, length + 1, ?_⟩
          rw [scan, if_neg (Nat.not_lt.mpr h.1), hscan, Scan.prepend]

/-- A reader that keeps 32 bits of the number it finds is exact on every varint but the overlarge
ones. -/
theorem exact_iff_not_overlarge {bytes : List UInt8} {read : UInt32 → Nat → Prop}
    (hread : match scan 5 bytes with
      | .value number length => ∀ v n, read v n ↔ v = UInt32.ofNat number ∧ n = length
      | _ => ∀ v n, ¬ read v n) :
    (∀ v n, read v n → v.toNat = base128 (bytes.take n)) ↔ ¬ Overlarge 4 bytes := by
  cases hscan : scan 5 bytes with
  | value number length =>
      rw [hscan] at hread
      have hbase := scan_eq_base128 hscan
      rw [← scan_lt_iff hscan, show 16 * 128 ^ 4 = 2 ^ 32 from rfl]
      have hofNat : (UInt32.ofNat number).toNat = number ↔ number < 2 ^ 32 := by
        rw [UInt32.toNat_ofNat']
        exact Nat.mod_eq_iff_lt (by omega)
      constructor
      · intro hexact
        have := hexact _ _ ((hread _ _).mpr ⟨rfl, rfl⟩)
        exact hofNat.mp (this.trans hbase.symm)
      · intro hlt v n hv
        obtain ⟨rfl, rfl⟩ := (hread v n).mp hv
        exact (hofNat.mpr hlt).trans hbase
  | truncated | overlong =>
      rw [hscan] at hread
      refine ⟨fun _ hover => ?_, fun _ v n hv => absurd hv (hread v n)⟩
      obtain ⟨number, length, hvalue⟩ := scan_of_overlarge hover
      rw [hscan] at hvalue
      cases hvalue

/-! ## Groups of seven bits -/

/-- The payload of a byte of a varint. -/
theorem low_bits_toNat (byte : UInt8) : (byte &&& 0x7F).toNat = byte.toNat % 128 := by
  rw [UInt8.toNat_and]
  exact Nat.and_two_pow_sub_one_eq_mod byte.toNat 7

/-- The last byte of a varint is the first one below 128. -/
theorem high_bit_eq_zero (byte : UInt8) : byte &&& 0x80 = 0 ↔ byte.toNat < 128 := by
  rw [← UInt8.toNat_inj, UInt8.toNat_and]
  have h : ∀ i : Fin 256, i.val &&& 128 = 0 ↔ i.val < 128 := by decide +kernel
  exact h ⟨byte.toNat, byte.toNat_lt⟩

/-- A group shifted above the bits read so far is added to them, modulo the width. -/
theorem or_shifted_eq_mod {width result group j : Nat} (hj : 7 * j ≤ width)
    (hresult : result < 2 ^ (7 * j)) :
    result ||| (group * 2 ^ (7 * j) % 2 ^ width) = (result + group * 2 ^ (7 * j)) % 2 ^ width := by
  obtain ⟨k, rfl⟩ := Nat.exists_eq_add_of_le hj
  have hmod : group * 2 ^ (7 * j) % 2 ^ (7 * j + k) = 2 ^ (7 * j) * (group % 2 ^ k) := by
    rw [Nat.mul_comm, Nat.pow_add, Nat.mul_mod_mul_left]
  have hsum : (result + group * 2 ^ (7 * j)) % 2 ^ (7 * j + k)
      = result + 2 ^ (7 * j) * (group % 2 ^ k) := by
    have hlt : result + 2 ^ (7 * j) * (group % 2 ^ k) < 2 ^ (7 * j + k) := by
      have hgroup : group % 2 ^ k + 1 ≤ 2 ^ k := Nat.mod_lt _ (Nat.two_pow_pos k)
      calc result + 2 ^ (7 * j) * (group % 2 ^ k)
          < 2 ^ (7 * j) * (group % 2 ^ k + 1) := by rw [Nat.mul_add]; omega
        _ ≤ 2 ^ (7 * j) * 2 ^ k := Nat.mul_le_mul_left _ hgroup
        _ = 2 ^ (7 * j + k) := (Nat.pow_add _ _ _).symm
    rw [← Nat.mod_eq_of_lt hlt, Nat.add_mod result, hmod,
      Nat.add_mod result (2 ^ (7 * j) * (group % 2 ^ k)), ← hmod, Nat.mod_mod]
  rw [hmod, hsum, Nat.or_comm, ← Nat.two_pow_add_eq_or_of_lt hresult, Nat.add_comm]

/-! ## Varints of 32 bits -/

/-- The bytes of a `u32` varint. -/
def varu32 (value : UInt32) : List UInt8 := leb128 5 value.toNat

/-- The bytes of a zigzag `i32` varint. -/
def vars32 (value : Int32) : List UInt8 := varu32 ((value <<< 1) ^^^ (value >>> 31)).toUInt32

theorem length_varu32_le (value : UInt32) : (varu32 value).length ≤ 5 := length_leb128_le _ _

theorem length_varu32_pos (value : UInt32) : 0 < (varu32 value).length := length_leb128_pos _ _

theorem shiftRight_seven_toNat (value : UInt32) : (value >>> 7).toNat = value.toNat / 128 := by
  rw [UInt32.toNat_shiftRight, show (7 : UInt32).toNat % 32 = 7 from rfl,
    Nat.shiftRight_eq_div_pow]

theorem shiftRight_seven_eq_zero (value : UInt32) : value >>> 7 = 0 ↔ value.toNat < 128 := by
  rw [← UInt32.toNat_inj, shiftRight_seven_toNat, UInt32.toNat_zero]
  omega

/-- The byte that a writer of varints emits for the low group of what is left. -/
theorem varint_byte_eq (value : UInt32) :
    (if value >>> 7 ≠ 0 then (value &&& 0x7F).toUInt8 ||| 0x80 else (value &&& 0x7F).toUInt8)
      = if value.toNat < 128 then UInt8.ofNat value.toNat
        else UInt8.ofNat (value.toNat % 128 + 128) := by
  have hlow : (value &&& 0x7F).toUInt8.toNat = value.toNat % 128 := by
    rw [UInt32.toNat_toUInt8, UInt32.toNat_and,
      show (0x7F : UInt32).toNat = 2 ^ 7 - 1 from rfl, Nat.and_two_pow_sub_one_eq_mod]
    omega
  have hrest := shiftRight_seven_eq_zero value
  by_cases h : value.toNat < 128
  · rw [if_neg (not_not.mpr (hrest.mpr h)), if_pos h]
    apply UInt8.toNat_inj.mp
    rw [hlow, UInt8.toNat_ofNat']
    omega
  · rw [if_pos (hrest.not.mpr h), if_neg h]
    apply UInt8.toNat_inj.mp
    rw [UInt8.toNat_or, hlow, UInt8.toNat_ofNat', show (0x80 : UInt8).toNat = 2 ^ 7 * 1 from rfl,
      Nat.or_comm, ← Nat.two_pow_add_eq_or_of_lt (Nat.mod_lt _ (by decide))]
    omega

/-- One step of a reader: the payload of a byte is put above the `7 * j` bits read so far. -/
theorem or_group_toNat {result : UInt32} (byte : UInt8) {j : Nat} (hj : j ≤ 4)
    (hresult : result.toNat < 2 ^ (7 * j)) :
    (result ||| ((byte &&& 0x7F).toUInt32 <<< UInt32.ofNat (7 * j))).toNat
      = (result.toNat + byte.toNat % 128 * 2 ^ (7 * j)) % 2 ^ 32 := by
  have hshift : (UInt32.ofNat (7 * j)).toNat % 32 = 7 * j := by
    rw [UInt32.toNat_ofNat']
    omega
  rw [UInt32.toNat_or, UInt32.toNat_shiftLeft, hshift, Nat.shiftLeft_eq, UInt8.toNat_toUInt32,
    low_bits_toNat, or_shifted_eq_mod (by omega) hresult]

/-- The same step of a reader that accumulates in 64 bits, which lose nothing. -/
theorem or_group_toNat_wide {result : UInt64} (byte : UInt8) {j : Nat} (hj : j ≤ 4)
    (hresult : result.toNat < 2 ^ (7 * j)) :
    (result ||| ((byte &&& 0x7F).toUInt64 <<< UInt64.ofNat (7 * j))).toNat
      = result.toNat + byte.toNat % 128 * 2 ^ (7 * j) := by
  have hshift : (UInt64.ofNat (7 * j)).toNat % 64 = 7 * j := by
    rw [UInt64.toNat_ofNat']
    omega
  have hpow : 2 ^ (7 * j) ≤ 2 ^ 28 := Nat.pow_le_pow_right (by decide) (by omega)
  have hgroup : byte.toNat % 128 * 2 ^ (7 * j) ≤ 127 * 2 ^ (7 * j) :=
    Nat.mul_le_mul_right _ (by omega)
  rw [UInt64.toNat_or, UInt64.toNat_shiftLeft, hshift, Nat.shiftLeft_eq, UInt8.toNat_toUInt64,
    low_bits_toNat, or_shifted_eq_mod (by omega) hresult, Nat.mod_eq_of_lt (by omega)]

/-- Splitting off the low group of a number that stands above `7 * j` bits. -/
theorem add_group_mul (result group number j : Nat) :
    result + (group + 128 * number) * 2 ^ (7 * j)
      = result + group * 2 ^ (7 * j) + number * 2 ^ (7 * (j + 1)) := by
  rw [show 7 * (j + 1) = 7 * j + 7 from rfl, Nat.pow_add]
  ring

/-- After a group is put above `7 * j` bits, fewer than `7 * (j + 1)` bits are in use. -/
theorem add_group_lt {result j : Nat} (group : Nat) (hresult : result < 2 ^ (7 * j)) :
    result + group % 128 * 2 ^ (7 * j) < 2 ^ (7 * (j + 1)) := by
  have hgroup : group % 128 * 2 ^ (7 * j) ≤ 127 * 2 ^ (7 * j) := Nat.mul_le_mul_right _ (by omega)
  have hpow : 2 ^ (7 * (j + 1)) = 128 * 2 ^ (7 * j) := by rw [Nat.mul_add, Nat.pow_add]; omega
  omega

/-! ## The zigzag code -/

theorem getElem_last {n : Nat} (x : BitVec (n + 1)) : x[n] = x.msb := by
  rw [BitVec.msb_eq_getLsbD_last, ← BitVec.getLsbD_eq_getElem]
  simp

theorem sshiftRight_of_nonneg {n : Nat} (x : BitVec (n + 1)) (h : x.msb = false) :
    x.sshiftRight n = 0#(n + 1) := by
  ext i hi
  rw [BitVec.getElem_sshiftRight]
  split
  · have : i = 0 := by omega
    subst this
    simpa using (getElem_last x).trans h
  · simpa using h

theorem sshiftRight_of_neg {n : Nat} (x : BitVec (n + 1)) (h : x.msb = true) :
    x.sshiftRight n = BitVec.allOnes (n + 1) := by
  ext i hi
  rw [BitVec.getElem_sshiftRight]
  split
  · have : i = 0 := by omega
    subst this
    simpa using (getElem_last x).trans h
  · simpa using h

/-- Decoding the zigzag code of a signed number gives the number back. -/
theorem zigzag_decode_encode {n : Nat} (x : BitVec (n + 1)) :
    ((x <<< 1 ^^^ x.sshiftRight n) >>> 1)
      ^^^ (-((x <<< 1 ^^^ x.sshiftRight n) &&& 1#(n + 1))) = x := by
  have hm := getElem_last x
  cases h : x.msb with
  | false =>
      rw [sshiftRight_of_nonneg x h]
      have hlow : (x <<< 1 ^^^ 0#(n + 1)) &&& 1#(n + 1) = 0#(n + 1) := by
        ext i hi
        cases i <;> simp
      rw [hlow]
      ext i hi
      rcases Nat.lt_or_eq_of_le (Nat.le_of_lt_succ hi) with hlt | rfl
      · simp [show 1 + i < n + 1 by omega]
      · simp [hm, h]
  | true =>
      rw [sshiftRight_of_neg x h]
      have hlow : (x <<< 1 ^^^ BitVec.allOnes (n + 1)) &&& 1#(n + 1) = 1#(n + 1) := by
        ext i hi
        cases i <;> simp
      rw [hlow, BitVec.neg_one_eq_allOnes]
      ext i hi
      rcases Nat.lt_or_eq_of_le (Nat.le_of_lt_succ hi) with hlt | rfl
      · simp [show 1 + i < n + 1 by omega]
      · simp [hm, h]

/-- Encoding the number of a zigzag code gives the code back. -/
theorem zigzag_encode_decode {n : Nat} (code : BitVec (n + 1)) :
    ((code >>> 1 ^^^ (-(code &&& 1#(n + 1)))) <<< 1)
      ^^^ (code >>> 1 ^^^ (-(code &&& 1#(n + 1)))).sshiftRight n = code := by
  cases h : code[0] with
  | false =>
      have hlow : code &&& 1#(n + 1) = 0#(n + 1) := by
        ext i hi
        cases i <;> simp [h]
      have hmsb : (code >>> 1 ^^^ 0#(n + 1)).msb = false := by
        rw [← getElem_last, BitVec.xor_zero, BitVec.getElem_ushiftRight]
        exact BitVec.getLsbD_of_ge code (1 + n) (by omega)
      rw [hlow, BitVec.neg_zero, sshiftRight_of_nonneg _ hmsb]
      ext i hi
      cases i with
      | zero => simp [h]
      | succ i => simp [Nat.add_comm 1 i, hi]
  | true =>
      have hlow : code &&& 1#(n + 1) = 1#(n + 1) := by
        ext i hi
        cases i <;> simp [h]
      have hmsb : (code >>> 1 ^^^ BitVec.allOnes (n + 1)).msb = true := by
        rw [← getElem_last, BitVec.xor_allOnes, BitVec.getElem_not, BitVec.getElem_ushiftRight,
          BitVec.getLsbD_of_ge code (1 + n) (by omega), Bool.not_false]
      rw [hlow, BitVec.neg_one_eq_allOnes, sshiftRight_of_neg _ hmsb]
      ext i hi
      cases i with
      | zero => simp [h]
      | succ i => simp [Nat.add_comm 1 i, hi]

end Bits
