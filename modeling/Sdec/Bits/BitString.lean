import Mathlib.Data.Nat.Bitwise
import Mathlib.Data.List.Basic
import Mathlib.Tactic.Ring

/-!
# Bit strings

Numbers and byte strings as lists of bits, most significant bit first. `ofNat width value` is the
`width` low bits of `value`, `toNat` reads a list back, and `ofBytes` is the concatenation of the
eight bits of each byte. `ofBytes_injective` says a byte string is determined by its bits.
-/

namespace Bits

/-- The `width` low bits of `value`, most significant first. -/
def ofNat : Nat → Nat → List Bool
  | 0, _ => []
  | width + 1, value => value.testBit width :: ofNat width value

/-- The number a list of bits denotes, continuing from `acc`. -/
def toNatFrom : Nat → List Bool → Nat
  | acc, [] => acc
  | acc, bit :: rest => toNatFrom (2 * acc + bit.toNat) rest

/-- The number a list of bits denotes. -/
abbrev toNat (bits : List Bool) : Nat := toNatFrom 0 bits

/-- The eight bits of a byte. -/
def ofByte (byte : UInt8) : List Bool := ofNat 8 byte.toNat

/-- The bits of a byte string. -/
def ofBytes (bytes : List UInt8) : List Bool := bytes.flatMap ofByte

/-! ## Numbers -/

@[simp] theorem length_ofNat (width value : Nat) : (ofNat width value).length = width := by
  induction width with
  | zero => rfl
  | succ width ih => simp [ofNat, ih]

theorem getElem_ofNat (width value i : Nat) (h : i < (ofNat width value).length) :
    (ofNat width value)[i] = value.testBit (width - 1 - i) := by
  induction width generalizing i with
  | zero => simp [ofNat] at h
  | succ width ih =>
      cases i with
      | zero => simp [ofNat]
      | succ i =>
          have hi : i < (ofNat width value).length := by simpa [ofNat] using h
          rw [show (ofNat (width + 1) value)[i + 1] = (ofNat width value)[i] from rfl, ih i hi]
          congr 1
          omega

theorem le_toNatFrom (acc : Nat) (bits : List Bool) : acc ≤ toNatFrom acc bits := by
  induction bits generalizing acc with
  | nil => exact Nat.le_refl acc
  | cons bit rest ih => exact Nat.le_trans (by omega) (ih (2 * acc + bit.toNat))

theorem toNatFrom_ofNat (acc width value : Nat) :
    toNatFrom acc (ofNat width value) = acc * 2 ^ width + value % 2 ^ width := by
  induction width generalizing acc with
  | zero => simp [ofNat, toNatFrom, Nat.mod_one]
  | succ width ih =>
      rw [ofNat, toNatFrom, ih, Nat.mod_pow_succ, ← Nat.toNat_testBit]
      ring

/-- Reading back a number that fits its width. -/
theorem toNat_ofNat {width value : Nat} (h : value < 2 ^ width) :
    toNat (ofNat width value) = value := by
  rw [toNat, toNatFrom_ofNat, Nat.zero_mul, Nat.zero_add, Nat.mod_eq_of_lt h]

theorem toNatFrom_lt (acc bound : Nat) (bits : List Bool) (h : acc < bound) :
    toNatFrom acc bits < bound * 2 ^ bits.length := by
  induction bits generalizing acc bound with
  | nil => simpa [toNatFrom] using h
  | cons bit rest ih =>
      have hbit := bit.toNat_le
      have := ih (2 * acc + bit.toNat) (2 * bound) (by omega)
      rw [toNatFrom, List.length_cons, Nat.pow_succ]
      calc toNatFrom (2 * acc + bit.toNat) rest < 2 * bound * 2 ^ rest.length := this
        _ = bound * (2 ^ rest.length * 2) := by ring

/-- A list of `n` bits denotes a number below `2 ^ n`. -/
theorem toNat_lt (bits : List Bool) : toNat bits < 2 ^ bits.length := by
  simpa using toNatFrom_lt 0 1 bits Nat.one_pos

/-- Writing back the number that a list of bits denotes. -/
theorem ofNat_toNatFrom (acc : Nat) (bits : List Bool) :
    ofNat bits.length (toNatFrom acc bits) = bits := by
  induction bits generalizing acc with
  | nil => rfl
  | cons bit rest ih =>
      rw [List.length_cons, toNatFrom, ofNat, ih]
      congr 1
      have hsplit : toNatFrom (2 * acc + bit.toNat) rest
          = (2 * acc + bit.toNat) * 2 ^ rest.length
            + toNatFrom (2 * acc + bit.toNat) rest % 2 ^ rest.length := by
        have h := toNatFrom_ofNat (2 * acc + bit.toNat) rest.length
          (toNatFrom (2 * acc + bit.toNat) rest)
        rwa [ih] at h
      rw [hsplit, Nat.testBit_eq_decide_div_mod_eq,
        Nat.add_comm, Nat.add_mul_div_right _ _ (Nat.two_pow_pos _),
        Nat.div_eq_of_lt (Nat.mod_lt _ (Nat.two_pow_pos _))]
      cases bit <;> simp

/-! ## Bytes -/

@[simp] theorem length_ofByte (byte : UInt8) : (ofByte byte).length = 8 := length_ofNat _ _

@[simp] theorem ofBytes_nil : ofBytes [] = [] := rfl

@[simp] theorem ofBytes_cons (byte : UInt8) (bytes : List UInt8) :
    ofBytes (byte :: bytes) = ofByte byte ++ ofBytes bytes := rfl

@[simp] theorem ofBytes_append (xs ys : List UInt8) :
    ofBytes (xs ++ ys) = ofBytes xs ++ ofBytes ys := List.flatMap_append

@[simp] theorem length_ofBytes (bytes : List UInt8) :
    (ofBytes bytes).length = 8 * bytes.length := by
  induction bytes with
  | nil => rfl
  | cons byte bytes ih => simp [ih]; omega

/-- Bit `i` of a byte string is bit `7 - i % 8` of byte `i / 8`. -/
theorem getElem?_ofBytes (bytes : List UInt8) (i : Nat) :
    (ofBytes bytes)[i]? = (bytes[i / 8]?).map fun byte => byte.toNat.testBit (7 - i % 8) := by
  induction bytes generalizing i with
  | nil => simp
  | cons byte bytes ih =>
      rw [ofBytes_cons]
      by_cases hi : i < 8
      · have hlen : i < (ofByte byte).length := by simpa using hi
        rw [List.getElem?_append_left hlen, List.getElem?_eq_getElem hlen]
        simp only [ofByte, getElem_ofNat]
        rw [show i / 8 = 0 by omega, show i % 8 = i by omega]
        simp
      · rw [List.getElem?_append_right (by simp; omega), length_ofByte, ih,
          show i / 8 = (i - 8) / 8 + 1 by omega, show i % 8 = (i - 8) % 8 by omega]
        simp

theorem take_ofBytes (bytes : List UInt8) (n : Nat) :
    (ofBytes bytes).take (8 * n) = ofBytes (bytes.take n) := by
  induction bytes generalizing n with
  | nil => simp
  | cons byte bytes ih =>
      cases n with
      | zero => simp
      | succ n =>
          rw [ofBytes_cons, List.take_succ_cons, ofBytes_cons, List.take_append,
            List.take_of_length_le (by rw [length_ofByte]; omega), length_ofByte,
            show 8 * (n + 1) - 8 = 8 * n by omega, ih]

theorem drop_ofBytes (bytes : List UInt8) (n : Nat) :
    (ofBytes bytes).drop (8 * n) = ofBytes (bytes.drop n) := by
  induction bytes generalizing n with
  | nil => simp
  | cons byte bytes ih =>
      cases n with
      | zero => simp
      | succ n =>
          rw [ofBytes_cons, List.drop_succ_cons, List.drop_append,
            List.drop_eq_nil_of_le (by simp), length_ofByte, List.nil_append,
            show 8 * (n + 1) - 8 = 8 * n by omega, ih]

theorem ofByte_injective : Function.Injective ofByte := by
  intro x y h
  have h := congrArg toNat h
  rw [ofByte, ofByte, toNat_ofNat x.toNat_lt, toNat_ofNat y.toNat_lt] at h
  exact UInt8.toNat_inj.mp h

/-- Every eight bits are the bits of a byte. -/
theorem exists_ofByte_eq {bits : List Bool} (h : bits.length = 8) : ∃ byte, ofByte byte = bits := by
  refine ⟨UInt8.ofNat (toNat bits), ?_⟩
  have hlt := toNat_lt bits
  rw [h] at hlt
  rw [ofByte, UInt8.toNat_ofNat', Nat.mod_eq_of_lt hlt, ← h]
  exact ofNat_toNatFrom 0 bits

/-- Whole bytes of bits are the bits of a byte string. -/
theorem exists_ofBytes_eq (n : Nat) {bits : List Bool} (h : bits.length = 8 * n) :
    ∃ bytes, ofBytes bytes = bits := by
  induction n generalizing bits with
  | zero => exact ⟨[], (List.eq_nil_of_length_eq_zero (by omega)).symm⟩
  | succ n ih =>
      obtain ⟨byte, hbyte⟩ := @exists_ofByte_eq (bits.take 8) (by rw [List.length_take]; omega)
      obtain ⟨bytes, hbytes⟩ := @ih (bits.drop 8) (by rw [List.length_drop]; omega)
      exact ⟨byte :: bytes, by rw [ofBytes_cons, hbyte, hbytes, List.take_append_drop]⟩

/-- A byte string is determined by its bits. -/
theorem ofBytes_injective : Function.Injective ofBytes := by
  intro xs
  induction xs with
  | nil =>
      intro ys h
      have := congrArg List.length h
      simp at this
      exact this.symm
  | cons x xs ih =>
      intro ys h
      cases ys with
      | nil => simpa using congrArg List.length h
      | cons y ys =>
          obtain ⟨hxy, hrest⟩ := List.append_inj h (by simp)
          rw [ofByte_injective hxy, ih hrest]

end Bits
