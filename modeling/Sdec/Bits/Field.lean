import Sdec.Bits.BitString

/-!
# Layouts of bit fields

A layout is a list of items laid out one after another in a bit stream: a number of a fixed width,
padding to the next byte boundary, or a whole byte at a byte boundary. `render pos items` is the
bit string of a layout that starts at bit `pos`, on which only the padding depends, and
`stop pos items` is the position after it. Layouts are the vocabulary in which a writer and a
reader of the same format are related to each other.
-/

namespace Bits

/-- One item of a layout. -/
inductive Item where
  /-- The `width` low bits of `value`. -/
  | number (width value : Nat)
  /-- Zero bits up to the next byte boundary. -/
  | align
  /-- A byte, laid out at a byte boundary. -/
  | byte (value : UInt8)
  deriving DecidableEq, Repr

/-- A sequence of items. -/
abbrev Layout := List Item

/-- A single bit. -/
def Item.bit (value : Bool) : Item := .number 1 value.toNat

/-- The number of zero bits from `pos` to the next byte boundary. -/
def padding (pos : Nat) : Nat := (8 - pos % 8) % 8

/-- The bits of an item laid out at bit `pos`. -/
def Item.render (pos : Nat) : Item → List Bool
  | .number width value => ofNat width value
  | .align => List.replicate (padding pos) false
  | .byte value => ofByte value

/-- The bits of a layout that starts at bit `pos`. -/
def render (pos : Nat) : Layout → List Bool
  | [] => []
  | item :: rest => item.render pos ++ render (pos + (item.render pos).length) rest

/-- The position after a layout that starts at bit `pos`. -/
def stop (pos : Nat) (items : Layout) : Nat := pos + (render pos items).length

@[simp] theorem render_nil (pos : Nat) : render pos [] = [] := rfl

@[simp] theorem stop_nil (pos : Nat) : stop pos [] = pos := rfl

theorem render_cons (pos : Nat) (item : Item) (rest : Layout) :
    render pos (item :: rest) = item.render pos ++ render (stop pos [item]) rest := by
  simp [render, stop]

theorem render_append (pos : Nat) (xs ys : Layout) :
    render pos (xs ++ ys) = render pos xs ++ render (stop pos xs) ys := by
  induction xs generalizing pos with
  | nil => simp
  | cons item rest ih =>
      rw [List.cons_append, render_cons, render_cons, ih, List.append_assoc]
      congr 3
      simp [stop, render, Nat.add_assoc]

theorem stop_append (pos : Nat) (xs ys : Layout) :
    stop pos (xs ++ ys) = stop (stop pos xs) ys := by
  simp [stop, render_append, Nat.add_assoc]

theorem stop_cons (pos : Nat) (item : Item) (rest : Layout) :
    stop pos (item :: rest) = stop (stop pos [item]) rest := by
  rw [← List.singleton_append, stop_append]

theorem le_stop (pos : Nat) (items : Layout) : pos ≤ stop pos items := Nat.le_add_right _ _

@[simp] theorem stop_number (pos width value : Nat) :
    stop pos [.number width value] = pos + width := by
  simp [stop, render, Item.render]

@[simp] theorem stop_byte (pos : Nat) (value : UInt8) : stop pos [.byte value] = pos + 8 := by
  simp [stop, render, Item.render]

@[simp] theorem stop_align (pos : Nat) : stop pos [.align] = pos + padding pos := by
  simp [stop, render, Item.render]

/-! ## Byte boundaries -/

theorem padding_of_aligned {pos : Nat} (h : pos % 8 = 0) : padding pos = 0 := by
  simp [padding, h]

@[simp] theorem add_padding_mod (pos : Nat) : (pos + padding pos) % 8 = 0 := by
  rw [padding]
  omega

theorem padding_lt (pos : Nat) : padding pos < 8 := Nat.mod_lt _ (by decide)

/-- The bits of a layout depend on its position within a byte only. -/
theorem render_of_mod_eq {pos pos' : Nat} (h : pos % 8 = pos' % 8) (items : Layout) :
    render pos items = render pos' items := by
  induction items generalizing pos pos' with
  | nil => rfl
  | cons item items ih =>
      have hitem : item.render pos = item.render pos' := by
        cases item with
        | number width value => rfl
        | align => rw [Item.render, Item.render, padding, padding, h]
        | byte value => rfl
      have hrest :
          (pos + (item.render pos').length) % 8 = (pos' + (item.render pos').length) % 8 := by
        omega
      rw [render, render, hitem, ih hrest]

/-- Whole bytes. -/
def bytes (values : List UInt8) : Layout := values.map .byte

@[simp] theorem bytes_nil : bytes [] = [] := rfl

@[simp] theorem bytes_cons (value : UInt8) (values : List UInt8) :
    bytes (value :: values) = .byte value :: bytes values := rfl

@[simp] theorem bytes_append (xs ys : List UInt8) : bytes (xs ++ ys) = bytes xs ++ bytes ys :=
  List.map_append

@[simp] theorem render_bytes (pos : Nat) (values : List UInt8) :
    render pos (bytes values) = ofBytes values := by
  induction values generalizing pos with
  | nil => rfl
  | cons value values ih => rw [bytes_cons, render_cons, ih]; rfl

@[simp] theorem stop_bytes (pos : Nat) (values : List UInt8) :
    stop pos (bytes values) = pos + 8 * values.length := by
  simp [stop]

/-- A layout that ends with padding ends at a byte boundary. -/
theorem stop_append_align_mod (pos : Nat) (items : Layout) :
    stop pos (items ++ [.align]) % 8 = 0 := by
  rw [stop_append, stop_align, add_padding_mod]

/-- Padding at a byte boundary is empty. -/
theorem render_align_of_aligned {pos : Nat} (h : pos % 8 = 0) (rest : Layout) :
    render pos (.align :: rest) = render pos rest := by
  rw [render_cons, stop_align, padding_of_aligned h]
  simp [Item.render, padding_of_aligned h]

theorem stop_align_of_aligned {pos : Nat} (h : pos % 8 = 0) : stop pos [.align] = pos := by
  rw [stop_align, padding_of_aligned h, Nat.add_zero]

/-! ## Single bits -/

/-- One bit for each element of a list. -/
def flags (values : List Bool) : Layout := values.map .bit

@[simp] theorem flags_nil : flags [] = [] := rfl

@[simp] theorem flags_cons (value : Bool) (values : List Bool) :
    flags (value :: values) = .bit value :: flags values := rfl

@[simp] theorem stop_bit (pos : Nat) (value : Bool) : stop pos [.bit value] = pos + 1 :=
  stop_number pos 1 value.toNat

@[simp] theorem render_bit (pos : Nat) (value : Bool) :
    (Item.bit value).render pos = [value] := by
  cases value <;> rfl

@[simp] theorem render_flags (pos : Nat) (values : List Bool) :
    render pos (flags values) = values := by
  induction values generalizing pos with
  | nil => rfl
  | cons value values ih => rw [flags_cons, render_cons, render_bit, ih]; rfl

end Bits
