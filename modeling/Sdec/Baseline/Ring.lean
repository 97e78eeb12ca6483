import Mathlib.Data.List.Basic

/-!
# Ring buffers

A ring of slots read from a head onwards, wrapping at the end. Filling the slot behind the last one
read appends to what is read, and overwriting the slot at the head of a full ring drops the first
element and appends the new one.
-/

namespace Ring

variable {α : Type} {slots : List α} {head len : Nat}

/-- The contents of `len` slots from `head` on. -/
def read (slots : List α) (head len : Nat) : List α :=
  (List.range len).filterMap fun i => slots[(head + i) % slots.length]?

/-- Reading a ring finds a slot at every position. -/
theorem read_eq_map (head len : Nat) (h : 0 < slots.length) :
    (read slots head len).map some
      = (List.range len).map fun i => slots[(head + i) % slots.length]? := by
  rw [read]
  induction len with
  | zero => rfl
  | succ len ih =>
      have hslot : slots[(head + len) % slots.length]? = some _ :=
        List.getElem?_eq_getElem (Nat.mod_lt _ h)
      rw [List.range_succ, List.filterMap_append, List.map_append, List.map_append, ih]
      simp [hslot]

@[simp] theorem length_read (h : 0 < slots.length) : (read slots head len).length = len := by
  have := congrArg List.length (read_eq_map head len h)
  simpa using this

theorem getElem?_read (h : 0 < slots.length) (i : Nat) :
    (read slots head len)[i]? = if i < len then slots[(head + i) % slots.length]? else none := by
  by_cases hi : i < len
  · have hmap := congrArg (·[i]?) (read_eq_map head len h)
    simp only [List.getElem?_map, List.getElem?_range hi] at hmap
    rw [if_pos hi]
    cases hread : (read slots head len)[i]? with
    | none => simp [hread] at hmap
    | some x => simpa [hread] using hmap
  · rw [if_neg hi, List.getElem?_eq_none (by rw [length_read h]; omega)]

/-- Two positions of a ring that are less than one turn apart are different slots. -/
theorem add_mod_ne {n i j : Nat} (hij : i < j) (hj : j < i + n) :
    (head + i) % n ≠ (head + j) % n := by
  intro h
  have hdvd : (head + j - (head + i)) % n = 0 := Nat.sub_mod_eq_zero_of_mod_eq h.symm
  rw [Nat.mod_eq_of_lt (by omega)] at hdvd
  omega

/-- Filling the next slot of a ring that has room. -/
theorem read_set_of_room (head : Nat) (hlen : len < slots.length) (x : α) :
    read (slots.set ((head + len) % slots.length) x) head (len + 1)
      = read slots head len ++ [x] := by
  have hpos : 0 < slots.length := by omega
  have hset : 0 < (slots.set ((head + len) % slots.length) x).length := by rwa [List.length_set]
  apply List.ext_getElem?
  intro i
  rw [getElem?_read hset, List.length_set]
  rcases Nat.lt_trichotomy i len with hi | rfl | hi
  · rw [if_pos (by omega), List.getElem?_append_left (by rwa [length_read hpos]),
      getElem?_read hpos, if_pos hi, List.getElem?_set_ne (add_mod_ne hi (by omega)).symm]
  · rw [if_pos (by omega), List.getElem?_append_right (Nat.le_of_eq (length_read hpos)),
      length_read hpos,
      List.getElem?_set_self (Nat.mod_lt _ hpos), Nat.sub_self]
    rfl
  · rw [if_neg (by omega), List.getElem?_eq_none (by simp [length_read hpos]; omega)]

/-- Overwriting the first slot of a full ring, and moving the head behind it. -/
theorem read_set_of_full (hhead : head < slots.length) (x : α) :
    read (slots.set head x) ((head + 1) % slots.length) slots.length
      = (read slots head slots.length).tail ++ [x] := by
  have hpos : 0 < slots.length := by omega
  have hset : 0 < (slots.set head x).length := by rwa [List.length_set]
  apply List.ext_getElem?
  intro i
  rw [getElem?_read hset, List.length_set, Nat.mod_add_mod, Nat.add_assoc, Nat.add_comm 1 i]
  have htail : (read slots head slots.length).tail.length = slots.length - 1 := by
    rw [List.length_tail, length_read hpos]
  rcases Nat.lt_trichotomy i (slots.length - 1) with hi | hi | hi
  · have hne : head ≠ (head + (i + 1)) % slots.length := by
      have hne : (head + 0) % slots.length ≠ (head + (i + 1)) % slots.length :=
        add_mod_ne (by omega) (by omega)
      rwa [Nat.add_zero, Nat.mod_eq_of_lt hhead] at hne
    rw [if_pos (by omega), List.getElem?_append_left (by omega), List.getElem?_tail,
      getElem?_read hpos, if_pos (by omega), List.getElem?_set_ne hne]
  · have hturn : (head + (i + 1)) % slots.length = head := by
      rw [hi, Nat.sub_add_cancel hpos, Nat.add_mod_right, Nat.mod_eq_of_lt hhead]
    rw [if_pos (by omega), List.getElem?_append_right (by omega), htail, hturn,
      List.getElem?_set_self hhead, hi, Nat.sub_self]
    rfl
  · rw [if_neg (by omega), List.getElem?_eq_none (by simp [htail]; omega)]

end Ring
