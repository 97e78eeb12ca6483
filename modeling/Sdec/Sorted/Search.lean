import Mathlib.Data.List.Basic

/-!
# Binary search

`binarySearchBy key xs k` halves a window of `xs` until it finds an element with key `k`. On a list
that ascends strictly by key it finds the one element with that key, if there is one.
-/

namespace Sorted

variable {α κ : Type} [LT κ] [DecidableLT κ]

/-- The search in the window of `size` elements from `start` on, with a bound on the halvings. -/
def binarySearchLoop (key : α → κ) (xs : List α) (k : κ) : Nat → Nat → Nat → Option Nat
  | 0, _, _ => none
  | fuel + 1, start, size =>
      if size = 0 then none
      else
        match xs[start + size / 2]? with
        | none => none
        | some x =>
            if key x < k then
              binarySearchLoop key xs k fuel (start + size / 2 + 1) (size - size / 2 - 1)
            else if k < key x then binarySearchLoop key xs k fuel start (size / 2)
            else some (start + size / 2)

/-- The position of an element with key `k`. -/
def binarySearchBy (key : α → κ) (xs : List α) (k : κ) : Option Nat :=
  binarySearchLoop key xs k (xs.length + 1) 0 xs.length

variable [LE κ] [Std.LawfulOrderLT κ] {key : α → κ} {xs : List α} {k : κ}

/-- The search finds the element at `i` whenever `i` lies in its window. -/
theorem binary_search_loop_eq (hxs : xs.Pairwise fun a b => key a < key b) {i : Nat} {x : α}
    (hi : xs[i]? = some x) (hx : key x = k) (fuel start size : Nat) (hfuel : size < fuel)
    (hstart : start ≤ i) (hsize : i < start + size) (hlen : start + size ≤ xs.length) :
    binarySearchLoop key xs k fuel start size = some i := by
  have hlt {m n : Nat} {a b : α} (ha : xs[m]? = some a) (hb : xs[n]? = some b) (h : m < n) :
      key a < key b := by
    obtain ⟨hm, rfl⟩ := List.getElem?_eq_some_iff.mp ha
    obtain ⟨hn, rfl⟩ := List.getElem?_eq_some_iff.mp hb
    exact List.pairwise_iff_getElem.mp hxs m n hm hn h
  induction fuel generalizing start size with
  | zero => exact absurd hfuel (Nat.not_lt_zero _)
  | succ fuel ih =>
      have hmid : start + size / 2 < xs.length := by omega
      have hy : xs[start + size / 2]? = some xs[start + size / 2] := List.getElem?_eq_getElem hmid
      rw [binarySearchLoop, if_neg (by omega), hy]
      rcases Nat.lt_trichotomy (start + size / 2) i with h | h | h
      · have hless := hlt hy hi h
        rw [hx] at hless
        simp only [if_pos hless]
        exact ih _ _ (by omega) (by omega) (by omega) (by omega)
      · have hsame : key xs[start + size / 2] = k := by
          rw [← h, hy] at hi
          rw [Option.some.inj hi, hx]
        simp only [hsame, if_neg (Std.lt_irrefl (a := k))]
        exact congrArg some h
      · have hless := hlt hi hy h
        rw [hx] at hless
        simp only [if_neg (Std.not_gt_of_lt hless), if_pos hless]
        exact ih _ _ (by omega) hstart (by omega) (by omega)

variable [Std.IsLinearOrder κ]

/-- What the search finds has the key. -/
theorem binary_search_loop_sound {fuel start size i : Nat}
    (h : binarySearchLoop key xs k fuel start size = some i) : ∃ x, xs[i]? = some x
      ∧ key x = k := by
  induction fuel generalizing start size with
  | zero => cases h
  | succ fuel ih =>
      rw [binarySearchLoop] at h
      split at h
      · cases h
      · split at h
        · cases h
        next x hx =>
          split at h
          · exact ih h
          next hless =>
            split at h
            · exact ih h
            next hmore =>
              cases h
              exact ⟨x, hx, Std.le_antisymm (Std.not_lt.mp hmore) (Std.not_lt.mp hless)⟩

/-- On an ascending list the search finds the position of the element with the key. -/
theorem binary_search_by_eq_some (hxs : xs.Pairwise fun a b => key a < key b) {i : Nat} :
    binarySearchBy key xs k = some i ↔ ∃ x, xs[i]? = some x ∧ key x = k := by
  refine ⟨binary_search_loop_sound, fun ⟨x, hi, hx⟩ => ?_⟩
  have hlt : i < xs.length := (List.getElem?_eq_some_iff.mp hi).1
  exact binary_search_loop_eq hxs hi hx _ 0 _ (Nat.lt_succ_self _) (Nat.zero_le _)
    (by omega) (by omega)

/-! ## Linear search -/

section Linear

omit [LT κ] [DecidableLT κ] [LE κ] [Std.LawfulOrderLT κ] [Std.IsLinearOrder κ]

variable {p : α → Bool} {x : α}

/-- A search for an element that at most one element can be finds it. -/
theorem find_eq_some_of_unique (hunique : ∀ a ∈ xs, ∀ b ∈ xs, p a → p b → a = b) :
    xs.find? p = some x ↔ x ∈ xs ∧ p x := by
  refine ⟨fun h => ⟨List.mem_of_find?_eq_some h, List.find?_some h⟩, fun ⟨hx, hp⟩ => ?_⟩
  cases hfind : xs.find? p with
  | none => exact absurd hp (List.find?_eq_none.mp hfind x hx)
  | some y => rw [hunique y (List.mem_of_find?_eq_some hfind) x hx (List.find?_some hfind) hp]

/-- A search from the end of an ordered list finds the last element with a property. -/
theorem find_reverse_eq_some {r : α → α → Prop} (hasymm : ∀ a b, r a b → ¬ r b a)
    (hxs : xs.Pairwise r) :
    xs.reverse.find? p = some x ↔ x ∈ xs ∧ p x ∧ ∀ y ∈ xs, p y → y = x ∨ r y x := by
  have hfound {x : α} (h : xs.reverse.find? p = some x) :
      x ∈ xs ∧ p x ∧ ∀ y ∈ xs, p y → y = x ∨ r y x := by
    obtain ⟨hp, front, back, hsplit, hfront⟩ := List.find?_eq_some_iff_append.mp h
    have hxs' : xs = back.reverse ++ x :: front.reverse := by
      rw [← List.reverse_reverse xs, hsplit]
      simp
    refine ⟨by rw [hxs']; simp, hp, fun y hy hpy => ?_⟩
    rw [hxs'] at hy hxs
    rcases List.mem_append.mp hy with hy | hy
    · exact .inr ((List.pairwise_append.mp hxs).2.2 y hy x List.mem_cons_self)
    · rcases List.mem_cons.mp hy with rfl | hy
      · exact .inl rfl
      · have := hfront y (List.mem_reverse.mp hy)
        simp [hpy] at this
  refine ⟨hfound, fun ⟨hx, hp, hlast⟩ => ?_⟩
  cases hfind : xs.reverse.find? p with
  | none => exact absurd hp (List.find?_eq_none.mp hfind x (List.mem_reverse.mpr hx))
  | some y =>
      obtain ⟨hy, hpy, hlast'⟩ := hfound hfind
      rcases hlast y hy hpy with rfl | hyx
      · rfl
      · rcases hlast' x hx hp with rfl | hxy
        · rfl
        · exact absurd hyx (hasymm x y hxy)

end Linear

end Sorted
