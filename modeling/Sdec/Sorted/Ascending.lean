import Mathlib.Data.List.Basic
import Mathlib.Data.List.Pairwise

/-!
# Ascending lists

A loop that compares each key with the one before it, and starts with a previous key or none.
`AscendFrom r prev keys` is what such a loop accepts, and `ascend_from_cons` is one iteration.
-/

namespace Sorted

variable {κ : Type} {r : κ → κ → Prop} {prev : Option κ} {k : κ} {ks : List κ}

/-- The keys ascend, from the one before if there is one. -/
def AscendFrom (r : κ → κ → Prop) (prev : Option κ) (keys : List κ) : Prop :=
  (prev.toList ++ keys).Pairwise r

@[simp] theorem ascend_from_nil : AscendFrom r prev [] := by
  cases prev <;> simp [AscendFrom]

theorem ascend_from_none : AscendFrom r none ks ↔ ks.Pairwise r := Iff.rfl

/-- Keys ascend when the first comes after the one before, and the others ascend from it. -/
theorem ascend_from_cons (htrans : ∀ a b c, r a b → r b c → r a c) :
    AscendFrom r prev (k :: ks) ↔ (∀ p, prev = some p → r p k) ∧ AscendFrom r (some k) ks := by
  cases prev with
  | none => exact ⟨fun h => ⟨fun p hp => (nomatch hp), h⟩, fun h => h.2⟩
  | some p =>
      refine ⟨fun h => ?_, fun h => ?_⟩
      · have h := List.pairwise_cons.mp h
        exact ⟨fun q hq => Option.some.inj hq ▸ h.1 k List.mem_cons_self, h.2⟩
      · refine List.pairwise_cons.mpr ⟨fun q hq => ?_, h.2⟩
        have hp := h.1 p rfl
        rcases List.mem_cons.mp hq with rfl | hq
        · exact hp
        · exact htrans _ _ _ hp ((List.pairwise_cons.mp h.2).1 q hq)

/-- A list of ascending numbers from `lower` on is no longer than its range. -/
theorem length_le_of_ascending {ns : List Nat} {lower upper : Nat} (h : ns.Pairwise (· < ·))
    (hlower : ∀ n ∈ ns, lower ≤ n) (hupper : ∀ n ∈ ns, n < upper) :
    ns.length ≤ upper - lower := by
  induction ns generalizing lower with
  | nil => exact Nat.zero_le _
  | cons n ns ih =>
      have hn := List.pairwise_cons.mp h
      have hrest := @ih (n + 1) hn.2 (fun m hm => hn.1 m hm)
        fun m hm => hupper m (List.mem_cons_of_mem _ hm)
      have hlow := hlower n List.mem_cons_self
      have hup := hupper n List.mem_cons_self
      rw [List.length_cons]
      omega

/-- Storing over the element with a key changes that element and no other. -/
theorem set_eq_map_of_key {α : Type} [DecidableEq κ] {key : α → κ} {xs : List α}
    (hxs : xs.Pairwise fun a b => key a ≠ key b) {i : Nat} {x : α} (hi : xs[i]? = some x) (y : α) :
    xs.set i y = xs.map fun a => if key a = key x then y else a := by
  refine List.ext_getElem? fun j => ?_
  obtain ⟨hlt, rfl⟩ := List.getElem?_eq_some_iff.mp hi
  rw [List.getElem?_set, List.getElem?_map]
  by_cases hij : i = j
  · subst hij
    rw [if_pos rfl, if_pos hlt, List.getElem?_eq_getElem hlt, Option.map_some, if_pos rfl]
  · rw [if_neg hij]
    cases hj : xs[j]? with
    | none => rfl
    | some a =>
        obtain ⟨hlen, rfl⟩ := List.getElem?_eq_some_iff.mp hj
        have hkey : key xs[j] ≠ key xs[i] := by
          rcases Nat.lt_or_gt_of_ne hij with h | h
          · exact (List.pairwise_iff_getElem.mp hxs i j hlt hlen h).symm
          · exact List.pairwise_iff_getElem.mp hxs j i hlen hlt h
        rw [Option.map_some, if_neg hkey]

/-- What is in a list after a store over the element with a key. -/
theorem mem_set_of_key {α : Type} [DecidableEq κ] {key : α → κ} {xs : List α}
    (hxs : xs.Pairwise fun a b => key a ≠ key b) {i : Nat} {x : α}
    (hi : xs[i]? = some x) {y a : α} :
    a ∈ xs.set i y ↔ a = y ∨ a ∈ xs ∧ key a ≠ key x := by
  rw [set_eq_map_of_key hxs hi, List.mem_map]
  constructor
  · intro h
    obtain ⟨b, hb, rfl⟩ := h
    by_cases hkey : key b = key x
    · rw [if_pos hkey]
      exact .inl rfl
    · rw [if_neg hkey]
      exact .inr ⟨hb, hkey⟩
  · intro h
    rcases h with rfl | ⟨ha, hkey⟩
    · exact ⟨x, List.mem_of_getElem? hi, if_pos rfl⟩
    · exact ⟨a, ha, if_neg hkey⟩

/-- A store that keeps the key keeps all keys. -/
theorem map_set_of_key {α : Type} {key : α → κ} {xs : List α} {i : Nat} {x : α}
    (hi : xs[i]? = some x) {y : α} (hy : key y = key x) : (xs.set i y).map key = xs.map key := by
  obtain ⟨hlt, rfl⟩ := List.getElem?_eq_some_iff.mp hi
  rw [List.map_set, hy]
  refine List.ext_getElem? fun j => ?_
  rw [List.getElem?_set, List.getElem?_map]
  by_cases hij : i = j
  · subst hij
    rw [if_pos rfl, List.length_map, if_pos hlt, List.getElem?_eq_getElem hlt]
    rfl
  · rw [if_neg hij]

/-! ## Lists that ascend by a key -/

section Key

variable {α : Type} [LT κ] [LE κ] [Std.LawfulOrderLT κ] {key : α → κ} {xs ys : List α}

/-- Elements with the same key are the same. -/
theorem eq_of_key_eq (hxs : xs.Pairwise fun a b => key a < key b) {a b : α} (ha : a ∈ xs)
    (hb : b ∈ xs) (hkey : key a = key b) : a = b := by
  by_contra hne
  have hkeys : xs.Pairwise fun a b => key a ≠ key b := hxs.imp Std.ne_of_lt
  have : Std.Symm fun a b : α => key a ≠ key b := ⟨fun _ _ h => h.symm⟩
  exact hkeys.forall ha hb hne hkey

/-- Ascending lists with the same elements are the same. -/
theorem eq_of_mem_iff (hxs : xs.Pairwise fun a b => key a < key b)
    (hys : ys.Pairwise fun a b => key a < key b) (h : ∀ a, a ∈ xs ↔ a ∈ ys) : xs = ys := by
  have hne {a b : α} (hlt : key a < key b) : a ≠ b := fun heq => Std.lt_irrefl (heq ▸ hlt)
  have hperm := (List.perm_ext_iff_of_nodup (hxs.imp hne) (hys.imp hne)).mpr h
  exact hperm.eq_of_pairwise (fun a b _ _ hab hba => absurd hba (Std.not_gt_of_lt hab)) hxs hys

/-- The elements before an element of an ascending list are the ones with a smaller key. -/
theorem mem_take_iff [DecidableLT κ] (hxs : xs.Pairwise fun a b => key a < key b)
    {n : Nat} {x : α} :
    x ∈ xs.take n ↔ x ∈ xs ∧ (xs.filter fun a => key a < key x).length < n := by
  induction xs generalizing n with
  | nil => simp
  | cons a xs ih =>
      obtain ⟨ha, hrest⟩ := List.pairwise_cons.mp hxs
      cases n with
      | zero => simp
      | succ n =>
          rw [List.take_succ_cons, List.mem_cons, List.mem_cons, ih hrest]
          by_cases hxa : x = a
          · subst hxa
            have hnone : xs.filter (fun b => key b < key x) = [] :=
              List.filter_eq_nil_iff.mpr fun b hb => by simpa using Std.not_gt_of_lt (ha b hb)
            simp [hnone, Std.lt_irrefl]
          · by_cases hx : x ∈ xs
            · simp [hxa, hx, ha x hx]
            · simp [hxa, hx]

end Key

end Sorted
