import Sdec.Rust.Outcome
import Sdec.Sorted.Ascending

/-!
# Updates of a keyed list

A loop whose iterations each replace the elements of a list that have one key. If no key comes
twice, the loop replaces the elements that have any of the keys.
-/

namespace Sorted

open Rust

variable {κ α β ε : Type} [DecidableEq κ] {keyA : α → κ} {keyB : β → κ} {f : α → α}

/-- The induction on the updates: every element whose key is still to come is as it was. -/
theorem foldlM_replace_from {replace : List α → β → Except ε (List α)} {xs ys : List α}
    {updates : List β} (hkeys : ∀ a, keyA (f a) = keyA a)
    (hdistinct : updates.Pairwise fun u v => keyB u ≠ keyB v)
    (hreplace : ∀ u ∈ updates, ∀ ys, ys.map keyA = xs.map keyA →
      (∀ a ∈ ys, keyA a = keyB u → a ∈ xs) →
        replace ys u = .ok (ys.map fun a => if keyA a = keyB u then f a else a))
    (hsame : ys.map keyA = xs.map keyA)
    (hfresh : ∀ a ∈ ys, keyA a ∈ updates.map keyB → a ∈ xs) :
    updates.foldlM replace ys
      = .ok (ys.map fun a => if keyA a ∈ updates.map keyB then f a else a) := by
  induction updates generalizing ys with
  | nil => simp [pure, Except.pure]
  | cons u updates ih =>
      obtain ⟨hne, hrest⟩ := List.pairwise_cons.mp hdistinct
      have hu := hreplace u List.mem_cons_self ys hsame fun a ha hkey =>
        hfresh a ha (hkey ▸ List.mem_cons_self)
      have hlater {k : κ} (hk : k ∈ updates.map keyB) : k ≠ keyB u := by
        obtain ⟨v, hv, rfl⟩ := List.mem_map.mp hk
        exact (hne v hv).symm
      have hnext := @ih (ys.map fun a => if keyA a = keyB u then f a else a) hrest
        (fun v hv => hreplace v (List.mem_cons_of_mem _ hv)) ?_ ?_
      · rw [List.foldlM_cons, hu, ok_bind, hnext, List.map_map]
        refine congrArg Except.ok (List.map_congr_left fun a _ => ?_)
        rw [Function.comp_apply, List.map_cons]
        by_cases hau : keyA a = keyB u
        · rw [if_pos hau, hkeys, if_neg fun hin => hlater hin hau, hau, if_pos List.mem_cons_self]
        · rw [if_neg hau]
          simp only [List.mem_cons, hau, false_or]
      · rw [← hsame, List.map_map]
        refine List.map_congr_left fun a _ => ?_
        rw [Function.comp_apply]
        split
        · exact hkeys a
        · rfl
      · intro a ha hin
        obtain ⟨b, hb, rfl⟩ := List.mem_map.mp ha
        by_cases hbu : keyA b = keyB u
        · rw [if_pos hbu, hkeys] at hin
          exact absurd hbu (hlater hin)
        · rw [if_neg hbu] at hin ⊢
          exact hfresh b hb (List.mem_cons_of_mem _ hin)

/-- Updates with different keys, each of which replaces the elements with its key by `f` of them
where these are as they were at first. -/
theorem foldlM_replace_eq (keyA : α → κ) (keyB : β → κ) {replace : List α → β → Except ε (List α)}
    {xs : List α} {updates : List β} (hkeys : ∀ a, keyA (f a) = keyA a)
    (hdistinct : updates.Pairwise fun u v => keyB u ≠ keyB v)
    (hreplace : ∀ u ∈ updates, ∀ ys, ys.map keyA = xs.map keyA →
      (∀ a ∈ ys, keyA a = keyB u → a ∈ xs) →
        replace ys u = .ok (ys.map fun a => if keyA a = keyB u then f a else a)) :
    updates.foldlM replace xs
      = .ok (xs.map fun a => if keyA a ∈ updates.map keyB then f a else a) :=
  foldlM_replace_from hkeys hdistinct hreplace rfl fun _ ha _ => ha

end Sorted
