import Mathlib.Data.List.Induction
import Mathlib.Tactic.Ring

/-!
# Tallies

A list of keys and numbers, whose keys ascend strictly, to which amounts are added key by key. A
tally of some entries has each of their keys once, with the sum of its amounts.
-/

namespace Sorted

variable {κ : Type} [DecidableEq κ] {k : κ} {n : Nat} {tally entries : List (κ × Nat)}

/-- The amount of a key in some entries. -/
def amount (k : κ) (entries : List (κ × Nat)) : Nat :=
  ((entries.filter fun entry => entry.1 = k).map Prod.snd).sum

theorem amount_cons (entry : κ × Nat) (rest : List (κ × Nat)) :
    amount k (entry :: rest) = (if entry.1 = k then entry.2 else 0) + amount k rest := by
  rw [amount, List.filter_cons]
  by_cases h : entry.1 = k
  · rw [if_pos (by simpa using h), if_pos h, List.map_cons, List.sum_cons]
    rfl
  · rw [if_neg (by simpa using h), if_neg h, Nat.zero_add]
    rfl

variable [LT κ] [DecidableLT κ]

/-- Adds an amount to a key, which starts from zero. -/
def tallyAdd (k : κ) (n : Nat) : List (κ × Nat) → List (κ × Nat)
  | [] => [(k, n)]
  | entry :: rest =>
      if k < entry.1 then (k, n) :: entry :: rest
      else if k = entry.1 then (k, entry.2 + n) :: rest
      else entry :: tallyAdd k n rest

/-- The tally of some entries. -/
def tallyOf (entries : List (κ × Nat)) : List (κ × Nat) :=
  entries.foldl (fun tally entry => tallyAdd entry.1 entry.2 tally) []

theorem mem_keys_tally_add {key : κ} :
    key ∈ (tallyAdd k n tally).map Prod.fst ↔ key = k ∨ key ∈ tally.map Prod.fst := by
  induction tally with
  | nil => simp [tallyAdd]
  | cons entry rest ih =>
      rw [tallyAdd]
      split
      · rw [List.map_cons, List.mem_cons]
      · split
        · next heq => simp [heq]
        · rw [List.map_cons, List.mem_cons, ih, List.map_cons, List.mem_cons, or_left_comm]

theorem amount_tally_add {key : κ} :
    amount key (tallyAdd k n tally) = amount key tally + if k = key then n else 0 := by
  induction tally with
  | nil => rw [tallyAdd, amount_cons, Nat.add_comm]
  | cons entry rest ih =>
      rw [tallyAdd]
      split
      · rw [amount_cons, Nat.add_comm]
      · split
        · next heq =>
            rw [amount_cons, amount_cons, heq]
            split
            · exact Nat.add_right_comm _ _ _
            · rfl
        · rw [amount_cons, amount_cons, ih, Nat.add_assoc]

theorem tally_of_append (entry : κ × Nat) :
    tallyOf (entries ++ [entry]) = tallyAdd entry.1 entry.2 (tallyOf entries) := by
  rw [tallyOf, List.foldl_append]
  rfl

theorem mem_keys_tally_of : k ∈ (tallyOf entries).map Prod.fst ↔ k ∈ entries.map Prod.fst := by
  induction entries using List.reverseRecOn with
  | nil => exact Iff.rfl
  | append_singleton entries entry ih =>
      rw [tally_of_append, mem_keys_tally_add, ih, List.map_append, List.mem_append, or_comm]
      simp

theorem amount_tally_of : amount k (tallyOf entries) = amount k entries := by
  induction entries using List.reverseRecOn with
  | nil => rfl
  | append_singleton entries entry ih =>
      have happend : amount k (entries ++ [entry]) = amount k entries + amount k [entry] := by
        rw [amount, List.filter_append, List.map_append, List.sum_append]
        rfl
      rw [tally_of_append, amount_tally_add, ih, happend, amount_cons]
      rfl

/-! ## Ascending keys -/

variable [LE κ] [Std.LawfulOrderLT κ] [Std.IsLinearOrder κ]

theorem pairwise_tally_add (h : (tally.map Prod.fst).Pairwise (· < ·)) :
    ((tallyAdd k n tally).map Prod.fst).Pairwise (· < ·) := by
  induction tally with
  | nil => exact List.pairwise_singleton _ _
  | cons entry rest ih =>
      rw [List.map_cons, List.pairwise_cons] at h
      rw [tallyAdd]
      split
      · next hlt =>
          rw [List.map_cons, List.map_cons, List.pairwise_cons, List.pairwise_cons]
          refine ⟨fun key hkey => ?_, h⟩
          rcases List.mem_cons.mp hkey with rfl | hkey
          · exact hlt
          · exact Std.lt_trans hlt (h.1 key hkey)
      · split
        · next heq =>
            rw [List.map_cons, List.pairwise_cons]
            exact ⟨fun key hkey => heq ▸ h.1 key hkey, h.2⟩
        · next hnlt hne =>
            rw [List.map_cons, List.pairwise_cons]
            refine ⟨fun key hkey => ?_, ih h.2⟩
            rcases mem_keys_tally_add.mp hkey with rfl | hkey
            · exact Std.lt_of_le_of_ne (Std.not_lt.mp hnlt) (Ne.symm hne)
            · exact h.1 key hkey

theorem pairwise_tally_of (entries : List (κ × Nat)) :
    ((tallyOf entries).map Prod.fst).Pairwise (· < ·) := by
  induction entries using List.reverseRecOn with
  | nil => exact .nil
  | append_singleton entries entry ih =>
      rw [tally_of_append]
      exact pairwise_tally_add ih

omit [DecidableLT κ] [Std.IsLinearOrder κ] in
/-- Where every key stands once, it stands with its amount. -/
theorem mem_iff_amount (h : (tally.map Prod.fst).Pairwise (· < ·)) :
    (k, n) ∈ tally ↔ k ∈ tally.map Prod.fst ∧ n = amount k tally := by
  induction tally with
  | nil => simp
  | cons entry rest ih =>
      rw [List.map_cons, List.pairwise_cons] at h
      have hzero (hk : k ∉ rest.map Prod.fst) : amount k rest = 0 := by
        rw [amount, List.filter_eq_nil_iff.mpr]
        · rfl
        · intro other hmem heq
          exact hk (List.mem_map.mpr ⟨other, hmem, by simpa using heq⟩)
      rw [List.mem_cons, ih h.2, List.map_cons, List.mem_cons, amount_cons]
      by_cases heq : entry.1 = k
      · have hk : k ∉ rest.map Prod.fst := fun hmem => Std.lt_irrefl (heq ▸ h.1 k hmem)
        rw [if_pos heq, hzero hk, Nat.add_zero]
        constructor
        · rintro (rfl | ⟨hmem, -⟩)
          · exact ⟨.inl rfl, rfl⟩
          · exact absurd hmem hk
        · rintro ⟨-, rfl⟩
          exact .inl (by rw [← heq])
      · rw [if_neg heq, Nat.zero_add]
        constructor
        · rintro (rfl | ⟨hmem, hn⟩)
          · exact absurd rfl heq
          · exact ⟨.inr hmem, hn⟩
        · rintro ⟨rfl | hmem, hn⟩
          · exact absurd rfl heq
          · exact .inr ⟨hmem, hn⟩

/-- A tally has each key of its entries once, with the amount of the key. -/
theorem mem_tally_of :
    (k, n) ∈ tallyOf entries ↔ k ∈ entries.map Prod.fst ∧ n = amount k entries := by
  rw [mem_iff_amount (pairwise_tally_of entries), mem_keys_tally_of, amount_tally_of]

end Sorted
