import Mathlib.Data.List.Basic
import Mathlib.Data.List.Forall2
import Mathlib.Data.List.Pairwise

/-!
# Walking two sorted lists

A merge loop walks two lists in step: it advances the side whose next element has the smaller key,
and both sides when the keys agree. `walk` is the list of the steps such a loop takes, so a loop
that accumulates or fails along the way is a fold over it. On lists that ascend strictly by key the
steps ascend strictly too, and a list of ascending steps is the walk of its two sides. The second
fact computes the walk of two lists that were themselves cut out of a walk.
-/

namespace Sorted

variable {α β γ δ κ : Type}

/-- One step of a merge loop. -/
inductive Step (α β : Type) where
  | left (a : α)
  | right (b : β)
  | both (a : α) (b : β)
  deriving DecidableEq, Repr

/-- The element that a step takes from the left. -/
def Step.first : Step α β → Option α
  | .left a => some a
  | .right _ => none
  | .both a _ => some a

/-- The element that a step takes from the right. -/
def Step.second : Step α β → Option β
  | .left _ => none
  | .right b => some b
  | .both _ b => some b

@[simp] theorem Step.first_left (a : α) : (Step.left a : Step α β).first = some a := rfl

@[simp] theorem Step.first_right (b : β) : (Step.right b : Step α β).first = none := rfl

@[simp] theorem Step.first_both (a : α) (b : β) : (Step.both a b).first = some a := rfl

@[simp] theorem Step.second_left (a : α) : (Step.left a : Step α β).second = none := rfl

@[simp] theorem Step.second_right (b : β) : (Step.right b : Step α β).second = some b := rfl

@[simp] theorem Step.second_both (a : α) (b : β) : (Step.both a b).second = some b := rfl

/-- The key of a step. -/
def Step.key (keyA : α → κ) (keyB : β → κ) : Step α β → κ
  | .left a => keyA a
  | .right b => keyB b
  | .both a _ => keyA a

/-- Steps of the same kind that take related elements. -/
def Step.Rel (R : α → α → Prop) (S : β → β → Prop) : Step α β → Step α β → Prop
  | .left a, .left a' => R a a'
  | .right b, .right b' => S b b'
  | .both a b, .both a' b' => R a a' ∧ S b b'
  | _, _ => False

@[elab_as_elim]
theorem Step.Rel.elim {R : α → α → Prop} {S : β → β → Prop} {motive : Step α β → Step α β → Prop}
    {x y : Step α β} (h : x.Rel R S y) (left : ∀ a a', R a a' → motive (.left a) (.left a'))
    (right : ∀ b b', S b b' → motive (.right b) (.right b'))
    (both : ∀ a b a' b', R a a' → S b b' → motive (.both a b) (.both a' b')) : motive x y := by
  cases x with
  | left a =>
      cases y with
      | left a' => exact left a a' h
      | right b' => exact False.elim h
      | both a' b' => exact False.elim h
  | right b =>
      cases y with
      | left a' => exact False.elim h
      | right b' => exact right b b' h
      | both a' b' => exact False.elim h
  | both a b =>
      cases y with
      | left a' => exact False.elim h
      | right b' => exact False.elim h
      | both a' b' => exact both a b a' b' h.1 h.2

section Walk

variable [LT κ] [DecidableLT κ] (keyA : α → κ) (keyB : β → κ)

/-- The steps from `x` in front of a left list, when `next` are the steps from behind it. -/
def walkFrom (x : α) (next : List β → List (Step α β)) : List β → List (Step α β)
  | [] => .left x :: next []
  | y :: ys =>
      if keyA x < keyB y then .left x :: next (y :: ys)
      else if keyB y < keyA x then .right y :: walkFrom x next ys
      else .both x y :: next ys

/-- The steps of a merge loop over two lists. -/
def walk : List α → List β → List (Step α β)
  | [] => fun ys => ys.map .right
  | x :: xs => walkFrom keyA keyB x (walk xs)

variable {keyA keyB} {x : α} {xs : List α} {y : β} {ys : List β}

theorem walk_nil (ys : List β) : walk keyA keyB [] ys = ys.map .right := rfl

theorem walk_cons_nil (x : α) (xs : List α) :
    walk keyA keyB (x :: xs) [] = .left x :: walk keyA keyB xs [] := rfl

theorem walk_cons_cons (x : α) (xs : List α) (y : β) (ys : List β) :
    walk keyA keyB (x :: xs) (y :: ys)
      = if keyA x < keyB y then .left x :: walk keyA keyB xs (y :: ys)
        else if keyB y < keyA x then .right y :: walk keyA keyB (x :: xs) ys
        else .both x y :: walk keyA keyB xs ys := rfl

variable (keyA keyB) in
/-- Induction along the steps of a walk. -/
theorem walk_induction {motive : List α → List β → Prop}
    (nil : ∀ ys, motive [] ys)
    (cons_nil : ∀ x xs, motive xs [] → motive (x :: xs) [])
    (left : ∀ x xs y ys, keyA x < keyB y → motive xs (y :: ys) → motive (x :: xs) (y :: ys))
    (right : ∀ x xs y ys, ¬ keyA x < keyB y → keyB y < keyA x → motive (x :: xs) ys →
      motive (x :: xs) (y :: ys))
    (both : ∀ x xs y ys, ¬ keyA x < keyB y → ¬ keyB y < keyA x → motive xs ys →
      motive (x :: xs) (y :: ys)) (xs : List α) (ys : List β) : motive xs ys := by
  induction xs generalizing ys with
  | nil => exact nil ys
  | cons x xs ih =>
      induction ys with
      | nil => exact cons_nil x xs (ih [])
      | cons y ys ihy =>
          by_cases hlt : keyA x < keyB y
          · exact left x xs y ys hlt (ih _)
          · by_cases hgt : keyB y < keyA x
            · exact right x xs y ys hlt hgt ihy
            · exact both x xs y ys hlt hgt (ih ys)

/-- Lists of related elements with the same keys are walked in related steps. -/
theorem forall₂_walk {R : α → α → Prop} {S : β → β → Prop} (hR : ∀ a a', R a a' → keyA a = keyA a')
    (hS : ∀ b b', S b b' → keyB b = keyB b') {xs' : List α} {ys' : List β}
    (hxs : List.Forall₂ R xs xs') (hys : List.Forall₂ S ys ys') :
    List.Forall₂ (Step.Rel R S) (walk keyA keyB xs ys) (walk keyA keyB xs' ys') := by
  induction xs, ys using walk_induction keyA keyB generalizing xs' ys' with
  | nil ys =>
      cases hxs
      rw [walk_nil, walk_nil, List.forall₂_map_left_iff, List.forall₂_map_right_iff]
      exact hys
  | cons_nil x xs ih =>
      cases hys
      cases hxs with
      | cons hx hxs => exact .cons hx (ih hxs .nil)
  | left x xs y ys hlt ih =>
      cases hxs with
      | cons hx hxs =>
        cases hys with
        | cons hy hys =>
          rw [walk_cons_cons, walk_cons_cons, ← hR _ _ hx, ← hS _ _ hy, if_pos hlt, if_pos hlt]
          exact .cons hx (ih hxs (.cons hy hys))
  | right x xs y ys hlt hgt ih =>
      cases hxs with
      | cons hx hxs =>
        cases hys with
        | cons hy hys =>
          rw [walk_cons_cons, walk_cons_cons, ← hR _ _ hx, ← hS _ _ hy, if_neg hlt, if_pos hgt,
            if_neg hlt, if_pos hgt]
          exact .cons hy (ih (.cons hx hxs) hys)
  | both x xs y ys hlt hgt ih =>
      cases hxs with
      | cons hx hxs =>
        cases hys with
        | cons hy hys =>
          rw [walk_cons_cons, walk_cons_cons, ← hR _ _ hx, ← hS _ _ hy, if_neg hlt, if_neg hgt,
            if_neg hlt, if_neg hgt]
          exact .cons ⟨hx, hy⟩ (ih hxs hys)

variable (keyA keyB) in
/-- A walk takes every element of the left list, in order. -/
theorem filterMap_first_walk (xs : List α) (ys : List β) :
    (walk keyA keyB xs ys).filterMap Step.first = xs := by
  induction xs, ys using walk_induction keyA keyB with
  | nil ys => simp [walk_nil, List.filterMap_map, Function.comp_def]
  | cons_nil x xs ih => rw [walk_cons_nil, List.filterMap_cons, Step.first_left, ih]
  | left x xs y ys hlt ih =>
      rw [walk_cons_cons, if_pos hlt, List.filterMap_cons, Step.first_left, ih]
  | right x xs y ys hlt hgt ih =>
      rw [walk_cons_cons, if_neg hlt, if_pos hgt, List.filterMap_cons, Step.first_right, ih]
  | both x xs y ys hlt hgt ih =>
      rw [walk_cons_cons, if_neg hlt, if_neg hgt, List.filterMap_cons, Step.first_both, ih]

variable (keyA keyB) in
/-- A walk takes every element of the right list, in order. -/
theorem filterMap_second_walk (xs : List α) (ys : List β) :
    (walk keyA keyB xs ys).filterMap Step.second = ys := by
  induction xs, ys using walk_induction keyA keyB with
  | nil ys => simp [walk_nil, List.filterMap_map, Function.comp_def]
  | cons_nil x xs ih => rw [walk_cons_nil, List.filterMap_cons, Step.second_left, ih]
  | left x xs y ys hlt ih =>
      rw [walk_cons_cons, if_pos hlt, List.filterMap_cons, Step.second_left, ih]
  | right x xs y ys hlt hgt ih =>
      rw [walk_cons_cons, if_neg hlt, if_pos hgt, List.filterMap_cons, Step.second_right, ih]
  | both x xs y ys hlt hgt ih =>
      rw [walk_cons_cons, if_neg hlt, if_neg hgt, List.filterMap_cons, Step.second_both, ih]

theorem mem_of_first {t : Step α β} (ht : t ∈ walk keyA keyB xs ys) {a : α}
    (ha : t.first = some a) : a ∈ xs :=
  filterMap_first_walk keyA keyB xs ys ▸ List.mem_filterMap.mpr ⟨t, ht, ha⟩

theorem mem_of_second {t : Step α β} (ht : t ∈ walk keyA keyB xs ys) {b : β}
    (hb : t.second = some b) : b ∈ ys :=
  filterMap_second_walk keyA keyB xs ys ▸ List.mem_filterMap.mpr ⟨t, ht, hb⟩

/-- A walk takes two elements together only where neither key is before the other. -/
theorem not_lt_of_mem_walk {a : α} {b : β} (h : .both a b ∈ walk keyA keyB xs ys) :
    ¬ keyA a < keyB b ∧ ¬ keyB b < keyA a := by
  induction xs, ys using walk_induction keyA keyB with
  | nil ys =>
      obtain ⟨y, _, hy⟩ := List.mem_map.mp h
      cases hy
  | cons_nil x xs ih =>
      rw [walk_cons_nil] at h
      exact ih ((List.mem_cons.mp h).resolve_left fun heq => by cases heq)
  | left x xs y ys hlt ih =>
      rw [walk_cons_cons, if_pos hlt] at h
      exact ih ((List.mem_cons.mp h).resolve_left fun heq => by cases heq)
  | right x xs y ys hlt hgt ih =>
      rw [walk_cons_cons, if_neg hlt, if_pos hgt] at h
      exact ih ((List.mem_cons.mp h).resolve_left fun heq => by cases heq)
  | both x xs y ys hlt hgt ih =>
      rw [walk_cons_cons, if_neg hlt, if_neg hgt] at h
      rcases List.mem_cons.mp h with heq | hrest
      · cases heq
        exact ⟨hlt, hgt⟩
      · exact ih hrest

variable (keyA keyB) in
theorem exists_step_of_first (ys : List β) {a : α} (ha : a ∈ xs) :
    ∃ t ∈ walk keyA keyB xs ys, t.first = some a :=
  List.mem_filterMap.mp ((filterMap_first_walk keyA keyB xs ys).symm ▸ ha)

variable (keyA keyB) in
theorem exists_step_of_second (xs : List α) {b : β} (hb : b ∈ ys) :
    ∃ t ∈ walk keyA keyB xs ys, t.second = some b :=
  List.mem_filterMap.mp ((filterMap_second_walk keyA keyB xs ys).symm ▸ hb)

end Walk

/-! ## Ascending steps -/

/-- Steps that ascend strictly by key, where both sides of a step have the same key. -/
structure Aligned [LT κ] (keyA : α → κ) (keyB : β → κ) (steps : List (Step α β)) : Prop where
  keys : ∀ a b, .both a b ∈ steps → keyA a = keyB b
  ascending : steps.Pairwise fun s t => s.key keyA keyB < t.key keyA keyB

section Aligned

variable [LT κ] {keyA : α → κ} {keyB : β → κ} {step : Step α β} {steps : List (Step α β)}

omit [LT κ] in
variable (keyA keyB) in
theorem Step.key_first {a : α} (ha : step.first = some a) : keyA a = step.key keyA keyB := by
  cases step with
  | left a' => cases ha; rfl
  | right b => cases ha
  | both a' b => cases ha; rfl

/-- The right side of an aligned step has its key, as the left one always does. -/
theorem Aligned.key_second (h : Aligned keyA keyB steps) (hstep : step ∈ steps) {b : β}
    (hb : step.second = some b) : keyB b = step.key keyA keyB := by
  cases step with
  | left a => cases hb
  | right b' => cases hb; rfl
  | both a b' => cases hb; exact (h.keys a b hstep).symm

end Aligned

section Order

variable [LT κ] [DecidableLT κ] [LE κ] [Std.LawfulOrderLT κ] [Std.IsLinearOrder κ]
  {keyA : α → κ} {keyB : β → κ} {xs : List α} {ys : List β}

/-- The walk of two ascending lists ascends. -/
theorem aligned_walk (hxs : xs.Pairwise fun a b => keyA a < keyA b)
    (hys : ys.Pairwise fun a b => keyB a < keyB b) : Aligned keyA keyB (walk keyA keyB xs ys) := by
  -- A step of the walk of two rests has a key above every key below both rests.
  have hbound (k : κ) {xs : List α} {ys : List β} (hx : ∀ x ∈ xs, k < keyA x)
      (hy : ∀ y ∈ ys, k < keyB y) (t : Step α β) (ht : t ∈ walk keyA keyB xs ys) :
      k < t.key keyA keyB := by
    cases t with
    | left a => exact hx a (mem_of_first ht rfl)
    | right b => exact hy b (mem_of_second ht rfl)
    | both a b => exact hx a (mem_of_first ht rfl)
  have hcons {step : Step α β} {steps : List (Step α β)} (hrest : Aligned keyA keyB steps)
      (hkey : ∀ a b, step = .both a b → keyA a = keyB b)
      (hlt : ∀ t ∈ steps, step.key keyA keyB < t.key keyA keyB) :
      Aligned keyA keyB (step :: steps) :=
    ⟨fun a b hmem => (List.mem_cons.mp hmem).elim (fun h => hkey a b h.symm) (hrest.keys a b),
      List.pairwise_cons.mpr ⟨hlt, hrest.ascending⟩⟩
  induction xs, ys using walk_induction keyA keyB with
  | nil ys =>
      rw [walk_nil]
      refine ⟨fun a b hmem => by simp at hmem, ?_⟩
      rw [List.pairwise_map]
      exact hys
  | cons_nil x xs ih =>
      have hx := List.pairwise_cons.mp hxs
      refine hcons (ih hx.2 hys) (fun a b h => nomatch h) ?_
      exact hbound (keyA x) hx.1 (fun y hy => nomatch hy)
  | left x xs y ys hlt ih =>
      have hx := List.pairwise_cons.mp hxs
      have hy := List.pairwise_cons.mp hys
      rw [walk_cons_cons, if_pos hlt]
      refine hcons (ih hx.2 hys) (fun a b h => nomatch h) (hbound (keyA x) hx.1 fun b hb => ?_)
      rcases List.mem_cons.mp hb with rfl | hb
      · exact hlt
      · exact Std.lt_trans hlt (hy.1 b hb)
  | right x xs y ys hlt hgt ih =>
      have hx := List.pairwise_cons.mp hxs
      have hy := List.pairwise_cons.mp hys
      rw [walk_cons_cons, if_neg hlt, if_pos hgt]
      refine hcons (ih hxs hy.2) (fun a b h => nomatch h) (hbound (keyB y) (fun a ha => ?_) hy.1)
      rcases List.mem_cons.mp ha with rfl | ha
      · exact hgt
      · exact Std.lt_trans hgt (hx.1 a ha)
  | both x xs y ys hlt hgt ih =>
      have hx := List.pairwise_cons.mp hxs
      have hy := List.pairwise_cons.mp hys
      have heq : keyA x = keyB y := Std.le_antisymm (Std.not_lt.mp hgt) (Std.not_lt.mp hlt)
      rw [walk_cons_cons, if_neg hlt, if_neg hgt]
      refine hcons (ih hx.2 hy.2) (fun a b h => by cases h; exact heq) ?_
      refine hbound (keyA x) hx.1 fun b hb => ?_
      rw [heq]
      exact hy.1 b hb

omit [DecidableLT κ] [Std.IsLinearOrder κ] in
/-- Steps with the same key are the same step. -/
theorem Aligned.eq_of_key_eq {steps : List (Step α β)} (h : Aligned keyA keyB steps)
    {s t : Step α β} (hs : s ∈ steps) (ht : t ∈ steps)
    (hkey : s.key keyA keyB = t.key keyA keyB) : s = t := by
  by_contra hne
  have hkeys : steps.Pairwise fun s t => s.key keyA keyB ≠ t.key keyA keyB :=
    h.ascending.imp Std.ne_of_lt
  have : Std.Symm fun s t : Step α β => s.key keyA keyB ≠ t.key keyA keyB := ⟨fun _ _ h => h.symm⟩
  exact hkeys.forall hs ht hne hkey

/-! ### The steps of a walk -/

variable (hxs : xs.Pairwise fun a b => keyA a < keyA b)
  (hys : ys.Pairwise fun a b => keyB a < keyB b)

include hxs hys

/-- A walk takes an element of the left list alone when the right list has none with its key. -/
theorem mem_walk_left {a : α} :
    .left a ∈ walk keyA keyB xs ys ↔ a ∈ xs ∧ ∀ b ∈ ys, keyB b ≠ keyA a := by
  have h := aligned_walk hxs hys
  constructor
  · intro hstep
    refine ⟨mem_of_first hstep rfl, fun b hb hkey => ?_⟩
    obtain ⟨t, ht, hsecond⟩ := exists_step_of_second keyA keyB xs hb
    have hsame := h.eq_of_key_eq ht hstep ((h.key_second ht hsecond).symm.trans hkey)
    rw [hsame] at hsecond
    cases hsecond
  · rintro ⟨ha, hno⟩
    obtain ⟨t, ht, hfirst⟩ := exists_step_of_first keyA keyB ys ha
    cases t with
    | left a' => cases hfirst; exact ht
    | right b => cases hfirst
    | both a' b =>
        cases hfirst
        exact absurd (h.keys _ _ ht).symm (hno b (mem_of_second ht rfl))

/-- A walk takes an element of the right list alone when the left list has none with its key. -/
theorem mem_walk_right {b : β} :
    .right b ∈ walk keyA keyB xs ys ↔ b ∈ ys ∧ ∀ a ∈ xs, keyA a ≠ keyB b := by
  have h := aligned_walk hxs hys
  constructor
  · intro hstep
    refine ⟨mem_of_second hstep rfl, fun a ha hkey => ?_⟩
    obtain ⟨t, ht, hfirst⟩ := exists_step_of_first keyA keyB ys ha
    have hsame := h.eq_of_key_eq ht hstep ((Step.key_first keyA keyB hfirst).symm.trans hkey)
    rw [hsame] at hfirst
    cases hfirst
  · rintro ⟨hb, hno⟩
    obtain ⟨t, ht, hsecond⟩ := exists_step_of_second keyA keyB xs hb
    cases t with
    | left a => cases hsecond
    | right b' => cases hsecond; exact ht
    | both a b' =>
        cases hsecond
        exact absurd (h.keys _ _ ht) (hno a (mem_of_first ht rfl))

/-- A walk takes two elements together when they have the same key. -/
theorem mem_walk_both {a : α} {b : β} :
    .both a b ∈ walk keyA keyB xs ys ↔ a ∈ xs ∧ b ∈ ys ∧ keyA a = keyB b := by
  have h := aligned_walk hxs hys
  constructor
  · intro hstep
    exact ⟨mem_of_first hstep rfl, mem_of_second hstep rfl, h.keys _ _ hstep⟩
  · rintro ⟨ha, hb, hkey⟩
    obtain ⟨s, hs, hfirst⟩ := exists_step_of_first keyA keyB ys ha
    obtain ⟨t, ht, hsecond⟩ := exists_step_of_second keyA keyB xs hb
    have hst := h.eq_of_key_eq hs ht (by
      rw [← Step.key_first keyA keyB hfirst, hkey, h.key_second ht hsecond])
    subst hst
    cases s with
    | left a' => cases hsecond
    | right b' => cases hfirst
    | both a' b' => cases hfirst; cases hsecond; exact hs

end Order

end Sorted
