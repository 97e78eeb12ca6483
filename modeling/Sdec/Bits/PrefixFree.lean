import Sdec.Rust.Outcome

/-!
# Prefix-free serializations

A serialization is prefix-free when two values whose bytes start the same string are the same value,
so that serialized values can be put one behind the other without separators. Numbers of a fixed
width are prefix-free, and so are pairs and counted lists of prefix-free parts.
-/

namespace Bits

open Rust

variable {α β γ : Type} {p : α → Prop} {q : β → Prop}

/-- Among the values that satisfy `p`, the bytes of one value are not the start of the bytes of
another. -/
def PrefixFree (serialize : α → List UInt8) (p : α → Prop) : Prop :=
  ∀ a b s t, p a → p b → serialize a ++ s = serialize b ++ t → a = b ∧ s = t

/-- Whole byte strings tell the values apart. -/
theorem PrefixFree.eq_of_eq {serialize : α → List UInt8} (h : PrefixFree serialize p) {a b : α}
    (ha : p a) (hb : p b) (heq : serialize a = serialize b) : a = b := by
  obtain ⟨hvalue, _⟩ := h a b [] [] ha hb (congrArg (· ++ []) heq)
  exact hvalue

/-- A number of a fixed width. -/
theorem prefix_free_leBytes (width : Nat) : PrefixFree (leBytes width) (· < 256 ^ width) := by
  intro a b s t ha hb h
  obtain ⟨hbytes, hrest⟩ := List.append_inj h (by rw [length_leBytes, length_leBytes])
  have hvalue := congrArg leNat hbytes
  rw [leNat_leBytes ha, leNat_leBytes hb] at hvalue
  exact ⟨hvalue, hrest⟩

/-- A value that is serialized as a value it determines uniquely. -/
theorem PrefixFree.comap {serialize : α → List UInt8} (h : PrefixFree serialize p) {f : γ → α}
    (hf : Function.Injective f) : PrefixFree (fun c => serialize (f c)) fun c => p (f c) := by
  intro a b s t ha hb heq
  obtain ⟨hvalue, hrest⟩ := h _ _ s t ha hb heq
  exact ⟨hf hvalue, hrest⟩

/-- Two parts, one behind the other. -/
theorem PrefixFree.append {f : α → List UInt8} {g : β → List UInt8} (hf : PrefixFree f p)
    (hg : PrefixFree g q) :
    PrefixFree (fun c : α × β => f c.1 ++ g c.2) fun c => p c.1 ∧ q c.2 := by
  intro ⟨a, b⟩ ⟨a', b'⟩ s t ha hb h
  rw [List.append_assoc, List.append_assoc] at h
  obtain ⟨rfl, hsecond⟩ := hf a a' _ _ ha.1 hb.1 h
  obtain ⟨rfl, hrest⟩ := hg b b' _ _ ha.2 hb.2 hsecond
  exact ⟨rfl, hrest⟩

/-- As many entries in one list as in the other. -/
theorem PrefixFree.flatMap {serialize : α → List UInt8} (h : PrefixFree serialize p)
    {xs ys : List α} (hlength : xs.length = ys.length) (hxs : ∀ x ∈ xs, p x) (hys : ∀ y ∈ ys, p y)
    {s t : List UInt8} (heq : xs.flatMap serialize ++ s = ys.flatMap serialize ++ t) :
    xs = ys ∧ s = t := by
  induction xs generalizing ys with
  | nil =>
      cases ys with
      | nil => exact ⟨rfl, heq⟩
      | cons y ys => cases hlength
  | cons x xs ih =>
      cases ys with
      | nil => cases hlength
      | cons y ys =>
          rw [List.flatMap_cons, List.flatMap_cons, List.append_assoc, List.append_assoc] at heq
          obtain ⟨rfl, htail⟩ := h x y _ _ (hxs x List.mem_cons_self) (hys y List.mem_cons_self) heq
          obtain ⟨rfl, hrest⟩ := ih (Nat.succ.inj hlength)
            (fun x hx => hxs x (List.mem_cons_of_mem _ hx))
            (fun y hy => hys y (List.mem_cons_of_mem _ hy)) htail
          exact ⟨rfl, hrest⟩

/-- A list behind the number of its entries. -/
theorem PrefixFree.counted {serialize : α → List UInt8} (h : PrefixFree serialize p) (width : Nat) :
    PrefixFree (fun xs : List α => leBytes width xs.length ++ xs.flatMap serialize)
      fun xs => xs.length < 256 ^ width ∧ ∀ x ∈ xs, p x := by
  intro xs ys s t hxs hys heq
  rw [List.append_assoc, List.append_assoc] at heq
  obtain ⟨hlength, hentries⟩ := prefix_free_leBytes width _ _ _ _ hxs.1 hys.1 heq
  exact h.flatMap hlength hxs.2 hys.2 hentries

end Bits
