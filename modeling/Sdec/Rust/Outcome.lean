import Mathlib.Tactic.Ring

/-!
# Outcomes of Rust calls

A call either returns a value, returns an `Err`, or panics. `Outcome` is such a call without
mutable state, and `Call` is one on a `&mut` argument, whose state the caller still sees when the
call fails. Slice indexing, slicing, and the checked `usize` and `u32` sums panic as they do in
Rust. `Fault.map` is the error conversion that `?` inserts.

A `usize` is a natural number here. A sum that could reach `2 ^ 64` on some input is a `usizeAdd`,
which fails there in every build: the functions that add are shown never to reach that bound, so the
wrapping of a release build is not needed. Counts of things that are in memory are plain sums.
-/

namespace Rust

/-- How a call ends without a value: an `Err` carrying its error, or a panic. -/
inductive Fault (ε : Type) where
  | err (error : ε)
  | panic
  deriving DecidableEq, Repr

/-- The error conversion inserted by `?`. -/
def Fault.map {ε ε' : Type} (f : ε → ε') : Fault ε → Fault ε'
  | .err error => .err (f error)
  | .panic => .panic

instance decidableEqResult {ε σ α : Type} [DecidableEq ε] [DecidableEq σ] [DecidableEq α] :
    DecidableEq (EStateM.Result ε σ α)
  | .ok a s, .ok b t => decidable_of_iff (a = b ∧ s = t) (by rw [EStateM.Result.ok.injEq])
  | .error e s, .error f t => decidable_of_iff (e = f ∧ s = t) (by rw [EStateM.Result.error.injEq])
  | .ok _ _, .error _ _ => isFalse fun h => nomatch h
  | .error _ _, .ok _ _ => isFalse fun h => nomatch h

/-- A call without mutable state. -/
abbrev Outcome (ε α : Type) := Except (Fault ε) α

/-- A call on a `&mut σ`. -/
abbrev Call (ε σ α : Type) := EStateM (Fault ε) σ α

variable {ε ε' σ α β : Type} {m : Type → Type}

/-- The monads in which a call can fault. -/
class MonadFault (ε : outParam Type) (m : Type → Type) where
  fault {α : Type} : Fault ε → m α

export MonadFault (fault)

instance : MonadFault ε (Outcome ε) where
  fault := .error

instance : MonadFault ε (Call ε σ) where
  fault := throw

/-- `return Err(error)`. -/
def fail [MonadFault ε m] (error : ε) : m α := fault (.err error)

/-- A call without mutable state, used inside one that has some. -/
def liftOutcome (x : Outcome ε α) : Call ε σ α := fun s =>
  match x with
  | .ok a => .ok a s
  | .error e => .error e s

instance : MonadLift (Outcome ε) (Call ε σ) := ⟨liftOutcome⟩

/-- `x.map_err(f)?` on a call without mutable state. -/
def Outcome.mapErr (f : ε → ε') : Outcome ε α → Outcome ε' α
  | .ok a => .ok a
  | .error e => .error (e.map f)

/-- `x.map_err(f)?` on a call with mutable state. -/
def Call.mapErr (f : ε → ε') (x : Call ε σ α) : Call ε' σ α := fun s =>
  match x s with
  | .ok a s => .ok a s
  | .error e s => .error (e.map f) s

/-- A call on a local variable that starts as `s`, with the final contents of the variable. -/
def Call.runOn (x : Call ε σ α) (s : σ) : Outcome ε (α × σ) :=
  match x s with
  | .ok a s => .ok (a, s)
  | .error e _ => .error e

/-- A call on a local variable whose final contents nobody reads. -/
def Call.evalOn (x : Call ε σ α) (s : σ) : Outcome ε α :=
  match x s with
  | .ok a _ => .ok a
  | .error e _ => .error e

/-! ## Machine sizes -/

/-- `usize::MAX` on a 64-bit target. -/
def usizeMax : Nat := 2 ^ 64 - 1

/-- `isize::MAX`, the largest length of a byte slice. -/
def isizeMax : Nat := 2 ^ 63 - 1

/-- `usize::saturating_mul`. -/
def saturatingMul (a b : Nat) : Nat := min (a * b) usizeMax

section Checked

variable [Monad m] [MonadFault ε m]

/-- A `usize` sum, which panics on overflow. -/
def usizeAdd (a b : Nat) : m Nat :=
  if a + b ≤ usizeMax then pure (a + b) else fault .panic

/-- A `usize` difference, which panics below zero. -/
def usizeSub (a b : Nat) : m Nat :=
  if b ≤ a then pure (a - b) else fault .panic

/-- A `u32` difference, which panics below zero. -/
def u32Sub (a b : UInt32) : m UInt32 :=
  if b ≤ a then pure (a - b) else fault .panic

/-! ## Slices -/

/-- `xs[i]`. -/
def index (xs : List α) (i : Nat) : m α :=
  match xs[i]? with
  | some x => pure x
  | none => fault .panic

/-- `xs[i] = x`. -/
def store (xs : List α) (i : Nat) (x : α) : m (List α) :=
  if i < xs.length then pure (xs.set i x) else fault .panic

/-- `&xs[start..stop]`. -/
def slice (xs : List α) (start stop : Nat) : m (List α) :=
  if start ≤ stop ∧ stop ≤ xs.length then pure ((xs.take stop).drop start) else fault .panic

/-- `xs[start..start + ys.len()].copy_from_slice(ys)`. -/
def copyFromSlice (xs : List α) (start : Nat) (ys : List α) : m (List α) :=
  if start + ys.length ≤ xs.length then
    pure (xs.take start ++ ys ++ xs.drop (start + ys.length))
  else fault .panic

/-- `xs.copy_within(start..stop, dest)`. -/
def copyWithin (xs : List α) (start stop dest : Nat) : m (List α) := do
  let moved ← slice xs start stop
  copyFromSlice xs dest moved

end Checked

/-- `f(&mut xs[start..])`, for a callee that returns the new contents of its slice. -/
def withTail (xs : List α) (start : Nat) (f : List α → Outcome ε (β × List α)) :
    Outcome ε (β × List α) :=
  if start ≤ xs.length then do
    let (b, tail) ← f (xs.drop start)
    pure (b, xs.take start ++ tail)
  else fault .panic

/-! ## Little-endian bytes -/

/-- The number that little-endian bytes denote, as `from_le_bytes` reads them. -/
def leNat : List UInt8 → Nat
  | [] => 0
  | byte :: rest => byte.toNat + 256 * leNat rest

/-- The `width` little-endian bytes of a number, as `to_le_bytes` writes them. -/
def leBytes : Nat → Nat → List UInt8
  | 0, _ => []
  | width + 1, value => UInt8.ofNat value :: leBytes width (value / 256)

@[simp] theorem length_leBytes (width value : Nat) : (leBytes width value).length = width := by
  induction width generalizing value with
  | zero => rfl
  | succ width ih => simp [leBytes, ih]

theorem leNat_leBytes {width value : Nat} (h : value < 256 ^ width) :
    leNat (leBytes width value) = value := by
  induction width generalizing value with
  | zero => simp_all [leBytes, leNat]
  | succ width ih =>
      have hrest : value / 256 < 256 ^ width := by
        rw [Nat.div_lt_iff_lt_mul (by decide), ← Nat.pow_succ]
        exact h
      rw [leBytes, leNat, ih hrest]
      simp only [UInt8.toNat_ofNat']
      omega

theorem leNat_lt (bytes : List UInt8) : leNat bytes < 256 ^ bytes.length := by
  induction bytes with
  | nil => exact Nat.one_pos
  | cons byte bytes ih =>
      have hbyte := byte.toNat_lt
      rw [leNat, List.length_cons, Nat.pow_succ]
      omega

/-- `to_le_bytes` on `from_le_bytes`. -/
theorem leBytes_leNat (bytes : List UInt8) : leBytes bytes.length (leNat bytes) = bytes := by
  induction bytes with
  | nil => rfl
  | cons byte bytes ih =>
      have hbyte := byte.toNat_lt
      have hrest : (byte.toNat + 256 * leNat bytes) / 256 = leNat bytes := by omega
      rw [List.length_cons, leNat, leBytes, hrest, ih, UInt8.ofNat_add, UInt8.ofNat_toNat,
        UInt8.ofNat_mul]
      have hzero : UInt8.ofNat 256 = 0 := rfl
      rw [hzero, UInt8.zero_mul, UInt8.add_zero]

/-- `from_le_bytes` on `to_le_bytes`. -/
@[simp] theorem ofNat_leNat_leBytes_two (value : UInt16) :
    UInt16.ofNat (leNat (leBytes 2 value.toNat)) = value := by
  rw [leNat_leBytes value.toNat_lt, UInt16.ofNat_toNat]

@[simp] theorem ofNat_leNat_leBytes_four (value : UInt32) :
    UInt32.ofNat (leNat (leBytes 4 value.toNat)) = value := by
  rw [leNat_leBytes value.toNat_lt, UInt32.ofNat_toNat]

@[simp] theorem ofNat_leNat_leBytes_eight (value : UInt64) :
    UInt64.ofNat (leNat (leBytes 8 value.toNat)) = value := by
  rw [leNat_leBytes value.toNat_lt, UInt64.ofNat_toNat]

/-! ## Rewriting calls -/

@[simp] theorem pure_apply (a : α) (s : σ) : (pure a : Call ε σ α) s = .ok a s := rfl

@[simp] theorem bind_apply (x : Call ε σ α) (f : α → Call ε σ β) (s : σ) :
    (x >>= f) s = match x s with
      | .ok a s => f a s
      | .error e s => .error e s := by
  simp only [Bind.bind, EStateM.bind]
  cases x s <;> rfl

@[simp] theorem map_apply (f : α → β) (x : Call ε σ α) (s : σ) :
    (f <$> x) s = match x s with
      | .ok a s => .ok (f a) s
      | .error e s => .error e s := by
  simp only [Functor.map, EStateM.map]
  cases x s <;> rfl

@[simp] theorem get_apply (s : σ) : (get : Call ε σ σ) s = .ok s s := rfl

@[simp] theorem set_apply (s t : σ) : (set t : Call ε σ PUnit) s = .ok ⟨⟩ t := rfl

@[simp] theorem fault_apply (e : Fault ε) (s : σ) : (fault e : Call ε σ α) s = .error e s := rfl

@[simp] theorem fail_apply (e : ε) (s : σ) : (fail e : Call ε σ α) s = .error (.err e) s := rfl

@[simp] theorem lift_outcome_ok (a : α) (s : σ) :
    (liftOutcome (.ok a : Outcome ε α) : Call ε σ α) s = .ok a s := rfl

@[simp] theorem lift_outcome_error (e : Fault ε) (s : σ) :
    (liftOutcome (.error e : Outcome ε α) : Call ε σ α) s = .error e s := rfl

/-- The element at the front of a tail of a list, and the tail behind it. -/
theorem drop_eq_cons {xs rest : List α} {i : Nat} {x : α} (h : xs.drop i = x :: rest) :
    i < xs.length ∧ xs[i]? = some x ∧ xs.drop (i + 1) = rest := by
  have hsome : xs[i]? = some x := by
    rw [← Nat.add_zero i, ← List.getElem?_drop, h]
    rfl
  refine ⟨(List.getElem?_eq_some_iff.mp hsome).1, hsome, ?_⟩
  rw [← List.drop_drop, h]
  rfl

@[simp] theorem ok_bind (a : α) (f : α → Except ε β) : (Except.ok a >>= f) = f a := rfl

@[simp] theorem error_bind (e : ε) (f : α → Except ε β) :
    ((Except.error e : Except ε α) >>= f) = .error e := rfl

/-! ## Inverting calls -/

/-- A sequence succeeds when its first call does and the rest does on its value. -/
theorem bind_eq_ok {x : Except ε α} {f : α → Except ε β} {b : β} :
    (x >>= f) = .ok b ↔ ∃ a, x = .ok a ∧ f a = .ok b := by
  cases x <;> simp [Bind.bind, Except.bind]

@[simp] theorem fail_eq_ok {e : ε} {b : β} : (fail e : Outcome ε β) = .ok b ↔ False :=
  ⟨fun h => (nomatch h), False.elim⟩

@[simp] theorem fault_eq_ok {e : Fault ε} {b : β} : (fault e : Outcome ε β) = .ok b ↔ False :=
  ⟨fun h => (nomatch h), False.elim⟩

@[simp] theorem pure_eq_ok {a b : β} : (pure a : Except ε β) = .ok b ↔ a = b :=
  ⟨fun h => Except.ok.inj h, fun h => congrArg Except.ok h⟩

theorem map_err_eq_ok {x : Outcome ε α} {f : ε → ε'} {a : α} :
    x.mapErr f = .ok a ↔ x = .ok a := by
  cases x with
  | ok b => exact ⟨fun h => congrArg Except.ok (Except.ok.inj h),
      fun h => congrArg Except.ok (Except.ok.inj h)⟩
  | error e => exact ⟨fun h => (nomatch h), fun h => nomatch h⟩

/-- A call behind a check succeeds when the check does not fire and the call succeeds. -/
theorem check_eq_ok {c : Prop} [Decidable c] {e : ε} {next : Unit → Except ε β} {b : β} :
    (if c then (throw e : Except ε Unit) >>= next else next ()) = .ok b ↔ ¬ c
      ∧ next () = .ok b := by
  by_cases hc : c
  · rw [if_pos hc]
    exact ⟨fun h => (nomatch h), fun h => absurd hc h.1⟩
  · rw [if_neg hc]
    exact ⟨fun h => ⟨hc, h⟩, fun h => h.2⟩

/-- The same for a check that returns an `Err`. -/
theorem check_fail_eq_ok {c : Prop} [Decidable c] {e : ε} {next : Unit → Outcome ε β} {b : β} :
    (if c then (fail e : Outcome ε Unit) >>= next else next ()) = .ok b ↔ ¬ c ∧ next () = .ok b :=
  check_eq_ok

/-- A loop without an accumulator succeeds when every iteration does. -/
theorem forM_eq_ok {xs : List α} {f : α → Except ε Unit} {u : Unit} :
    xs.forM f = .ok u ↔ ∀ x ∈ xs, f x = .ok () := by
  induction xs with
  | nil => exact ⟨fun _ x hx => (nomatch hx), fun _ => rfl⟩
  | cons x xs ih =>
      rw [List.forM, bind_eq_ok, List.forall_mem_cons, ← ih]
      exact ⟨fun ⟨_, h⟩ => h, fun h => ⟨(), h⟩⟩

/-- A loop that does something only where a partial map is defined is a loop over its values. -/
theorem forM_filterMap [Monad m] [LawfulMonad m] {f : α → Option β} {g : β → m PUnit}
    {h : α → m PUnit} {xs : List α} (hstep : ∀ x, h x = (f x).elim (pure ⟨⟩) g) :
    xs.forM h = (xs.filterMap f).forM g := by
  induction xs with
  | nil => rfl
  | cons x xs ih =>
      rw [List.forM, ih, hstep, List.filterMap_cons]
      cases f x with
      | none => exact pure_bind _ _
      | some y => rfl

/-- A loop that adds to a counter adds up what its iterations add. -/
theorem foldlM_sum_eq {f : σ → α → Except ε σ} {value : σ → Nat} {weight : α → Nat} {xs : List α}
    {s s' : σ} (h : xs.foldlM f s = .ok s')
    (hstep : ∀ x ∈ xs, ∀ s s', f s x = .ok s' → value s' = value s + weight x) :
    value s' = value s + (xs.map weight).sum := by
  induction xs generalizing s with
  | nil => cases h; rfl
  | cons x xs ih =>
      rw [List.foldlM_cons] at h
      obtain ⟨next, hx, h⟩ := bind_eq_ok.mp h
      rw [ih h fun y hy => hstep y (List.mem_cons_of_mem _ hy),
        hstep x List.mem_cons_self s next hx, List.map_cons, List.sum_cons, Nat.add_assoc]

/-- Every iteration of a loop that succeeds has succeeded. -/
theorem exists_of_foldlM_eq_ok {f : σ → α → Except ε σ} {xs : List α} {s s' : σ}
    (h : xs.foldlM f s = .ok s') {x : α} (hx : x ∈ xs) : ∃ t t', f t x = .ok t' := by
  induction xs generalizing s with
  | nil => cases hx
  | cons y xs ih =>
      rw [List.foldlM_cons] at h
      obtain ⟨next, hy, h⟩ := bind_eq_ok.mp h
      rcases List.mem_cons.mp hx with rfl | hx
      · exact ⟨s, next, hy⟩
      · exact ih h hx

/-- The same of a loop of calls with mutable state. -/
theorem exists_of_call_foldlM_ok {f : β → α → Call ε σ β} {xs : List α} {b b' : β} {s s' : σ}
    (h : xs.foldlM f b s = .ok b' s') {x : α} (hx : x ∈ xs) :
    ∃ a t a' t', f a x t = .ok a' t' := by
  induction xs generalizing b s with
  | nil => cases hx
  | cons y xs ih =>
      rw [List.foldlM_cons, bind_apply] at h
      cases hy : f b y s with
      | error e t =>
          rw [hy] at h
          cases h
      | ok next t =>
          rw [hy] at h
          rcases List.mem_cons.mp hx with rfl | hx
          · exact ⟨b, s, next, t, hy⟩
          · exact ih h hx

/-- A loop that appends what its iterations find succeeds when every iteration does. -/
theorem foldlM_append_eq_ok {f : List β → α → Except ε (List β)} {p : α → Prop} {g : α → Option β}
    {xs : List α} (hstep : ∀ x ∈ xs, ∀ r r', f r x = .ok r' ↔ p x ∧ r' = r ++ (g x).toList)
    {start result : List β} :
    xs.foldlM f start = .ok result ↔ (∀ x ∈ xs, p x) ∧ result = start ++ xs.filterMap g := by
  induction xs generalizing start with
  | nil => simp [List.foldlM_nil, pure, Except.pure, eq_comm]
  | cons x xs ih =>
      have hx := hstep x List.mem_cons_self
      have ih := @ih fun y hy => hstep y (List.mem_cons_of_mem _ hy)
      have hcons : start ++ (x :: xs).filterMap g = start ++ (g x).toList ++ xs.filterMap g := by
        rw [List.filterMap_cons, List.append_assoc]
        cases g x <;> rfl
      rw [List.foldlM_cons, bind_eq_ok, List.forall_mem_cons, hcons]
      constructor
      · rintro ⟨next, hnext, h⟩
        obtain ⟨hp, rfl⟩ := (hx _ _).mp hnext
        obtain ⟨hrest, rfl⟩ := ih.mp h
        exact ⟨⟨hp, hrest⟩, rfl⟩
      · rintro ⟨⟨hp, hrest⟩, rfl⟩
        exact ⟨_, (hx _ _).mpr ⟨hp, rfl⟩, ih.mpr ⟨hrest, rfl⟩⟩

section Checked

variable [Monad m] [MonadFault ε m]

theorem index_of_some {xs : List α} {i : Nat} {x : α} (h : xs[i]? = some x) :
    index (m := m) xs i = pure x := by
  simp [index, h]

theorem usize_add_of_le {a b : Nat} (h : a + b ≤ usizeMax) :
    usizeAdd (m := m) a b = pure (a + b) := if_pos h

theorem u32_sub_of_le {a b : UInt32} (h : b ≤ a) : u32Sub (m := m) a b = pure (a - b) := if_pos h

theorem store_of_lt {xs : List α} {i : Nat} {x : α} (h : i < xs.length) :
    store (m := m) xs i x = pure (xs.set i x) := if_pos h

theorem slice_of_le {xs : List α} {start stop : Nat} (h : start ≤ stop) (hs : stop ≤ xs.length) :
    slice (m := m) xs start stop = pure ((xs.take stop).drop start) := if_pos ⟨h, hs⟩

/-- A slice at whose start a tail of the list begins with `ys`. -/
theorem slice_of_drop_eq_append {xs ys zs : List α} {start : Nat} (h : xs.drop start = ys ++ zs)
    (hs : start ≤ xs.length) : slice (m := m) xs start (start + ys.length) = pure ys := by
  have hlen := congrArg List.length h
  rw [List.length_drop, List.length_append] at hlen
  rw [slice_of_le (Nat.le_add_right _ _) (by omega), List.drop_take, h, Nat.add_sub_cancel_left,
    List.take_left]

theorem copy_from_slice_of_le {xs ys : List α} {start : Nat}
    (h : start + ys.length ≤ xs.length) :
    copyFromSlice (m := m) xs start ys
      = pure (xs.take start ++ ys ++ xs.drop (start + ys.length)) := if_pos h

/-- Copying to the position where the bytes written so far end. -/
theorem copy_from_slice_append {xs rest ys : List α} {start : Nat} (hstart : start = xs.length)
    (h : ys.length ≤ rest.length) :
    copyFromSlice (m := m) (xs ++ rest) start ys = pure (xs ++ ys ++ rest.drop ys.length) := by
  subst hstart
  rw [copy_from_slice_of_le (by rw [List.length_append]; omega), List.take_left,
    List.drop_append, List.drop_eq_nil_of_le (by omega), List.nil_append, Nat.add_sub_cancel_left]

end Checked

end Rust
