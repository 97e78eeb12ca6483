import Sdec.Rust.Outcome

/-!
# Filling a buffer

`Puts` says what a call does that writes to the front of a slice, on slices of every length.
Encoders fill one buffer piece by piece: each piece is written at an offset, behind the bytes
written before it, and returns the offset behind itself. `Appends` says the same of such a piece.
Pieces compose by `Appends.bind`.
-/

namespace Rust

variable {ε α β : Type} {facts : α → Prop} {need need' : Nat} {bytes bytes' : List UInt8}

/-- The call either always fails, or it writes `bytes` to the front of any slice of at least `need`
bytes, returns a value that satisfies `facts` and the number of bytes, and fails on shorter slices.
It may leave anything behind the bytes. -/
def Puts (write : List UInt8 → Outcome ε ((α × Nat) × List UInt8)) (facts : α → Prop) (need : Nat)
    (bytes : List UInt8) : Prop :=
  (∀ out, out.length ≤ isizeMax → ∃ error, write out = .error error) ∨
  ∃ a, facts a ∧ bytes.length ≤ need ∧ ∀ out, out.length ≤ isizeMax →
    (need ≤ out.length → ∃ rest, write out = .ok ((a, bytes.length), bytes ++ rest)
      ∧ bytes.length + rest.length = out.length) ∧
    (¬ need ≤ out.length → ∃ error, write out = .error error)

/-- Behind any bytes written before, the call either always fails, or it writes `bytes` wherever
`need` bytes remain, returns a value that satisfies `facts` and the offset behind the bytes, and
fails where less remains. It may leave anything behind the bytes. -/
def Appends (write : Nat → List UInt8 → Outcome ε ((α × Nat) × List UInt8)) (facts : α → Prop)
    (need : Nat) (bytes : List UInt8) : Prop :=
  (∀ done rest, (done ++ rest).length ≤ isizeMax →
      ∃ error, write done.length (done ++ rest) = .error error) ∨
  ∃ a, facts a ∧ bytes.length ≤ need ∧ ∀ done rest, (done ++ rest).length ≤ isizeMax →
    (need ≤ rest.length → ∃ rest', write done.length (done ++ rest)
      = .ok ((a, done.length + bytes.length), done ++ bytes ++ rest')
        ∧ bytes.length + rest'.length = rest.length) ∧
    (¬ need ≤ rest.length → ∃ error, write done.length (done ++ rest) = .error error)

theorem Appends.mono {write : Nat → List UInt8 → Outcome ε ((α × Nat) × List UInt8)}
    {facts' : α → Prop} (h : Appends write facts need bytes) (hfacts : ∀ a, facts a → facts' a) :
    Appends write facts' need bytes :=
  h.imp_right fun ⟨a, ha, hrest⟩ => ⟨a, hfacts a ha, hrest⟩

/-- What a call puts at the front of a slice is a first piece. -/
theorem Appends.puts {write : Nat → List UInt8 → Outcome ε ((α × Nat) × List UInt8)}
    (h : Appends write facts need bytes) : Puts (write 0) facts need bytes := by
  rcases h with hfails | ⟨a, ha, hneed, hwrite⟩
  · exact .inl fun out hlen => hfails [] out hlen
  · refine .inr ⟨a, ha, hneed, fun out hlen => ?_⟩
    have := hwrite [] out hlen
    simpa only [List.nil_append, List.length_nil, Nat.zero_add] using this

/-- A call on the rest of the buffer is a piece. -/
theorem Puts.appends {write : List UInt8 → Outcome ε ((α × Nat) × List UInt8)}
    (h : Puts write facts need bytes) :
    Appends (fun offset out => do
      let ((a, written), out) ← withTail out offset write
      let offset ← usizeAdd offset written
      pure ((a, offset), out)) facts need bytes := by
  have htail (done rest : List UInt8) : withTail (done ++ rest) done.length write
      = (write rest >>= fun (b, tail) => pure (b, done ++ tail)) := by
    rw [withTail, if_pos (by rw [List.length_append]; omega), List.drop_left, List.take_left]
  rcases h with hfails | ⟨a, ha, hneed, hwrite⟩
  · refine .inl fun done rest hlen => ?_
    obtain ⟨error, herror⟩ := hfails rest (by simp at hlen; omega)
    exact ⟨error, by simp only [htail, herror, error_bind]⟩
  · refine .inr ⟨a, ha, hneed, fun done rest hlen => ?_⟩
    rw [List.length_append] at hlen
    obtain ⟨hok, herror⟩ := hwrite rest (by omega)
    refine ⟨fun hfits => ?_, fun hno => ?_⟩
    · obtain ⟨rest', hrun, hrest⟩ := hok hfits
      have hadd : done.length + bytes.length ≤ usizeMax := by
        simp only [isizeMax, usizeMax] at *
        omega
      refine ⟨rest', ?_, hrest⟩
      simp only [htail, hrun, ok_bind, pure_bind, usize_add_of_le hadd, List.append_assoc]
      rfl
    · obtain ⟨error, hrun⟩ := herror hno
      exact ⟨error, by simp only [htail, hrun, error_bind]⟩

/-- A piece of no bytes. -/
theorem Appends.pure {a : α} (h : facts a) :
    Appends (fun offset out => (pure ((a, offset), out) : Outcome ε _)) facts 0 [] := by
  refine .inr ⟨a, h, Nat.le_refl 0, fun done rest _ => ⟨fun _ => ⟨rest, ?_, ?_⟩, fun hno => ?_⟩⟩
  · simp
  · simp
  · exact absurd (Nat.zero_le _) hno

/-- Two pieces, one behind the other. -/
theorem Appends.bind {write : Nat → List UInt8 → Outcome ε ((α × Nat) × List UInt8)}
    {next : α → Nat → List UInt8 → Outcome ε ((β × Nat) × List UInt8)} {facts' : β → Prop}
    (h : Appends write facts need bytes)
    (hnext : ∀ a, facts a → Appends (next a) facts' need' bytes') :
    Appends (fun offset out => do
      let ((a, offset), out) ← write offset out
      next a offset out) facts' (max need (bytes.length + need')) (bytes ++ bytes') := by
  rcases h with hfails | ⟨a, ha, hneed, hwrite⟩
  · refine .inl fun done rest hlen => ?_
    obtain ⟨error, herror⟩ := hfails done rest hlen
    exact ⟨error, by beta_reduce; rw [herror]; rfl⟩
  rcases hnext a ha with hfails | ⟨b, hb, hneed', hwrite'⟩
  · refine .inl fun done rest hlen => ?_
    by_cases hfits : need ≤ rest.length
    · obtain ⟨rest', hrun, hrest⟩ := (hwrite done rest hlen).1 hfits
      obtain ⟨error, herror⟩ := hfails (done ++ bytes) rest' (by simp at hlen ⊢; omega)
      rw [List.length_append] at herror
      exact ⟨error, by beta_reduce; rw [hrun]; exact herror⟩
    · obtain ⟨error, herror⟩ := (hwrite done rest hlen).2 hfits
      exact ⟨error, by beta_reduce; rw [herror]; rfl⟩
  · refine .inr ⟨b, hb, by rw [List.length_append]; omega, fun done rest hlen => ?_⟩
    by_cases hfits : need ≤ rest.length
    · obtain ⟨rest', hrun, hrest⟩ := (hwrite done rest hlen).1 hfits
      have hlen' : (done ++ bytes ++ rest').length ≤ isizeMax := by simp at hlen ⊢; omega
      have hnext := hwrite' (done ++ bytes) rest' hlen'
      rw [show (done ++ bytes).length = done.length + bytes.length from List.length_append] at hnext
      beta_reduce
      rw [hrun, ok_bind]
      refine ⟨fun hall => ?_, fun hno => hnext.2 (by omega)⟩
      obtain ⟨rest'', hrun', hrest'⟩ := hnext.1 (by omega)
      refine ⟨rest'', hrun'.trans ?_, by rw [List.length_append]; omega⟩
      simp only [List.length_append, Nat.add_assoc, List.append_assoc]
    · obtain ⟨error, herror⟩ := (hwrite done rest hlen).2 hfits
      beta_reduce
      rw [herror]
      exact ⟨fun hall => absurd (by omega) hfits, fun _ => ⟨error, rfl⟩⟩

/-- A check before a call. -/
theorem Puts.lift {x : Outcome ε β} {next : β → List UInt8 → Outcome ε ((α × Nat) × List UInt8)}
    (h : ∀ b, x = .ok b → Puts (next b) facts need bytes) :
    Puts (fun out => do
      let b ← x
      next b out) facts need bytes := by
  cases hx : x with
  | ok b => exact h b hx
  | error e => exact .inl fun _ _ => ⟨e, rfl⟩

theorem Puts.check {c : Prop} [Decidable c] {error : ε}
    {next : Unit → List UInt8 → Outcome ε ((α × Nat) × List UInt8)}
    (h : ¬ c → Puts (next ()) facts need bytes) :
    Puts (fun out => if c then fail error >>= fun u => next u out else next () out) facts need
      bytes := by
  by_cases hif : c
  · exact .inl fun _ _ => ⟨_, by simp only [if_pos hif]; rfl⟩
  · simp only [if_neg hif]
    exact h hif

/-! ## Successful calls -/

/-- What a call has put into a slice. -/
theorem Puts.of_ok {write : List UInt8 → Outcome ε ((α × Nat) × List UInt8)}
    (h : Puts write facts need bytes) {out out' : List UInt8} {a : α} {n : Nat}
    (hlen : out.length ≤ isizeMax) (hrun : write out = .ok ((a, n), out')) :
    facts a ∧ n = bytes.length ∧ need ≤ out.length
      ∧ ∃ rest, out' = bytes ++ rest ∧ bytes.length + rest.length = out.length := by
  rcases h with hfails | ⟨b, hb, hneed, hwrite⟩
  · obtain ⟨error, herror⟩ := hfails out hlen
    rw [herror] at hrun
    cases hrun
  · by_cases hfits : need ≤ out.length
    · obtain ⟨rest, hok, hrest⟩ := (hwrite out hlen).1 hfits
      rw [hok] at hrun
      cases hrun
      exact ⟨hb, rfl, hfits, rest, rfl, hrest⟩
    · obtain ⟨error, herror⟩ := (hwrite out hlen).2 hfits
      rw [herror] at hrun
      cases hrun

/-- A call that has succeeded on one slice succeeds on every slice that has room. -/
theorem Puts.ok_of_le {write : List UInt8 → Outcome ε ((α × Nat) × List UInt8)}
    (h : Puts write facts need bytes) {out out' : List UInt8} {a : α} {n : Nat}
    (hlen : out.length ≤ isizeMax) (hrun : write out = .ok ((a, n), out')) {big : List UInt8}
    (hbig : big.length ≤ isizeMax) (hfits : need ≤ big.length) :
    ∃ rest, write big = .ok ((a, bytes.length), bytes ++ rest)
      ∧ bytes.length + rest.length = big.length := by
  obtain ⟨-, -, hneed, -⟩ := h.of_ok hlen hrun
  rcases h with hfails | ⟨b, -, -, hwrite⟩
  · obtain ⟨error, herror⟩ := hfails out hlen
    rw [herror] at hrun
    cases hrun
  · obtain ⟨rest, hok, -⟩ := (hwrite out hlen).1 hneed
    rw [hok] at hrun
    cases hrun
    exact (hwrite big hbig).1 hfits

end Rust
