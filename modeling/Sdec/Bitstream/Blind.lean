import Sdec.Bitstream.Writes

/-!
# Calls that do not read the buffer

A call is `Blind` if what it writes and returns depends on the bit position only: on buffers with
room it overwrites the same bits, whatever was there, and it fails on all the others. Every method
of `BitWriter` is blind, and so are sequences, branches and loops of blind calls, so that an encoder
is blind without a word about what it writes. `last` restricts where the call may stop.
-/

namespace Sdec.Bitstream

open Rust Bits

variable {ε ε' σ α β : Type} {last : Nat → Prop}

/-- At every bit position, the call fails on every buffer or overwrites the same bits in every
buffer that has room for them, and stops at a position that satisfies `last`. -/
def Blind (last : Nat → Prop) (write : Call ε BitWriter α) : Prop :=
  ∀ pos, Fails pos write ∨ ∃ a items, last (stop pos items) ∧ Emits pos write True items a

/-- Any position. -/
def Anywhere (_ : Nat) : Prop := True

/-- A byte boundary. -/
def AtByte (pos : Nat) : Prop := pos % 8 = 0

namespace Blind

theorem of_emits {write : Call ε BitWriter α}
    (h : ∀ pos, ∃ ok items a, Emits pos write ok items a) : Blind Anywhere write := by
  intro pos
  obtain ⟨ok, items, a, hemits⟩ := h pos
  by_cases hok : ok
  · exact .inr ⟨a, items, trivial, hemits.congr (iff_of_true hok trivial)⟩
  · exact .inl fun buf hpos => (hemits buf hpos).2 fun hyes => hok hyes.1

theorem pure (a : α) : Blind Anywhere (pure a : Call ε BitWriter α) :=
  fun _ => .inr ⟨a, [], trivial, Emits.pure a⟩

theorem bind {write : Call ε BitWriter α} {next : α → Call ε BitWriter β} (h : Blind Anywhere write)
    (hnext : ∀ a, Blind last (next a)) : Blind last (write >>= next) := by
  intro pos
  rcases h pos with hfails | ⟨a, items, -, hemits⟩
  · exact .inl (hfails.bind next)
  rcases hnext a (stop pos items) with hfails | ⟨b, more, hlast, hmore⟩
  · exact .inl (hemits.bind_fails hfails)
  · refine .inr ⟨b, items ++ more, ?_, hemits.seq hmore⟩
    rwa [stop_append]

/-- A call without mutable state. -/
theorem lift (x : Outcome ε α) : Blind Anywhere (liftM x : Call ε BitWriter α) := by
  cases x with
  | ok a => exact pure a
  | error e => exact fun _ => .inl fun _ _ => ⟨e, _, rfl⟩

/-- `xs[i]`. -/
theorem index (xs : List α) (i : Nat) : Blind Anywhere (Rust.index xs i : Call ε BitWriter α) := by
  unfold Rust.index
  cases xs[i]? with
  | some x => exact pure x
  | none => exact fun _ => .inl fun _ _ => ⟨_, _, rfl⟩

/-- A check: `if c { return Err(..) }`. -/
theorem check {c : Prop} [Decidable c] {error : ε} {next : Unit → Call ε BitWriter α}
    (h : Blind last (next ())) :
    Blind last (if c then Rust.fail error >>= next else next ()) := by
  by_cases hc : c
  · rw [if_pos hc]
    exact fun _ => .inl fun _ _ => ⟨_, _, rfl⟩
  · rw [if_neg hc]
    exact h

theorem ite {c : Prop} [Decidable c] {x y : Call ε BitWriter α} (hx : Blind last x)
    (hy : Blind last y) : Blind last (if c then x else y) := by
  by_cases hc : c
  · rwa [if_pos hc]
  · rwa [if_neg hc]

theorem map_err {f : ε → ε'} {write : Call ε BitWriter α} (h : Blind last write) :
    Blind last (write.mapErr f) := by
  intro pos
  rcases h pos with hfails | ⟨a, items, hlast, hemits⟩
  · refine .inl fun buf hpos => ?_
    obtain ⟨error, writer, hrun⟩ := hfails buf hpos
    refine ⟨error.map f, writer, ?_⟩
    unfold Call.mapErr
    rw [hrun]
  · exact .inr ⟨a, items, hlast, hemits.map_err⟩

theorem foldlM {f : σ → β → Call ε BitWriter σ} (h : ∀ s x, Blind Anywhere (f s x)) (xs : List β)
    (s : σ) : Blind Anywhere (xs.foldlM f s) := by
  induction xs generalizing s with
  | nil => exact pure s
  | cons x xs ih =>
      rw [List.foldlM_cons]
      exact (h s x).bind ih

theorem forM {f : β → Call ε BitWriter PUnit} (h : ∀ x, Blind Anywhere (f x)) (xs : List β) :
    Blind Anywhere (xs.forM f) := by
  induction xs with
  | nil => exact pure _
  | cons x xs ih => exact (h x).bind fun _ => ih

/-- What a call returns does not matter to where it stops. -/
theorem map {write : Call ε BitWriter α} (h : Blind last write) (b : β) :
    Blind last (write >>= fun _ => Pure.pure b) := by
  intro pos
  rcases h pos with hfails | ⟨a, items, hlast, hemits⟩
  · exact .inl (hfails.bind _)
  · refine .inr ⟨b, items ++ [], ?_, hemits.seq (Emits.pure b)⟩
    rwa [List.append_nil]

/-- What a blind call that starts on a fresh buffer writes. -/
theorem writes {write : Call ε BitWriter α} (h : Blind AtByte write) :
    ∃ items body, ofBytes body = render 0 items ∧ Writes 0 write (fun _ => True) items := by
  rcases h 0 with hfails | ⟨a, items, hlast, hemits⟩
  · exact ⟨[], [], rfl, .inl hfails⟩
  · rw [AtByte, stop, Nat.zero_add] at hlast
    have hlength : (render 0 items).length = 8 * ((render 0 items).length / 8) := by omega
    obtain ⟨body, hbody⟩ := exists_ofBytes_eq _ hlength
    exact ⟨items, body, hbody, .inr ⟨a, trivial, hemits⟩⟩

/-! ## The methods of the writer -/

theorem write_bits (value : UInt64) (bits : UInt8) :
    Blind Anywhere (BitWriter.writeBits value bits) :=
  of_emits fun _ => ⟨_, _, _, emits_write_bits value bits⟩

/-- Padding stops at a byte boundary. -/
theorem align_to_byte : Blind AtByte BitWriter.alignToByte := by
  intro pos
  refine .inr ⟨(), [.align], ?_, emits_align_to_byte⟩
  rw [AtByte, stop_align]
  exact add_padding_mod pos

theorem anywhere {write : Call ε BitWriter α} (h : Blind last write) : Blind Anywhere write := by
  intro pos
  rcases h pos with hfails | ⟨a, items, -, hemits⟩
  · exact .inl hfails
  · exact .inr ⟨a, items, trivial, hemits⟩

/-- A call that checks the alignment first. -/
theorem of_aligned {write : Call BitError BitWriter Unit} {items : Layout}
    (h : ∀ pos, pos % 8 = 0 →
      Emits pos (do BitWriter.ensureAligned; write) True items ()) :
    Blind Anywhere (do BitWriter.ensureAligned; write) := by
  intro pos
  by_cases haligned : pos % 8 = 0
  · exact .inr ⟨(), items, trivial, h pos haligned⟩
  · refine .inl fun buf _ => ⟨.err (.misalignedAccess pos), ⟨buf, pos⟩, ?_⟩
    unfold BitWriter.ensureAligned
    rw [bind_apply, bind_apply, get_apply]
    dsimp only
    rw [if_pos haligned]
    rfl

theorem write_varu32 (value : UInt32) : Blind Anywhere (BitWriter.writeVaru32 value) :=
  of_aligned fun _ hpos => emits_write_varu32 hpos value

end Blind

end Sdec.Bitstream
