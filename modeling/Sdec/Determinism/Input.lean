import Sdec.Determinism.Buffer
import Sdec.Determinism.Encoders
import Sdec.RoundTrip.Delta

/-!
# Encoded bytes and the logical input

The bytes of a packet depend on what is encoded and on nothing else: not on the contents of the
buffer, not on the scratch buffers, and not on the order of the components of an entity. Read
`encoded_bytes_of_input` first. It puts two steps together, from one order and scratch to the other
on the same buffer, and from there to the other buffer.
-/

namespace Sdec

open Rust Bits Bitstream Codec Wire Sorted

variable {build : Build} {schema : Schema} {limits : CodecLimits}

/-- Where the first call succeeds, so does the second, with the same bytes at the front. -/
def SamePrefix {α β : Type} (x : Outcome CodecError ((α × Nat) × List UInt8))
    (y : Outcome CodecError ((β × Nat) × List UInt8)) : Prop :=
  ∀ a n out, x = .ok ((a, n), out) → ∃ b out', y = .ok ((b, n), out')
    ∧ n ≤ out.length ∧ n ≤ out'.length ∧ out.take n = out'.take n

/-- Both calls fail, or both return the same number of bytes and have written the same bytes. -/
def SameBytes {α β : Type} (x : Outcome CodecError ((α × Nat) × List UInt8))
    (y : Outcome CodecError ((β × Nat) × List UInt8)) : Prop :=
  ((∃ e, x = .error e) ∧ ∃ e, y = .error e) ∨
    ∃ a b n out out', x = .ok ((a, n), out) ∧ y = .ok ((b, n), out')
      ∧ n ≤ out.length ∧ n ≤ out'.length ∧ out.take n = out'.take n

theorem SameBytes.of_prefix {α β : Type} {x : Outcome CodecError ((α × Nat) × List UInt8)}
    {y : Outcome CodecError ((β × Nat) × List UInt8)} (h : SamePrefix x y)
    (hback : SamePrefix y x) :
    SameBytes x y := by
  cases hx : x with
  | ok result =>
      obtain ⟨⟨a, n⟩, out⟩ := result
      obtain ⟨b, out', hy, hsame⟩ := h a n out hx
      exact .inr ⟨a, b, n, out, out', rfl, hy, hsame⟩
  | error e =>
      cases hy : y with
      | error e' => exact .inl ⟨⟨e, rfl⟩, e', rfl⟩
      | ok result =>
          obtain ⟨⟨b, n⟩, out⟩ := result
          obtain ⟨a, out', hok, -⟩ := hback b n out hy
          rw [hx] at hok
          cases hok

section Buffers

variable {out out' : List UInt8} (hlen : out.length = out'.length) (hmax : out.length ≤ isizeMax)

include hlen hmax

/-- What a call puts into slices does not depend on their contents. -/
theorem same_prefix_of_puts {α : Type}
    {write : List UInt8 → Outcome CodecError ((α × Nat) × List UInt8)} {facts : α → Prop}
    {need : Nat} {bytes : List UInt8} (h : Puts write facts need bytes) :
    SamePrefix (write out) (write out') := by
  intro a n written hrun
  obtain ⟨-, rfl, hneed, rest, rfl, -⟩ := h.of_ok hmax hrun
  have hmax' : out'.length ≤ isizeMax := hlen ▸ hmax
  obtain ⟨rest', hrun', -⟩ := h.ok_of_le hmax hrun hmax' (hlen ▸ hneed)
  refine ⟨a, _, hrun', ?_, ?_, ?_⟩
  · rw [List.length_append]
    exact Nat.le_add_right _ _
  · rw [List.length_append]
    exact Nat.le_add_right _ _
  · rw [List.take_left, List.take_left]

omit hlen hmax in
/-- A step on one buffer and a step to the other. -/
theorem SamePrefix.after_follows {α β γ : Type} {x : Outcome CodecError ((α × Nat) × List UInt8)}
    {y : Outcome CodecError ((β × Nat) × List UInt8)}
    {z : Outcome CodecError ((γ × Nat) × List UInt8)} {R : α → β → Prop}
    (hxy : Outcome.Follows (SameWritten R) x y) (hyz : SamePrefix y z) :
    SamePrefix x z := by
  intro a n written hrun
  obtain ⟨⟨⟨b, m⟩, written'⟩, hy, ⟨-, hn⟩, hwritten⟩ := hxy _ hrun
  obtain rfl : n = m := hn
  obtain rfl : written = written' := hwritten
  exact hyz b n written hy

/-- The compact packet of a delta does not depend on the contents of the buffer. -/
theorem same_prefix_session {baseline current : Snapshot}
    (tick baselineTick lastTick : SnapshotTick) (scratch : CodecScratch) :
    SamePrefix
      ((encodeDeltaSnapshotForClientSessionWithScratch build schema tick baselineTick
        baseline current limits scratch out).evalOn lastTick)
      ((encodeDeltaSnapshotForClientSessionWithScratch build schema tick baselineTick
        baseline current limits scratch out').evalOn lastTick) := by
  have hget (f : SnapshotTick → Call CodecError SnapshotTick ((CodecScratch × Nat) × List UInt8)) :
      (get >>= f) lastTick = f lastTick lastTick := bind_apply _ _ _
  intro a n written hrun
  have hmax' : out'.length ≤ isizeMax := hlen ▸ hmax
  unfold Call.evalOn at hrun ⊢
  -- the three checks do not look into the buffer
  by_cases hshort : out.length < SESSION_MAX_HEADER_SIZE
  · rw [encodeDeltaSnapshotForClientSessionWithScratch, hget, if_pos hshort] at hrun
    cases hrun
  by_cases hafter : tick.raw ≤ lastTick.raw
  · rw [encodeDeltaSnapshotForClientSessionWithScratch, hget, if_neg hshort, if_pos hafter] at hrun
    cases hrun
  by_cases hbaseline : baselineTick.raw > tick.raw
  · rw [encodeDeltaSnapshotForClientSessionWithScratch, hget, if_neg hshort, if_neg hafter,
      if_pos hbaseline] at hrun
    cases hrun
  have hfits := Nat.le_of_not_lt hshort
  have hdrop : (out.drop SESSION_MAX_HEADER_SIZE).length = out.length - SESSION_MAX_HEADER_SIZE :=
    List.length_drop
  have hdrop' :
      (out'.drop SESSION_MAX_HEADER_SIZE).length = out.length - SESSION_MAX_HEADER_SIZE := by
    rw [List.length_drop, hlen]
  obtain ⟨need, bytes, hputs⟩ := @steady_delta_payload build schema limits baseline current
    baselineTick .sparse scratch
  cases hpayload : encodeDeltaPayloadWithMode build schema baselineTick baseline current limits
      .sparse scratch (out.drop SESSION_MAX_HEADER_SIZE) with
  | error e =>
      rw [encodeDeltaSnapshotForClientSessionWithScratch, hget, if_neg hshort, if_neg hafter,
        if_neg hbaseline, withTail, if_pos hfits, hpayload] at hrun
      cases hrun
  | ok result =>
      -- both payloads are the bytes of the sections, and the header does not depend on the
      -- buffer
      obtain ⟨⟨scratch', m⟩, tail⟩ := result
      obtain ⟨-, rfl, hneed, rest, rfl, hrest⟩ := hputs.of_ok (by omega) hpayload
      obtain ⟨rest', hpayload', hrest'⟩ := hputs.ok_of_le (by omega) hpayload
        (show (out'.drop SESSION_MAX_HEADER_SIZE).length ≤ isizeMax by omega) (by omega)
      obtain ⟨front, hsession⟩ := encode_session_eq_ok hmax hfits (UInt32.not_le.mp hafter)
        (UInt32.not_lt.mp hbaseline) hpayload (hrest.trans hdrop)
      obtain ⟨front', hsession'⟩ := encode_session_eq_ok hmax' (hlen ▸ hfits)
        (UInt32.not_le.mp hafter) (UInt32.not_lt.mp hbaseline) hpayload'
        (hrest'.trans List.length_drop)
      rw [hsession] at hrun
      cases hrun
      rw [hsession']
      refine ⟨_, _, rfl, ?_, ?_, ?_⟩
      · rw [List.length_append]
        exact Nat.le_add_right _ _
      · rw [List.length_append]
        exact Nat.le_add_right _ _
      · rw [List.take_left, List.take_left]

end Buffers

/-! ## The encoders -/

section Encoders

variable {entities entities' : List EntitySnapshot}
  {baseline baseline' current current' : Snapshot} {out out' : List UInt8}
  (hentities : List.Forall₂ EntitySnapshot.Reordered entities entities')
  (hbaseline : baseline.Reordered baseline') (hcurrent : current.Reordered current')
  (hlen : out.length = out'.length) (hmax : out.length ≤ isizeMax)

include hlen hmax

include hentities in
theorem same_prefix_full (tick : SnapshotTick) :
    SamePrefix (sized (encodeFullSnapshot build schema tick entities limits) out)
      (sized (encodeFullSnapshot build schema tick entities' limits) out') := by
  have hfollows : Outcome.Follows (SameWritten Eq)
      (sized (encodeFullSnapshot build schema tick entities limits) out)
      (sized (encodeFullSnapshot build schema tick entities' limits) out) := by
    refine (follows_encode_full_snapshot hentities tick out).bind fun p q hpq => ?_
    subst hpq
    exact Outcome.Follows.pure ⟨⟨rfl, rfl⟩, rfl⟩
  obtain ⟨body, hputs⟩ := @puts_encode_full_snapshot build schema limits tick entities'
  exact SamePrefix.after_follows hfollows (same_prefix_of_puts hlen hmax hputs)

include hbaseline hcurrent

theorem same_prefix_delta (tick baselineTick : SnapshotTick) (mode : EncodeUpdateMode)
    (scratch scratch' : CodecScratch) :
    SamePrefix
      (encodeDeltaSnapshotWithScratchMode build schema tick baselineTick baseline
        current limits mode scratch out)
      (encodeDeltaSnapshotWithScratchMode build schema tick baselineTick baseline'
        current' limits mode scratch' out') := by
  obtain ⟨need, bytes, hputs⟩ := @steady_delta_payload build schema limits baseline' current'
    baselineTick mode scratch'
  exact SamePrefix.after_follows
    (follows_delta_packet tick baselineTick
      (fun tail => follows_delta_payload hbaseline hcurrent baselineTick mode scratch scratch' tail)
        out)
    (same_prefix_of_puts hlen hmax (puts_encode_delta_packet hputs))

theorem same_prefix_compact (tick baselineTick lastTick : SnapshotTick)
    (scratch scratch' : CodecScratch) :
    SamePrefix
      ((encodeDeltaSnapshotForClientSessionWithScratch build schema tick baselineTick
        baseline current limits scratch out).evalOn lastTick)
      ((encodeDeltaSnapshotForClientSessionWithScratch build schema tick baselineTick
        baseline' current' limits scratch' out').evalOn lastTick) :=
  SamePrefix.after_follows
    ((follows_encode_session hbaseline hcurrent tick baselineTick scratch scratch' out).evalOn
      lastTick)
    (same_prefix_session hlen hmax tick baselineTick lastTick scratch')

end Encoders

/-- The bytes of a packet depend on what is encoded only. For every schema, all limits and all
entities whose components have different ids, two calls fail together or write the same bytes,
whatever their buffers of one length held, whatever was left in their scratch buffers, and however
the components of the entities are ordered. -/
theorem encoded_bytes_of_input {entities entities' : List EntitySnapshot}
    (hentities : List.Forall₂ EntitySnapshot.Reordered entities entities')
    {baseline baseline' current current' : Snapshot} (hbaseline : baseline.Reordered baseline')
    (hcurrent : current.Reordered current') {out out' : List UInt8}
    (hlen : out.length = out'.length) (hmax : out.length ≤ isizeMax)
    (tick baselineTick lastTick : SnapshotTick) (scratch scratch' : CodecScratch) :
    SameBytes (sized (encodeFullSnapshot build schema tick entities limits) out)
        (sized (encodeFullSnapshot build schema tick entities' limits) out')
      ∧ SameBytes
        (encodeDeltaSnapshotWithScratch build schema tick baselineTick baseline current
          limits scratch out)
        (encodeDeltaSnapshotWithScratch build schema tick baselineTick baseline' current' limits
          scratch' out')
      ∧ SameBytes
        (encodeDeltaSnapshotForClientWithScratch build schema tick baselineTick baseline
          current limits scratch out)
        (encodeDeltaSnapshotForClientWithScratch build schema tick baselineTick baseline' current'
          limits scratch' out')
      ∧ SameBytes
        ((encodeDeltaSnapshotForClientSessionWithScratch build schema tick baselineTick
          baseline current limits scratch out).evalOn lastTick)
        ((encodeDeltaSnapshotForClientSessionWithScratch build schema tick baselineTick baseline'
          current' limits scratch' out').evalOn lastTick) := by
  have hmax' : out'.length ≤ isizeMax := hlen ▸ hmax
  refine ⟨?_, ?_, ?_, ?_⟩
  · exact SameBytes.of_prefix (same_prefix_full hentities hlen hmax tick)
      (same_prefix_full (reordered_symm hentities) hlen.symm hmax' tick)
  · exact SameBytes.of_prefix
      (same_prefix_delta hbaseline hcurrent hlen hmax tick baselineTick .auto scratch scratch')
      (same_prefix_delta hbaseline.symm hcurrent.symm hlen.symm hmax' tick baselineTick
        .auto scratch' scratch)
  · exact SameBytes.of_prefix
      (same_prefix_delta hbaseline hcurrent hlen hmax tick baselineTick .sparse scratch scratch')
      (same_prefix_delta hbaseline.symm hcurrent.symm hlen.symm hmax' tick baselineTick
        .sparse scratch' scratch)
  · exact SameBytes.of_prefix
      (same_prefix_compact hbaseline hcurrent hlen hmax tick baselineTick lastTick scratch scratch')
      (same_prefix_compact hbaseline.symm hcurrent.symm hlen.symm hmax' tick baselineTick lastTick
        scratch' scratch)

/-- `swappedEntity` with its components in the order of their ids. -/
def sortedEntity (v : Bool) : EntitySnapshot :=
  ⟨⟨3⟩, [⟨⟨1, nonzero_one⟩, [.bool v]⟩, ⟨⟨2, nonzero_two⟩, [.bool v]⟩]⟩

theorem swapped_entity_reordered (v : Bool) : (swappedEntity v).Reordered (sortedEntity v) where
  id := rfl
  components := List.Perm.swap _ _ _
  distinct := by
    unfold EntitySnapshot.Distinct swappedEntity
    decide +revert

/-- The sparse delta of an entity, in an empty buffer with fresh scratch buffers and in a used one
with what earlier calls have left. -/
theorem encoded_bytes_of_input_swapped :
    SameBytes
      (encodeDeltaSnapshotForClientWithScratch swappedBuild swappedSchema ⟨7⟩ ⟨5⟩
        ⟨⟨5⟩, [swappedEntity false]⟩ ⟨⟨7⟩, [swappedEntity true]⟩ goldenLimits .default
        (List.replicate 64 0))
      (encodeDeltaSnapshotForClientWithScratch swappedBuild swappedSchema ⟨7⟩ ⟨5⟩
        ⟨⟨5⟩, [sortedEntity false]⟩ ⟨⟨7⟩, [sortedEntity true]⟩ goldenLimits ⟨[true, true], [true]⟩
        (List.replicate 64 255)) := by
  have hbaseline : Snapshot.Reordered ⟨⟨5⟩, [swappedEntity false]⟩ ⟨⟨5⟩, [sortedEntity false]⟩ :=
    ⟨rfl, .cons (swapped_entity_reordered false) .nil⟩
  have hcurrent : Snapshot.Reordered ⟨⟨7⟩, [swappedEntity true]⟩ ⟨⟨7⟩, [sortedEntity true]⟩ :=
    ⟨rfl, .cons (swapped_entity_reordered true) .nil⟩
  have hsame :=
    @encoded_bytes_of_input swappedBuild swappedSchema goldenLimits _ _ hcurrent.entities
      _ _ _ _ hbaseline hcurrent (List.replicate 64 0) (List.replicate 64 255) (by decide)
      (by decide) ⟨7⟩ ⟨5⟩ ⟨6⟩ .default ⟨[true, true], [true]⟩
  exact hsame.2.2.1

end Sdec
