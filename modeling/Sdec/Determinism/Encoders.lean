import Sdec.Determinism.Order
import Sdec.Format.Masked

/-!
# Encoders of the same input

Each encoder follows itself when the components of its entities are reordered and its scratch
buffers are replaced. Read `follows_delta_payload` first. The scratch buffers that the two calls
leave differ, and the bytes do not.
-/

namespace Sdec

open Rust Bitstream Codec Wire Sorted

variable {build : Build} {schema : Schema} {limits : CodecLimits}

/-! ## Entities -/

/-- Scratch buffers with the same bits for the first `n` components. -/
structure CodecScratch.Agree (n : Nat) (scratch other : CodecScratch) : Prop where
  size : n ≤ scratch.componentChanged.length
  otherSize : n ≤ other.componentChanged.length
  changed : scratch.componentChanged.take n = other.componentChanged.take n

variable {n : Nat} {scratch other : CodecScratch}

theorem CodecScratch.Agree.index (h : scratch.Agree n other) {idx : Nat} (hidx : idx < n) :
    scratch.componentChanged[idx]? = other.componentChanged[idx]? := by
  rw [← List.getElem?_take_of_lt hidx, h.changed, List.getElem?_take_of_lt hidx]

theorem CodecScratch.Agree.of_eq {scratch' other' : CodecScratch} (h : scratch.Agree n other)
    (hscratch : scratch'.componentChanged = scratch.componentChanged)
    (hother : other'.componentChanged = other.componentChanged) : scratch'.Agree n other' := by
  refine ⟨?_, ?_, ?_⟩
  · rw [hscratch]
    exact h.size
  · rw [hother]
    exact h.otherSize
  · rw [hscratch, hother]
    exact h.changed

theorem CodecScratch.Agree.set (h : scratch.Agree n other) (idx : Nat) (bit : Bool) :
    CodecScratch.Agree n { scratch with componentChanged := scratch.componentChanged.set idx bit }
      { other with componentChanged := other.componentChanged.set idx bit } := by
  refine ⟨?_, ?_, ?_⟩
  · rw [List.length_set]
    exact h.size
  · rw [List.length_set]
    exact h.otherSize
  · show (scratch.componentChanged.set idx bit).take n = (other.componentChanged.set idx bit).take n
    rw [List.take_set, List.take_set, h.changed]

/-- A mask that is long enough is not touched. -/
theorem CodecScratch.ensure_changed {scratch : CodecScratch} {fields : Nat}
    (h : n ≤ scratch.componentChanged.length) :
    (scratch.ensure n fields).componentChanged = scratch.componentChanged :=
  if_neg (Nat.not_lt.mpr h)

/-- The mask that `write_update_components` starts with. -/
theorem agree_clear_components (scratch other : CodecScratch) (n : Nat) :
    CodecScratch.Agree n ((scratch.ensure n 0).clearComponents n)
      ((other.ensure n 0).clearComponents n) := by
  have hsize (s : CodecScratch) :
      n ≤ ((s.ensure n 0).clearComponents n).componentChanged.length := by
    show n ≤ (List.replicate n false ++ _).length
    rw [List.length_append, List.length_replicate]
    exact Nat.le_add_right _ _
  have htake (s : CodecScratch) :
      ((s.ensure n 0).clearComponents n).componentChanged.take n = List.replicate n false := by
    show (List.replicate n false ++ _).take n = _
    rw [List.take_left' List.length_replicate]
  exact ⟨hsize scratch, hsize other, (htake scratch).trans (htake other).symm⟩

variable {base base' curr curr' : EntitySnapshot} (hbase : base.Reordered base')
  (hcurr : curr.Reordered curr')

include hbase hcurr

/-- The first loop of `write_update_components`. -/
theorem follows_write_changed_mask (h : scratch.Agree schema.components.length other) :
    Call.Follows (CodecScratch.Agree schema.components.length)
      (Delta.writeChangedMask build schema limits base curr scratch)
      (Delta.writeChangedMask build schema limits base' curr' other) := by
  unfold Delta.writeChangedMask
  refine Call.Follows.foldlM_same (fun entry hentry s t hst => ?_) h
  obtain ⟨component, idx⟩ := entry
  have hidx := (List.mem_zipIdx' hentry).1
  dsimp only
  refine (Call.Follows.lift ((follows_scan_component hbase hcurr component s t).and_eq)).bind
    fun p q hpq => ?_
  obtain ⟨hfound, hp, hq⟩ := hpq
  have hagree : CodecScratch.Agree schema.components.length p.2 q.2 :=
    hst.of_eq (scan_component_changed hp hst.size) (scan_component_changed hq hst.otherSize)
  rw [hfound]
  cases q.1 with
  | none => exact Call.Follows.bind_same _ fun _ => Call.Follows.pure hagree
  | some found =>
      dsimp only
      refine Call.Follows.bind_same _ fun _ => ?_
      by_cases hany : found.2.any id = true
      · rw [if_pos hany, if_pos hany,
          store_of_lt (Nat.lt_of_lt_of_le hidx hagree.size),
          store_of_lt (Nat.lt_of_lt_of_le hidx hagree.otherSize)]
        exact Call.Follows.pure (hagree.set idx true)
      · rw [if_neg hany, if_neg hany]
        exact Call.Follows.pure hagree

omit hbase hcurr in
/-- The first loop has checked the numbers of the fields. -/
theorem comparable_of_changed_mask {writer writer' : BitWriter} {scratch scratch' : CodecScratch}
    (h : Delta.writeChangedMask build schema limits base curr scratch writer = .ok scratch' writer')
    {component : ComponentDef} (hcomponent : component ∈ schema.components) :
    Comparable limits base curr component := by
  obtain ⟨idx, hidx, rfl⟩ := List.getElem_of_mem hcomponent
  obtain ⟨s, t, s', t', hrun⟩ := exists_of_call_foldlM_ok h
    (List.mk_mem_zipIdx_iff_getElem?.mpr (List.getElem?_eq_getElem hidx))
  dsimp only at hrun
  rw [bind_apply] at hrun
  cases hscan : scanComponent build schema limits base curr schema.components[idx] s with
  | error e =>
      rw [hscan] at hrun
      cases hrun
  | ok found => exact (scan_component_eq hscan).2.1

/-- The second loop of `write_update_components`, which computes the masks again. -/
theorem follows_write_changed_fields
    (hcomparable : ∀ component ∈ schema.components, Comparable limits base curr component)
    (h : scratch.Agree schema.components.length other) :
    Call.Follows (CodecScratch.Agree schema.components.length)
      (Delta.writeChangedFields build schema limits base curr scratch)
      (Delta.writeChangedFields build schema limits base' curr' other) := by
  unfold Delta.writeChangedFields
  refine Call.Follows.foldlM_same (fun entry hentry s t hst => ?_) h
  obtain ⟨component, idx⟩ := entry
  obtain ⟨hidx, hcomponent⟩ := List.mem_zipIdx' hentry
  have hcounts := hcomparable component (hcomponent ▸ List.getElem_mem _)
  unfold Comparable at hcounts
  rw [hbase.find_component, hcurr.find_component] at hcounts
  dsimp only
  rw [hbase.find_component, hcurr.find_component]
  cases hb : findComponent base' component.id with
  | none => exact Call.Follows.pure hst
  | some b =>
      cases hc : findComponent curr' component.id with
      | none => exact Call.Follows.pure hst
      | some c =>
          obtain ⟨hbfields, hcfields, -⟩ := hcounts b c hb hc
          refine Call.Follows.check fun _ => ?_
          have hensure : CodecScratch.Agree schema.components.length
              (s.ensure schema.components.length component.fields.length)
              (t.ensure schema.components.length component.fields.length) :=
            hst.of_eq (CodecScratch.ensure_changed hst.size)
              (CodecScratch.ensure_changed hst.otherSize)
          have hbit : index (m := Call CodecError BitWriter)
              (s.ensure schema.components.length component.fields.length).componentChanged idx
              = index (t.ensure schema.components.length component.fields.length).componentChanged
                idx := by
            unfold index
            rw [hensure.index hidx]
          rw [hbit]
          refine Call.Follows.bind_same _ fun changed => ?_
          cases changed with
          | false => exact Call.Follows.pure hensure
          | true =>
              have hmask :=
                @compute_field_mask_loop_congr build component.id component.fields b.fields
                  c.fields _ _ hbfields hcfields
                  (length_take_ensure s schema.components.length component.fields.length)
                  (length_take_ensure t schema.components.length component.fields.length)
              unfold computeFieldMaskInto
              rw [hmask]
              refine Call.Follows.bind_same _ fun mask => ?_
              refine Call.Follows.bind_same _ fun _ => Call.Follows.bind_same _ fun _ => ?_
              exact Call.Follows.pure (hensure.of_eq rfl rfl)

theorem follows_write_update_components (scratch other : CodecScratch) :
    Call.Follows (fun _ _ => True)
      (Delta.writeUpdateComponents build schema limits base curr scratch)
      (Delta.writeUpdateComponents build schema limits base' curr' other) := by
  unfold Delta.writeUpdateComponents
  refine (follows_write_changed_mask hbase hcurr
    (agree_clear_components scratch other _)).and_ok.bind
    fun s t hst => ?_
  obtain ⟨hagree, _, _, hrun⟩ := hst
  exact (follows_write_changed_fields hbase hcurr
    (fun component hcomponent => comparable_of_changed_mask hrun hcomponent) hagree).imp
      fun _ _ _ => trivial

omit hbase hcurr

/-! ## Section bodies -/

variable {baseline baseline' current current' : Snapshot} (hbaseline : baseline.Reordered baseline')
  (hcurrent : current.Reordered current')

include hbaseline hcurrent

theorem follows_encode_destroy_body (count : Nat) :
    Call.Follows Eq (Delta.encodeDestroyBody baseline current count limits)
      (Delta.encodeDestroyBody baseline' current' count limits) := by
  unfold Delta.encodeDestroyBody
  refine Call.Follows.check fun _ => Call.Follows.bind_same _ fun _ =>
    Call.Follows.bind_same _ fun _ => ?_
  refine (Call.Follows.forM (forall₂_merge_steps hbaseline hcurrent) fun x y hxy => ?_).bind
    fun _ _ _ => Call.Follows.refl _
  refine hxy.elim (fun b b' hb => ?_) (fun c c' _ => ?_) fun b c b' c' _ _ => ?_
  · dsimp only
    rw [hb.id]
    exact Call.Follows.refl _
  · exact Call.Follows.refl _
  · exact Call.Follows.refl _

theorem follows_encode_create_body (count : Nat) :
    Call.Follows Eq (Delta.encodeCreateBody build schema baseline current count limits)
      (Delta.encodeCreateBody build schema baseline' current' count limits) := by
  unfold Delta.encodeCreateBody
  refine Call.Follows.check fun _ => Call.Follows.bind_same _ fun _ =>
    Call.Follows.bind_same _ fun _ => ?_
  refine (Call.Follows.forM (forall₂_merge_steps hbaseline hcurrent) fun x y hxy => ?_).bind
    fun _ _ _ => Call.Follows.refl _
  refine hxy.elim (fun b b' _ => ?_) (fun c c' hc => ?_) fun b c b' c' _ _ => ?_
  · exact Call.Follows.refl _
  · exact follows_write_create_entity hc
  · exact Call.Follows.refl _

theorem follows_encode_update_body_masked (count : Nat) (scratch other : CodecScratch) :
    Call.Follows (fun _ _ => True)
      (Delta.encodeUpdateBodyMasked build schema baseline current count limits scratch)
      (Delta.encodeUpdateBodyMasked build schema baseline' current' count limits other) := by
  unfold Delta.encodeUpdateBodyMasked
  refine Call.Follows.check fun _ => Call.Follows.bind_same _ fun _ =>
    Call.Follows.bind_same _ fun _ => ?_
  refine (Call.Follows.foldlM (S := fun _ _ => True) (forall₂_merge_steps hbaseline hcurrent)
    (fun s t x y _ hxy => ?_) trivial).bind fun _ _ _ => Call.Follows.bind_same _ fun _ =>
      Call.Follows.pure trivial
  refine hxy.elim (fun b b' _ => ?_) (fun c c' _ => ?_) fun b c b' c' hb hc => ?_
  · exact Call.Follows.pure trivial
  · exact Call.Follows.pure trivial
  · dsimp only
    rw [entity_has_updates_reordered hb hc, ensure_component_presence_reordered hb hc, hc.id]
    refine Call.Follows.bind_same _ fun updated => ?_
    cases updated with
    | false => exact Call.Follows.pure trivial
    | true =>
        refine Call.Follows.bind_same _ fun _ => Call.Follows.bind_same _ fun _ =>
          Call.Follows.bind_same _ fun _ => ?_
        exact follows_write_update_components hb hc s t

theorem follows_encode_update_body_sparse (format : Delta.SparseWriter) (count : Nat)
    (scratch other : CodecScratch) :
    Call.Follows (fun _ _ => True)
      (Delta.encodeUpdateBodySparse format build schema baseline current count limits scratch)
      (Delta.encodeUpdateBodySparse format build schema baseline' current' count limits other) := by
  unfold Delta.encodeUpdateBodySparse
  refine Call.Follows.check fun _ => ?_
  refine (Call.Follows.lift (follows_count_sparse_update_entries hbaseline hcurrent scratch
    other)).bind fun p q hpq => ?_
  dsimp only
  rw [hpq]
  refine Call.Follows.check fun _ => Call.Follows.bind_same _ fun _ =>
    Call.Follows.bind_same _ fun _ => ?_
  refine (Call.Follows.foldlM (S := fun _ _ => True) (forall₂_merge_steps hbaseline hcurrent)
    (fun s t x y _ hxy => ?_) trivial).bind fun _ _ _ => Call.Follows.bind_same _ fun _ =>
      Call.Follows.pure trivial
  refine hxy.elim (fun b b' _ => ?_) (fun c c' _ => ?_) fun b c b' c' hb hc => ?_
  · exact Call.Follows.pure trivial
  · exact Call.Follows.pure trivial
  · dsimp only
    rw [entity_has_updates_reordered hb hc, hc.id]
    refine Call.Follows.bind_same _ fun updated => ?_
    cases updated with
    | false => exact Call.Follows.pure trivial
    | true =>
        refine Call.Follows.foldlM_same (fun component _ s t _ => ?_) trivial
        refine (Call.Follows.lift (follows_scan_component hb hc component s t)).bind
          fun p q hpq => ?_
        rw [hpq]
        cases q.1 with
        | none => exact Call.Follows.pure trivial
        | some found => exact Call.Follows.bind_same _ fun _ => Call.Follows.pure trivial

/-- The body of an update section, in either encoding. -/
theorem follows_encode_body (encoding : UpdateEncoding) (count : Nat)
    (scratch other : CodecScratch) :
    Call.Follows (fun _ _ => True)
      (encoding.encodeBody build schema baseline current count limits scratch)
      (encoding.encodeBody build schema baseline' current' count limits other) := by
  cases encoding with
  | masked => exact follows_encode_update_body_masked hbaseline hcurrent count scratch other
  | sparse => exact follows_encode_update_body_sparse hbaseline hcurrent _ count scratch other

omit hbaseline hcurrent

/-! ## Sections -/

/-- Two calls have written the same bytes, and return related values. -/
def SameWritten {α β : Type} (R : α → β → Prop) (p : (α × Nat) × List UInt8)
    (q : (β × Nat) × List UInt8) : Prop :=
  (R p.1.1 q.1.1 ∧ p.1.2 = q.1.2) ∧ p.2 = q.2

section Sections

variable {α β : Type} {R : α → β → Prop} {x : Call CodecError BitWriter α}
  {y : Call CodecError BitWriter β}

theorem follows_write_section (tag : SectionTag) (h : Call.Follows R x y) (out : List UInt8) :
    Outcome.Follows (SameWritten R) (writeSection tag limits x out)
      (writeSection tag limits y out) := by
  unfold writeSection
  refine Outcome.Follows.check fun _ => Outcome.Follows.bind_same _ fun body => ?_
  refine (h.runOn (BitWriter.new body)).bind fun p q hpq => ?_
  obtain ⟨a, writer⟩ := p
  obtain ⟨b, writer'⟩ := q
  obtain ⟨hab, rfl⟩ := hpq
  dsimp only
  refine Outcome.Follows.check fun _ => Outcome.Follows.check fun _ =>
    Outcome.Follows.check fun _ => ?_
  refine Outcome.Follows.bind_same _ fun _ => Outcome.Follows.bind_same _ fun _ =>
    Outcome.Follows.bind_same _ fun _ => Outcome.Follows.bind_same _ fun _ =>
      Outcome.Follows.bind_same _ fun shift => ?_
  by_cases hshift : shift > 0
  · rw [if_pos hshift, if_pos hshift]
    exact Outcome.Follows.bind_same _ fun _ => Outcome.Follows.pure ⟨⟨hab, rfl⟩, rfl⟩
  · rw [if_neg hshift, if_neg hshift]
    exact Outcome.Follows.pure ⟨⟨hab, rfl⟩, rfl⟩

theorem follows_append_section (c : Bool) (tag : SectionTag) (h : Call.Follows R x y) {a : α}
    {b : β} (hab : R a b) (offset : Nat) (out : List UInt8) :
    Outcome.Follows (SameWritten R) (appendSection c tag limits x a offset out)
      (appendSection c tag limits y b offset out) := by
  unfold appendSection
  cases c with
  | false => exact Outcome.Follows.pure ⟨⟨hab, rfl⟩, rfl⟩
  | true =>
      refine (Outcome.Follows.with_tail (S := fun p q => R p.1 q.1 ∧ p.2 = q.2)
        fun tail => follows_write_section tag h tail).bind fun p q hpq => ?_
      obtain ⟨⟨a, written⟩, out⟩ := p
      obtain ⟨⟨b, written'⟩, out'⟩ := q
      obtain ⟨⟨hab, rfl⟩, rfl⟩ := hpq
      exact Outcome.Follows.bind_same _ fun _ => Outcome.Follows.pure ⟨⟨hab, rfl⟩, rfl⟩

end Sections

/-! ## Packets -/

/-- The payload of a delta, whatever the mode. -/
theorem follows_delta_payload (hbaseline : baseline.Reordered baseline')
    (hcurrent : current.Reordered current') (baselineTick : SnapshotTick) (mode : EncodeUpdateMode)
    (scratch other : CodecScratch) (out : List UInt8) :
    Outcome.Follows (SameWritten fun _ _ => True)
      (encodeDeltaPayloadWithMode build schema baselineTick baseline current limits
        mode scratch out)
      (encodeDeltaPayloadWithMode build schema baselineTick baseline' current' limits mode other
        out) := by
  unfold encodeDeltaPayloadWithMode
  rw [hbaseline.tick, ensure_entities_sorted_reordered hbaseline.entities,
    ensure_entities_sorted_reordered hcurrent.entities]
  refine Outcome.Follows.check fun _ => Outcome.Follows.bind_same _ fun _ =>
    Outcome.Follows.bind_same _ fun _ => ?_
  refine (follows_diff_counts hbaseline hcurrent).bind fun counts counts' hcounts => ?_
  subst hcounts
  refine Outcome.Follows.check fun _ => Outcome.Follows.check fun _ =>
    Outcome.Follows.check fun _ => ?_
  refine (follows_append_section _ _ (follows_encode_destroy_body hbaseline hcurrent _) rfl 0
    out).bind fun p q hpq => ?_
  obtain ⟨⟨_, offset⟩, out⟩ := p
  obtain ⟨⟨_, offset'⟩, out'⟩ := q
  obtain ⟨⟨-, rfl⟩, rfl⟩ := hpq
  refine (follows_append_section _ _ (follows_encode_create_body hbaseline hcurrent _) rfl offset
    out).bind fun p q hpq => ?_
  obtain ⟨⟨_, offset⟩, out⟩ := p
  obtain ⟨⟨_, offset'⟩, out'⟩ := q
  obtain ⟨⟨-, rfl⟩, rfl⟩ := hpq
  dsimp only
  by_cases hupdates : counts.updates > 0
  · rw [if_pos hupdates, if_pos hupdates]
    have hchoose : Outcome.Follows (fun p q => p.1 = q.1)
        (chooseUpdateEncoding build schema baseline current limits scratch mode)
        (chooseUpdateEncoding build schema baseline' current' limits other mode) := by
      cases mode with
      | auto => exact follows_select_update_encoding hbaseline hcurrent scratch other
      | sparse => exact Outcome.Follows.pure rfl
    refine hchoose.bind fun p q hpq => ?_
    obtain ⟨encoding, scratch⟩ := p
    obtain ⟨encoding', other⟩ := q
    obtain rfl : encoding = encoding' := hpq
    exact follows_append_section _ _
      (follows_encode_body hbaseline hcurrent encoding _ scratch other) trivial offset out
  · rw [if_neg hupdates, if_neg hupdates]
    exact Outcome.Follows.pure ⟨⟨trivial, rfl⟩, rfl⟩

/-- The packet around a payload. -/
theorem follows_delta_packet {α β : Type} {R : α → β → Prop} (tick baselineTick : SnapshotTick)
    {x : List UInt8 → Outcome CodecError ((α × Nat) × List UInt8)}
    {y : List UInt8 → Outcome CodecError ((β × Nat) × List UInt8)}
    (h : ∀ out, Outcome.Follows (SameWritten R) (x out) (y out)) (out : List UInt8) :
    Outcome.Follows (SameWritten R) (encodeDeltaPacket build schema tick baselineTick x out)
      (encodeDeltaPacket build schema tick baselineTick y out) := by
  unfold encodeDeltaPacket
  refine Outcome.Follows.check fun _ => ?_
  refine (Outcome.Follows.with_tail (S := fun p q => R p.1 q.1 ∧ p.2 = q.2) h).bind
    fun p q hpq => ?_
  obtain ⟨⟨a, payloadLen⟩, out⟩ := p
  obtain ⟨⟨b, payloadLen'⟩, out'⟩ := q
  obtain ⟨⟨hab, rfl⟩, rfl⟩ := hpq
  exact Outcome.Follows.bind_same _ fun _ => Outcome.Follows.bind_same _ fun _ =>
    Outcome.Follows.pure ⟨⟨hab, rfl⟩, rfl⟩

theorem follows_encode_full_snapshot {entities others : List EntitySnapshot}
    (h : List.Forall₂ EntitySnapshot.Reordered entities others) (tick : SnapshotTick)
    (out : List UInt8) :
    Outcome.Follows Eq (encodeFullSnapshot build schema tick entities limits out)
      (encodeFullSnapshot build schema tick others limits out) := by
  have hempty : entities.isEmpty = others.isEmpty := by
    cases h with
    | nil => rfl
    | cons _ _ => rfl
  have hbody : Call.Follows Eq (Full.encodeCreateBody build schema entities limits)
      (Full.encodeCreateBody build schema others limits) := by
    unfold Full.encodeCreateBody
    rw [h.length_eq]
    refine Call.Follows.check fun _ => Call.Follows.bind_same _ fun _ =>
      Call.Follows.bind_same _ fun _ => ?_
    exact (follows_write_entities h none).bind fun _ _ _ => Call.Follows.refl _
  unfold encodeFullSnapshot
  rw [hempty, h.length_eq]
  refine Outcome.Follows.check fun _ => Outcome.Follows.check fun _ => ?_
  refine (follows_append_section _ _ hbody rfl HEADER_SIZE out).bind fun p q hpq => ?_
  obtain ⟨⟨_, offset⟩, out⟩ := p
  obtain ⟨⟨_, offset'⟩, out'⟩ := q
  obtain ⟨⟨-, rfl⟩, rfl⟩ := hpq
  exact Outcome.Follows.refl _

/-- The compact packet of a delta. -/
theorem follows_encode_session (hbaseline : baseline.Reordered baseline')
    (hcurrent : current.Reordered current') (tick baselineTick : SnapshotTick)
    (scratch other : CodecScratch) (out : List UInt8) :
    Call.Follows (SameWritten fun _ _ => True)
      (encodeDeltaSnapshotForClientSessionWithScratch build schema tick baselineTick
        baseline current limits scratch out)
      (encodeDeltaSnapshotForClientSessionWithScratch build schema tick baselineTick
        baseline' current' limits other out) := by
  unfold encodeDeltaSnapshotForClientSessionWithScratch
  refine Call.Follows.bind_same _ fun lastTick => ?_
  refine Call.Follows.check fun _ => Call.Follows.check fun _ => Call.Follows.check fun _ => ?_
  refine (Call.Follows.lift (Outcome.Follows.with_tail (S := fun p q => True ∧ p.2 = q.2)
    fun tail => follows_delta_payload hbaseline hcurrent baselineTick .sparse scratch other
      tail)).bind fun p q hpq => ?_
  obtain ⟨⟨a, payloadLen⟩, out⟩ := p
  obtain ⟨⟨b, payloadLen'⟩, out'⟩ := q
  obtain ⟨⟨-, rfl⟩, rfl⟩ := hpq
  refine Call.Follows.bind_same _ fun _ => Call.Follows.bind_same _ fun _ =>
    Call.Follows.bind_same _ fun header => Call.Follows.bind_same _ fun payloadEnd => ?_
  dsimp only
  by_cases hshort : header.1 < SESSION_MAX_HEADER_SIZE
  · rw [if_pos hshort, if_pos hshort]
    exact Call.Follows.bind_same _ fun _ => Call.Follows.bind_same _ fun _ =>
      Call.Follows.bind_same _ fun _ => Call.Follows.pure ⟨⟨trivial, rfl⟩, rfl⟩
  · rw [if_neg hshort, if_neg hshort]
    exact Call.Follows.bind_same _ fun _ => Call.Follows.bind_same _ fun _ =>
      Call.Follows.bind_same _ fun _ => Call.Follows.pure ⟨⟨trivial, rfl⟩, rfl⟩

end Sdec
