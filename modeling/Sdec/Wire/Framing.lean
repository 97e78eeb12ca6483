import Sdec.Rust.Ensures
import Sdec.Wire.Packet

/-!
# Section framing

A payload that `decode_sections` accepts is cut into frames, one a section, with nothing left over;
what `encode_section` writes is such a frame. No payload makes the decoder panic.
-/

namespace Sdec.Wire

open Rust Bits

variable {buf payload : List UInt8} {offset : Nat} {risk : Prop}

/-! ## Varints -/

/-- What the `read_varu32` functions return at an offset. -/
def VarintAt (buf : List UInt8) (offset : Nat) (read : UInt32 × Nat) : Prop :=
  ∃ number length, scan 5 (buf.drop offset) = .value number length
    ∧ read = (UInt32.ofNat number, offset + length) ∧ offset + length ≤ buf.length

theorem ensures_of_scan {x : Outcome DecodeError (UInt32 × Nat)} (hoffset : offset ≤ buf.length)
    (h : match scan 5 (buf.drop offset) with
      | .value number length => x = .ok (UInt32.ofNat number, offset + length)
      | _ => ∃ error, x = .error (.err error)) :
    Ensures x (VarintAt buf offset) (PanicsOnlyIf risk) := by
  cases hscan : scan 5 (buf.drop offset) with
  | value number length =>
      rw [hscan] at h
      have hlength := (scan_length hscan).2
      rw [List.length_drop] at hlength
      rw [h]
      exact ⟨number, length, hscan, rfl, by omega⟩
  | truncated | overlong =>
      rw [hscan] at h
      obtain ⟨error, rfl⟩ := h
      exact panics_only_if_err error

theorem Packet.read_varu32_ensures (hlen : buf.length ≤ isizeMax) (hoffset : offset ≤ buf.length) :
    Ensures (Packet.readVaru32 buf offset) (VarintAt buf offset) (PanicsOnlyIf risk) :=
  ensures_of_scan hoffset (Packet.read_varu32_eq hlen hoffset)

theorem Session.read_varu32_ensures (hlen : buf.length ≤ isizeMax) (hoffset : offset ≤ buf.length) :
    Ensures (Session.readVaru32 buf offset) (VarintAt buf offset) (PanicsOnlyIf risk) :=
  ensures_of_scan hoffset (Session.read_varu32_eq hlen hoffset)

/-! ## Frames -/

/-- The bytes are a frame of the section: its tag, a varint of at most five bytes that denotes the
length of the body as a `u32`, and the body. -/
def WireSection.Framed (section_ : WireSection) (frame : List UInt8) : Prop :=
  ∃ varint number, frame = section_.tag.toU8 :: (varint ++ section_.body)
    ∧ scan 5 varint = .value number varint.length ∧ number % 2 ^ 32 = section_.body.length

/-- The payload is the concatenation of one frame for each section, in order. -/
def Partitioned (payload : List UInt8) (sections : List WireSection) : Prop :=
  ∃ frames, payload = frames.flatten ∧ List.Forall₂ WireSection.Framed sections frames

/-- A frame among those of a payload. -/
theorem Partitioned.exists_frame {sections : List WireSection} (h : Partitioned payload sections)
    {section_ : WireSection} (hmem : section_ ∈ sections) :
    ∃ frame, section_.Framed frame ∧ frame.length ≤ payload.length := by
  obtain ⟨frames, rfl, hall⟩ := h
  induction hall with
  | nil => cases hmem
  | cons hframe hrest ih =>
      rw [List.flatten_cons, List.length_append]
      rcases List.mem_cons.mp hmem with rfl | hmem
      · exact ⟨_, hframe, Nat.le_add_right _ _⟩
      · obtain ⟨frame, hframed, hle⟩ := ih hmem
        exact ⟨frame, hframed, by omega⟩

/-- A section whose body is no longer than that of another takes no more bytes than any frame of the
other. -/
theorem WireSection.Framed.length_le {section_ other : WireSection} {frame : List UInt8}
    (h : section_.Framed frame) (hle : other.body.length ≤ section_.body.length) :
    other.bytes.length ≤ frame.length := by
  obtain ⟨varint, number, rfl, hscan, hnumber⟩ := h
  have hvarint : (varu32 (UInt32.ofNat other.body.length)).length ≤ varint.length := by
    refine length_leb128_le_of_lt (scan_length hscan).1 (Nat.lt_of_le_of_lt ?_ (scan_lt hscan))
    have := Nat.mod_le number (2 ^ 32)
    have := Nat.mod_le other.body.length (2 ^ 32)
    rw [UInt32.toNat_ofNat']
    omega
  rw [WireSection.bytes, List.length_cons, List.length_cons, List.length_append, List.length_append]
  omega

/-- The body of a framed section has a length that is a `u32`. -/
theorem WireSection.Framed.body_lt {section_ : WireSection} {frame : List UInt8}
    (h : section_.Framed frame) : section_.body.length < 2 ^ 32 := by
  obtain ⟨varint, number, _, _, hnumber⟩ := h
  rw [← hnumber]
  exact Nat.mod_lt _ (Nat.two_pow_pos 32)

theorem SectionTag.parse_ensures (tag : UInt8) :
    Ensures (SectionTag.parse tag) (fun parsed => parsed.toU8 = tag) (PanicsOnlyIf risk) := by
  unfold SectionTag.parse
  split
  all_goals first
    | exact panics_only_if_err _
    | exact UInt8.toNat_inj.mp (by simpa only using Eq.symm ‹_›)

/-- The section whose frame starts with the tag at an offset and the varint behind it. -/
theorem framed_of_varint_at {start stop : Nat} {section_ : WireSection} {read : UInt32 × Nat}
    (htag : payload[offset]? = some section_.tag.toU8) (hread : VarintAt payload (offset + 1) read)
    (hstart : start = read.2) (hstop : stop = start + read.1.toNat) (hle : stop ≤ payload.length)
    (hbody : section_.body = (payload.take stop).drop start) :
    offset < stop ∧ section_.Framed ((payload.take stop).drop offset) := by
  obtain ⟨number, length, hscan, rfl, hlength⟩ := hread
  have hnumber : (UInt32.ofNat number).toNat = number % 2 ^ 32 := UInt32.toNat_ofNat'
  dsimp only at hstart hstop
  have hlt := (List.getElem?_eq_some_iff.mp htag).1
  have hvarint : ((payload.take stop).drop (offset + 1)).take length
      = (payload.drop (offset + 1)).take length := by
    rw [List.drop_take, List.take_take, Nat.min_eq_left (by omega)]
  refine ⟨by omega, (payload.drop (offset + 1)).take length, number, ?_, ?_, ?_⟩
  · -- Behind the tag, the bytes up to the end split where the varint ends.
    have hsplit := List.take_append_drop length ((payload.take stop).drop (offset + 1))
    rw [hvarint, List.drop_drop, ← hstart, ← hbody] at hsplit
    rw [hsplit]
    have hsome : (payload.take stop)[offset]? = some section_.tag.toU8 := by
      rw [List.getElem?_take_of_lt (by omega), htag]
    obtain ⟨hlt', hget⟩ := List.getElem?_eq_some_iff.mp hsome
    rw [List.drop_eq_getElem_cons hlt', hget]
  · rw [scan_take hscan, List.length_take, List.length_drop, Nat.min_eq_left (by omega)]
  · rw [hbody, List.length_drop, List.length_take, ← hnumber]
    omega

/-- The loop of `decode_sections` cuts the rest of the payload into frames. -/
theorem decode_sections_loop_ensures {limits : Limits} (hlen : payload.length ≤ isizeMax)
    (fuel offset : Nat) (done : List WireSection) (hoffset : offset ≤ payload.length)
    (hfuel : payload.length < offset + fuel) (hdone : limits.AdmitSections done) :
    Ensures (decodeSectionsLoop payload limits fuel offset done) (fun sections =>
      limits.AdmitSections sections
        ∧ ∃ rest, sections = done ++ rest ∧ Partitioned (payload.drop offset) rest)
      (PanicsOnlyIf risk) := by
  induction fuel generalizing offset done with
  | zero => omega
  | succ fuel ih =>
      unfold decodeSectionsLoop
      by_cases hend : offset ≥ payload.length
      · rw [if_pos hend]
        refine ⟨hdone, [], (List.append_nil done).symm, [], ?_, List.Forall₂.nil⟩
        rw [List.drop_eq_nil_of_le hend, List.flatten_nil]
      rw [if_neg hend]
      refine Ensures.check (fun _ => panics_only_if_err _) fun hcount => ?_
      have hsome := List.getElem?_eq_getElem (Nat.lt_of_not_le hend)
      rw [index_of_some hsome, pure_bind,
        usize_add_of_le (by simp only [isizeMax, usizeMax] at *; omega), pure_bind]
      refine (Packet.read_varu32_ensures hlen (by omega)).bind fun length hread => ?_
      obtain ⟨len, start⟩ := length
      refine Ensures.check (fun _ => panics_only_if_err _) fun hlong => ?_
      have hstart : start ≤ payload.length := by
        obtain ⟨number, length, -, heq, hle⟩ := hread
        rw [(Prod.mk.inj heq).2]
        exact hle
      -- the end of the section is a `usize`, as the start is inside the payload
      have hfits : start + len.toNat ≤ usizeMax := by
        have := len.toNat_lt
        simp only [isizeMax, usizeMax] at *
        omega
      rw [usize_add_of_le hfits, pure_bind]
      refine Ensures.check (fun _ => panics_only_if_err _) fun hinside => ?_
      refine (SectionTag.parse_ensures _).bind fun tag htag => ?_
      rw [slice_of_le (Nat.le_add_right _ _) (Nat.le_of_not_lt hinside), pure_bind]
      obtain ⟨stop, hstop⟩ : ∃ stop, stop = start + len.toNat := ⟨_, rfl⟩
      rw [← hstop] at hinside hfits ⊢
      obtain ⟨section_, hsection⟩ : ∃ section_ : WireSection,
          section_ = ⟨tag, (payload.take stop).drop start⟩ := ⟨_, rfl⟩
      -- the bytes up to the end are one frame, and the loop goes on behind it
      obtain ⟨hmoves, hframed⟩ := framed_of_varint_at (by rw [hsection, htag, hsome]) hread rfl
        hstop (Nat.le_of_not_lt hinside) (congrArg WireSection.body hsection)
      rw [← hsection]
      refine (ih stop _ (Nat.le_of_not_lt hinside) (by omega) ⟨?_, ?_⟩).imp ?_
      · rw [List.length_append, List.length_singleton]
        omega
      · intro other hother
        rcases List.mem_append.mp hother with hold | hnew
        · exact hdone.2 other hold
        · rw [List.mem_singleton.mp hnew, hsection]
          show ((payload.take stop).drop start).length ≤ _
          rw [List.length_drop, List.length_take]
          omega
      · intro sections h
        obtain ⟨hadmits, rest, hsections, frames, hframes, hall⟩ := h
        refine ⟨hadmits, _ :: rest, ?_, _ :: frames, ?_, hall.cons hframed⟩
        · rw [hsections, List.append_assoc, List.singleton_append]
        · rw [List.flatten_cons, ← hframes, List.drop_take]
          have hrest : payload.drop stop = (payload.drop offset).drop (stop - offset) := by
            rw [List.drop_drop, Nat.add_sub_cancel' (Nat.le_of_lt hmoves)]
          rw [hrest, List.take_append_drop]

theorem decode_sections_ensures {limits : Limits} (hlen : payload.length ≤ isizeMax) :
    Ensures (decodeSections payload limits) (fun sections =>
      limits.AdmitSections sections ∧ Partitioned payload sections) (PanicsOnlyIf risk) := by
  refine (decode_sections_loop_ensures hlen _ 0 [] (Nat.zero_le _) (by omega)
    ⟨Nat.zero_le _, fun _ h => nomatch h⟩).imp ?_
  intro sections ⟨hadmits, rest, hsections, hrest⟩
  rw [List.nil_append] at hsections
  rw [hsections]
  exact ⟨hsections ▸ hadmits, hrest⟩

/-- Behind its header, whose length of the payload is right, a packet is cut into the frames of its
sections. -/
structure WirePacket.CutFrom (packet : WirePacket) (limits : Limits) (buf : List UInt8) : Prop where
  header : HEADER_SIZE ≤ buf.length
  size : buf.length ≤ limits.maxPacketBytes
  payload : packet.header.payloadLen.toNat = buf.length - HEADER_SIZE
  admits : limits.AdmitSections packet.sections
  partition : Partitioned (buf.drop HEADER_SIZE) packet.sections

/-- What `decode_packet` accepts. No bytes make it panic. -/
theorem decode_packet_ensures {limits : Limits} (hlen : buf.length ≤ isizeMax) :
    Ensures (decodePacket buf limits) (fun packet => packet.CutFrom limits buf)
      (PanicsOnlyIf risk) := by
  have hheader : HEADER_SIZE = 28 := rfl
  unfold decodePacket
  refine Ensures.check (fun _ => panics_only_if_err _) fun hshort => ?_
  refine Ensures.check (fun _ => panics_only_if_err _) fun hlong => ?_
  -- The fields of the header lie within the bytes that the first check has seen.
  have hfield (start stop : Nat) (hle : start ≤ stop) (hstop : stop ≤ 28) :
      slice (m := Outcome DecodeError) buf start stop = pure ((buf.take stop).drop start) :=
    slice_of_le hle (by omega)
  have hpayload : slice (m := Outcome DecodeError) buf HEADER_SIZE buf.length
      = pure (buf.drop HEADER_SIZE) := by
    rw [slice_of_le (by omega) (Nat.le_refl _), List.take_length]
  have hsub : usizeSub (m := Outcome DecodeError) buf.length HEADER_SIZE
      = pure (buf.length - HEADER_SIZE) := if_pos (by omega)
  rw [hfield 0 4 (by omega) (by omega), pure_bind]
  refine Ensures.check (fun _ => panics_only_if_err _) fun _ => ?_
  rw [hfield 4 6 (by omega) (by omega), pure_bind]
  refine Ensures.check (fun _ => panics_only_if_err _) fun _ => ?_
  rw [hfield 6 8 (by omega) (by omega), pure_bind]
  refine Ensures.check (fun _ => panics_only_if_err _) fun _ => ?_
  rw [hfield 8 16 (by omega) (by omega), pure_bind, hfield 16 20 (by omega) (by omega), pure_bind,
    hfield 20 24 (by omega) (by omega), pure_bind, hfield 24 28 (by omega) (by omega), pure_bind]
  refine Ensures.check (fun _ => panics_only_if_err _) fun _ => ?_
  refine Ensures.check (fun _ => panics_only_if_err _) fun _ => ?_
  rw [hsub, pure_bind]
  refine Ensures.check (fun _ => panics_only_if_err _) fun hsize => ?_
  rw [hpayload, pure_bind]
  have hdrop : (buf.drop HEADER_SIZE).length ≤ isizeMax := by
    rw [List.length_drop]
    omega
  refine (decode_sections_ensures hdrop).bind fun sections ⟨hadmits, hpartition⟩ => ?_
  exact Ensures.pure ⟨Nat.le_of_not_lt hshort, Nat.le_of_not_lt hlong, not_not.mp hsize, hadmits,
    hpartition⟩

/-- Wider limits change nothing about a payload that is accepted. -/
theorem decode_sections_loop_widen {limits wider : Limits} {fuel offset : Nat}
    {done result : List WireSection} (hcount : limits.maxSections ≤ wider.maxSections)
    (hsize : limits.maxSectionLen ≤ wider.maxSectionLen)
    (h : decodeSectionsLoop payload limits fuel offset done = .ok result) :
    decodeSectionsLoop payload wider fuel offset done = .ok result := by
  induction fuel generalizing offset done with
  | zero => cases h
  | succ fuel ih =>
      unfold decodeSectionsLoop at h ⊢
      by_cases hend : offset ≥ payload.length
      · rw [if_pos hend] at h ⊢
        exact h
      · rw [if_neg hend] at h ⊢
        obtain ⟨hfewer, h⟩ := check_fail_eq_ok.mp h
        obtain ⟨tag, htag, h⟩ := bind_eq_ok.mp h
        obtain ⟨next, hnext, h⟩ := bind_eq_ok.mp h
        obtain ⟨⟨len, start⟩, hread, h⟩ := bind_eq_ok.mp h
        obtain ⟨hshort, h⟩ := check_fail_eq_ok.mp h
        obtain ⟨stop, hstop, h⟩ := bind_eq_ok.mp h
        obtain ⟨hinside, h⟩ := check_fail_eq_ok.mp h
        obtain ⟨parsed, hparsed, h⟩ := bind_eq_ok.mp h
        obtain ⟨body, hbody, h⟩ := bind_eq_ok.mp h
        have hrest := ih h
        rw [check_fail_eq_ok, htag, ok_bind, hnext, ok_bind, hread, ok_bind]
        refine ⟨by omega, ?_⟩
        rw [check_fail_eq_ok, hstop, ok_bind]
        refine ⟨by omega, ?_⟩
        rw [check_fail_eq_ok, hparsed, ok_bind, hbody, ok_bind]
        exact ⟨hinside, hrest⟩

/-- Whatever the limits, a payload made of sections is cut into no others. -/
theorem decode_sections_unique {limits : Limits} {sections sections' : List WireSection}
    (hlen : (sections.flatMap WireSection.bytes).length ≤ isizeMax)
    (hbodies : ∀ s ∈ sections, s.body.length < 2 ^ 32)
    (h : decodeSections (sections.flatMap WireSection.bytes) limits = .ok sections') :
    sections' = sections := by
  obtain ⟨wider, hwider⟩ : ∃ wider : Limits, wider
      = ⟨0, limits.maxSections + sections.length, limits.maxSectionLen + 2 ^ 32⟩ := ⟨_, rfl⟩
  have hadmits : wider.AdmitSections sections := by
    rw [hwider]
    refine ⟨Nat.le_add_left _ _, fun s hs => ?_⟩
    have := hbodies s hs
    show s.body.length ≤ limits.maxSectionLen + 2 ^ 32
    omega
  have hwide : decodeSections (sections.flatMap WireSection.bytes) wider = .ok sections' :=
    decode_sections_loop_widen (by rw [hwider]; exact Nat.le_add_right _ _)
      (by rw [hwider]; exact Nat.le_add_right _ _) h
  rw [decode_sections_eq hlen hbodies hadmits] at hwide
  exact (Except.ok.inj hwide).symm

/-! ## Encoding -/

end Sdec.Wire
