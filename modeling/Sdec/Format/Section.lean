import Sdec.Bitstream.Reads
import Sdec.Bitstream.Writes
import Sdec.Codec.Component
import Sdec.Codec.Section
import Sdec.Rust.Appends

/-!
# The format of sections

A section body is a count, the entries, and padding to a whole number of bytes. `appends_section`
says that `write_section` puts the tag, the length and the bytes of a body behind what is in the
buffer, and `read_section_eq_ok` says what the decoders make of such a body.
-/

namespace Sdec

open Rust Bits Bitstream Codec Wire

variable {limits : CodecLimits} {pos : Nat} {items : Layout} {α : Type}

/-- The layout of a section body with the given number of entries. -/
def countedLayout (count : Nat) (entries : Layout) : Layout :=
  .align :: (bytes (varu32 (UInt32.ofNat count)) ++ (entries ++ [.align]))

theorem stop_counted_layout_mod (pos count : Nat) (entries : Layout) :
    stop pos (countedLayout count entries) % 8 = 0 := by
  rw [countedLayout, stop_cons, stop_append, stop_append_align_mod]

theorem length_flatMap_le_stop {β : Type} {layout : β → Layout} {entries : List β}
    (hentry : ∀ x ∈ entries, ∀ pos, pos + 8 ≤ stop pos (layout x)) :
    pos + 8 * entries.length ≤ stop pos (entries.flatMap layout) := by
  induction entries generalizing pos with
  | nil => exact le_stop _ _
  | cons x entries ih =>
      have hx := hentry x List.mem_cons_self pos
      have hrest := @ih (stop pos (layout x)) fun y hy => hentry y (List.mem_cons_of_mem _ hy)
      rw [List.flatMap_cons, stop_append, List.length_cons]
      omega

/-- A body has no more entries than bytes, if each entry takes a byte. -/
theorem length_entries_le {β : Type} {layout : β → Layout} {entries : List β} {count : Nat}
    {body : List UInt8} (hentry : ∀ x ∈ entries, ∀ pos, pos + 8 ≤ stop pos (layout x))
    (hbody : ofBytes body = render 0 (countedLayout count (entries.flatMap layout))) :
    entries.length ≤ body.length := by
  have hlength : stop 0 (countedLayout count (entries.flatMap layout)) = 8 * body.length := by
    rw [stop, ← hbody, length_ofBytes, Nat.zero_add]
  have hentries := @length_flatMap_le_stop
    (stop (stop 0 [.align]) (bytes (varu32 (UInt32.ofNat count)))) β layout entries hentry
  rw [countedLayout, stop_cons, stop_append, stop_append] at hlength
  have := le_stop (stop (stop (stop 0 [.align]) (bytes (varu32 (UInt32.ofNat count))))
    (entries.flatMap layout)) [.align]
  omega

/-! ## Writing -/

theorem writes_align : Writes pos (stream BitWriter.alignToByte) (fun _ => True) [.align] :=
  emits_align_to_byte.map_err.writes_true

/-- The frame that every encoder writes around its entries. -/
theorem writes_counted {next : Call CodecError BitWriter α} {facts : α → Prop} {count : Nat}
    (h : ∀ pos, Writes pos next facts (items ++ [.align])) :
    Writes pos (do
      stream BitWriter.alignToByte
      stream (BitWriter.writeVaru32 (UInt32.ofNat count))
      next) facts (countedLayout count items) := by
  have haligned : stop pos [.align] % 8 = 0 := by rw [stop_align, add_padding_mod]
  rw [countedLayout, ← List.singleton_append]
  refine writes_align.bind fun _ _ => ?_
  exact (emits_write_varu32 haligned _).map_err.writes_true.bind fun _ _ => h _

/-- `varu32_len` of `snapshot.rs` is the function of the same name of `packet.rs`. -/
theorem varu32_len_loop_eq (fuel len : Nat) (value : UInt32) :
    varu32LenLoop fuel value len = Packet.varu32LenLoop fuel value len := by
  induction fuel generalizing value len with
  | zero => rfl
  | succ fuel ih =>
      rw [varu32LenLoop, Packet.varu32LenLoop, ih]

theorem varu32_len_eq (value : UInt32) : varu32Len value = (varu32 value).length :=
  (varu32_len_loop_eq 5 1 value).trans (Packet.varu32_len_eq value)

/-- `write_varu32` fills a slice of the length of the varint. -/
theorem write_varu32_eq {value : UInt32} {out : List UInt8}
    (hlen : out.length = (varu32 value).length) :
      Codec.writeVaru32 value out = .ok (varu32 value) := by
  have hbound := length_varu32_le value
  have hmax : out.length ≤ isizeMax := by
    rw [hlen]
    exact Nat.le_trans hbound (by decide)
  have hloop := write_varu32_loop_eq (ε := CodecError) 0 5 hmax
    (by rw [Nat.zero_add]; exact Nat.le_of_eq hlen.symm)
  have hrest : out.drop (0 + (leb128 5 value.toNat).length) = [] := by
    rw [List.drop_eq_nil_iff, Nat.zero_add, hlen]
    exact Nat.le_refl _
  rw [Codec.writeVaru32, hloop, ok_bind, hrest, List.take_zero, List.append_nil]
  rfl

/-- What the writer of a body leaves in a slice. -/
theorem run_on_of_emits {writeBody : Call CodecError BitWriter α} {a : α} {out body : List UInt8}
    (h : Emits 0 writeBody True items a) (hbody : ofBytes body = render 0 items) :
    (8 * body.length ≤ capacity out →
      writeBody.runOn (BitWriter.new out)
        = .ok (a, ⟨body ++ out.drop body.length, 8 * body.length⟩)) ∧
    (¬ 8 * body.length ≤ capacity out →
      ∃ error, writeBody.runOn (BitWriter.new out) = .error error) := by
  have hstop : stop 0 items = 8 * body.length := by
    rw [stop, ← hbody, length_ofBytes, Nat.zero_add]
  obtain ⟨hwrite, herror⟩ := h out (Nat.zero_le _)
  rw [hstop] at hwrite herror
  refine ⟨fun hfits => ?_, fun hno => ?_⟩
  · obtain ⟨buf, hrun, hbits⟩ := hwrite trivial hfits
    have hbuf : buf = body ++ out.drop body.length := by
      apply ofBytes_injective
      rw [hbits, ← hbody, overwrite, ofBytes_append, ← drop_ofBytes, length_ofBytes, Nat.zero_add,
        List.take_zero, List.nil_append]
    simp only [Call.runOn, BitWriter.new, hrun, hbuf]
  · obtain ⟨error, writer, hrun⟩ := herror fun hyes => hno hyes.2
    exact ⟨error, by simp only [Call.runOn, BitWriter.new, hrun]⟩

/-- A writer of a body that succeeds has left the body at the front of the slice. -/
theorem run_on_of_writes {writeBody : Call CodecError BitWriter α} {facts : α → Prop} {a : α}
    {out body : List UInt8} {writer : BitWriter} (h : Writes 0 writeBody facts items)
    (hbody : ofBytes body = render 0 items)
    (hrun : writeBody.runOn (BitWriter.new out) = .ok (a, writer)) :
    facts a ∧ writer.buf.take writer.finish = body := by
  rcases h with hfails | ⟨b, hb, hemits⟩
  · obtain ⟨error, writer', herror⟩ := hfails out (Nat.zero_le _)
    simp only [Call.runOn, BitWriter.new, herror] at hrun
    cases hrun
  obtain ⟨hok, herror⟩ := @run_on_of_emits items α writeBody b out body hemits hbody
  by_cases hfits : 8 * body.length ≤ capacity out
  · rw [hok hfits] at hrun
    cases hrun
    have hfinish : BitWriter.finish ⟨body ++ out.drop body.length, 8 * body.length⟩
        = body.length := by
      show (8 * body.length + 7) / 8 = body.length
      omega
    exact ⟨hb, by rw [hfinish, List.take_left]⟩
  · obtain ⟨error, herror⟩ := herror hfits
    rw [herror] at hrun
    cases hrun

/-- The end of `write_section`: the varint of the length is written into its room, and the body is
moved to where the varint ends. -/
theorem move_body_eq {β : Type} (b : β) (tag : UInt8) (body rest : List UInt8)
    {varint room gap : List UInt8}
    (hroom : room.length = varint.length) (hgap : varint.length + gap.length = VARINT_MAX_BYTES) :
    (do
      let out ← copyFromSlice (tag :: (room ++ (gap ++ (body ++ rest)))) 1 varint
      let shift ← usizeSub VARINT_MAX_BYTES varint.length
      if shift > 0 then
        let out ← copyWithin out (1 + VARINT_MAX_BYTES) (1 + VARINT_MAX_BYTES + body.length)
          (1 + varint.length)
        return (b, out)
      else
        return (b, out) : Outcome CodecError (β × List UInt8))
      = .ok (b, tag :: (varint ++ body) ++ (gap ++ (body ++ rest)).drop body.length) := by
  have hcopy : copyFromSlice (m := Outcome CodecError)
      ([tag] ++ (room ++ (gap ++ (body ++ rest)))) 1 varint
      = pure ([tag] ++ varint ++ (gap ++ (body ++ rest))) := by
    have hone : 1 = [tag].length := rfl
    rw [copy_from_slice_append hone (by simp; omega), ← hroom, List.drop_left]
  have hbody : (tag :: (varint ++ (gap ++ (body ++ rest)))).drop (1 + VARINT_MAX_BYTES)
      = body ++ rest := by
    rw [← hgap, Nat.add_comm, List.drop_succ_cons, ← List.drop_drop, List.drop_left, List.drop_left]
  have hmove : copyFromSlice (m := Outcome CodecError) (tag :: varint ++ (gap ++ (body ++ rest)))
      (1 + varint.length) body
      = pure (tag :: varint ++ body ++ (gap ++ (body ++ rest)).drop body.length) :=
    copy_from_slice_append (by rw [List.length_cons, Nat.add_comm]) (by simp; omega)
  have hsub : usizeSub (m := Outcome CodecError) VARINT_MAX_BYTES varint.length
      = pure gap.length := by
    rw [← hgap, usizeSub, if_pos (Nat.le_add_right _ _), Nat.add_sub_cancel_left]
  rw [← List.singleton_append, hcopy, pure_bind, hsub, pure_bind]
  by_cases hshift : gap.length > 0
  · have hslice : slice (m := Outcome CodecError) ([tag] ++ varint ++ (gap ++ (body ++ rest)))
        (1 + VARINT_MAX_BYTES) (1 + VARINT_MAX_BYTES + body.length) = pure body :=
      slice_of_drop_eq_append hbody (by simp; omega)
    rw [if_pos hshift, copyWithin, hslice, pure_bind]
    exact congrArg (· >>= _) hmove
  · have hnil : gap = [] := List.eq_nil_of_length_eq_zero (by omega)
    rw [if_neg hshift, hnil, List.nil_append, List.drop_left, List.append_assoc, List.cons_append,
      List.nil_append, List.cons_append, List.append_assoc]
    rfl

/-- When the body was written behind the room of six bytes, `write_section` writes the tag and the
length of the body into the room, and moves the body to where they end. -/
theorem write_section_eq (tag : SectionTag) {writeBody : Call CodecError BitWriter α} {a : α}
    {body room old rest : List UInt8} (hroom : room.length = 1 + VARINT_MAX_BYTES)
    (hold : old.length = body.length + rest.length)
    (hrun : writeBody.runOn (BitWriter.new old) = .ok (a, ⟨body ++ rest, 8 * body.length⟩))
    (hmax : body.length ≤ limits.maxSectionBytes) (hlong : body.length < 2 ^ 32) :
    ∃ tail, writeSection tag limits writeBody (room ++ old)
        = .ok ((a, (WireSection.bytes ⟨tag, body⟩).length), WireSection.bytes ⟨tag, body⟩ ++ tail)
      ∧ (WireSection.bytes ⟨tag, body⟩).length + tail.length = (room ++ old).length := by
  obtain ⟨varint, hvarint⟩ : ∃ varint, varint = varu32 (UInt32.ofNat body.length) := ⟨_, rfl⟩
  have hvarintLen := length_varu32_le (UInt32.ofNat body.length)
  have hsize : VARINT_MAX_BYTES = 5 := rfl
  rw [← hvarint] at hvarintLen
  obtain ⟨first, spare, rfl⟩ : ∃ first spare, room = first :: spare := by
    cases room with
    | nil => cases hroom
    | cons first spare => exact ⟨first, spare, rfl⟩
  rw [List.length_cons] at hroom
  -- The room is cut where the varint will end.
  obtain ⟨front, gap, hspare, hfront⟩ : ∃ front gap, spare = front ++ gap
      ∧ front.length = varint.length :=
    ⟨_, _, (List.take_append_drop varint.length spare).symm, by rw [List.length_take]; omega⟩
  subst hspare
  rw [List.length_append] at hroom
  have hlen : (first :: (front ++ gap) ++ old).length = 6 + old.length := by simp; omega
  have hlen' : (first :: (front ++ gap) ++ (body ++ rest)).length = 6 + old.length := by
    simp
    omega
  have hslice : slice (m := Outcome CodecError) (first :: (front ++ gap) ++ old)
      (1 + VARINT_MAX_BYTES) (6 + old.length) = pure old := by
    have hdrop : (first :: (front ++ gap) ++ old).drop (1 + VARINT_MAX_BYTES) = old ++ [] := by
      rw [List.append_nil, List.drop_left' (by simp; omega)]
    exact slice_of_drop_eq_append hdrop (by omega)
  have htake : (first :: (front ++ gap) ++ old).take (1 + VARINT_MAX_BYTES)
      = first :: (front ++ gap) :=
    List.take_left' (by simp; omega)
  have hfinish : (8 * body.length + 7) / 8 = body.length := by omega
  have hstore :
      store (m := Outcome CodecError) (first :: (front ++ gap) ++ (body ++ rest)) 0 tag.toU8
      = pure (tag.toU8 :: (front ++ (gap ++ (body ++ rest)))) := by
    rw [store_of_lt (by omega), List.cons_append, List.append_assoc]
    rfl
  have hroomSlice :
      slice (m := Outcome CodecError) (tag.toU8 :: (front ++ (gap ++ (body ++ rest)))) 1
      (1 + varint.length) = pure front := by
    rw [← hfront]
    exact slice_of_drop_eq_append rfl (by simp)
  have hwrite : Codec.writeVaru32 (UInt32.ofNat body.length) front = .ok varint := by
    rw [hvarint] at hfront ⊢
    exact write_varu32_eq hfront
  have hmove := move_body_eq (a, (WireSection.bytes ⟨tag, body⟩).length) tag.toU8 body rest hfront
    (by omega : varint.length + gap.length = VARINT_MAX_BYTES)
  have htotal : 1 + varint.length + body.length = (WireSection.bytes ⟨tag, body⟩).length := by
    rw [WireSection.bytes, ← hvarint, List.length_cons, List.length_append]
    dsimp only
    omega
  have hvarintSize : varu32Len (UInt32.ofNat body.length) = varint.length := by
    rw [varu32_len_eq, hvarint]
  have hfits : ¬ 6 + old.length < 1 + varint.length + body.length := by omega
  refine ⟨(gap ++ (body ++ rest)).drop body.length, ?_, by simp; omega⟩
  rw [writeSection, if_neg (by omega)]
  simp only [hlen, hslice, pure_bind, hrun, ok_bind, htake, BitWriter.finish, hfinish,
    if_neg (Nat.not_lt.mpr hmax), if_neg (Nat.not_le.mpr hlong), hlen', hvarintSize,
    if_neg hfits, hstore, hroomSlice, hwrite]
  rw [htotal, hmove, WireSection.bytes, ← hvarint]

/-- A section whose body cannot be written, or turns out too long, is not written. -/
theorem write_section_fails {tag : SectionTag} {writeBody : Call CodecError BitWriter α}
    {out : List UInt8} (h : 1 + VARINT_MAX_BYTES ≤ out.length → ∀ a writer,
      writeBody.runOn (BitWriter.new (out.drop (1 + VARINT_MAX_BYTES))) = .ok (a, writer) →
        ¬ (writer.finish ≤ limits.maxSectionBytes ∧ writer.finish < 2 ^ 32)) :
    ∃ error, writeSection tag limits writeBody out = .error error := by
  rw [writeSection]
  by_cases hshort : out.length < 1 + VARINT_MAX_BYTES
  · rw [if_pos hshort]
    exact ⟨_, rfl⟩
  rw [if_neg hshort]
  have hslice : slice (m := Outcome CodecError) out (1 + VARINT_MAX_BYTES) out.length
      = pure (out.drop (1 + VARINT_MAX_BYTES)) := by
    rw [slice_of_le (by omega) (Nat.le_refl _), List.take_length]
  simp only [hslice, pure_bind]
  cases hrun : writeBody.runOn (BitWriter.new (out.drop (1 + VARINT_MAX_BYTES))) with
  | error e => exact ⟨e, rfl⟩
  | ok p =>
      have hlarge := h (Nat.le_of_not_lt hshort) p.1 p.2 hrun
      simp only [ok_bind]
      by_cases hmax : p.2.finish > limits.maxSectionBytes
      · rw [if_pos hmax]
        exact ⟨_, rfl⟩
      · have hlong : p.2.finish ≥ 2 ^ 32 := by omega
        rw [if_neg hmax, if_pos hlong]
        exact ⟨_, rfl⟩

/-- There is room for a body behind that of the tag and the longest length. -/
theorem body_fits_iff {body out : List UInt8} (hlong : body.length < 2 ^ 32)
    (hroom : 1 + VARINT_MAX_BYTES ≤ out.length) :
    8 * body.length ≤ capacity (out.drop (1 + VARINT_MAX_BYTES))
      ↔ 6 + body.length ≤ out.length := by
  have hsize : VARINT_MAX_BYTES = 5 := rfl
  simp only [capacity, saturatingMul, List.length_drop, usizeMax]
  omega

/-- A section is written where there is room for its body and the longest length. -/
theorem write_section_ok {tag : SectionTag} {writeBody : Call CodecError BitWriter α} {a : α}
    {body out : List UInt8} (h : Emits 0 writeBody True items a)
    (hbody : ofBytes body = render 0 items) (hmax : body.length ≤ limits.maxSectionBytes)
    (hlong : body.length < 2 ^ 32) (hfits : 6 + body.length ≤ out.length) :
    ∃ tail, writeSection tag limits writeBody out
        = .ok ((a, (WireSection.bytes ⟨tag, body⟩).length), WireSection.bytes ⟨tag, body⟩ ++ tail)
      ∧ (WireSection.bytes ⟨tag, body⟩).length + tail.length = out.length := by
  have hsize : VARINT_MAX_BYTES = 5 := rfl
  have hroom : 1 + VARINT_MAX_BYTES ≤ out.length := by omega
  have hrun :=
    (@run_on_of_emits items α writeBody a (out.drop (1 + VARINT_MAX_BYTES)) body h hbody).1
      ((body_fits_iff hlong hroom).mpr hfits)
  have hsection := write_section_eq tag (by rw [List.length_take, Nat.min_eq_left hroom])
    (by simp; omega) hrun hmax hlong
  rwa [List.take_append_drop] at hsection

/-- `write_section` puts the tag, the length and the bytes of a body into a buffer that has room for
the longest length. -/
theorem puts_write_section {tag : SectionTag} {writeBody : Call CodecError BitWriter α}
    {facts : α → Prop} {body : List UInt8} (h : Writes 0 writeBody facts items)
    (hbody : ofBytes body = render 0 items) :
    Puts (writeSection tag limits writeBody)
      (fun a => facts a ∧ body.length ≤ limits.maxSectionBytes ∧ body.length < 2 ^ 32)
      (6 + body.length) (WireSection.bytes ⟨tag, body⟩) := by
  rcases h with hfails | ⟨a, ha, hemits⟩
  · refine .inl fun out _ => write_section_fails fun _ a writer hrun => ?_
    obtain ⟨error, writer', herror⟩ := hfails (out.drop (1 + VARINT_MAX_BYTES)) (Nat.zero_le _)
    simp only [Call.runOn, BitWriter.new, herror] at hrun
    cases hrun
  have hrun (old : List UInt8) := @run_on_of_emits items α writeBody a old body hemits hbody
  have hfinish (buf : List UInt8) : BitWriter.finish ⟨buf, 8 * body.length⟩ = body.length := by
    show (8 * body.length + 7) / 8 = body.length
    omega
  have hsize : VARINT_MAX_BYTES = 5 := rfl
  by_cases hlimits : body.length ≤ limits.maxSectionBytes ∧ body.length < 2 ^ 32
  · have hvarint := length_varu32_le (UInt32.ofNat body.length)
    refine .inr ⟨a, ⟨ha, hlimits⟩, by simp [WireSection.bytes]; omega, fun out hlen => ?_⟩
    refine ⟨fun hfits => write_section_ok hemits hbody hlimits.1 hlimits.2 hfits, fun hno =>
      write_section_fails fun hroom a writer hok => ?_⟩
    obtain ⟨error, herror⟩ := (hrun _).2 ((body_fits_iff hlimits.2 hroom).not.mpr hno)
    rw [herror] at hok
    cases hok
  · refine .inl fun out _ => write_section_fails fun _ a writer hok => ?_
    by_cases hfits : 8 * body.length ≤ capacity (out.drop (1 + VARINT_MAX_BYTES))
    · rw [(hrun _).1 hfits] at hok
      cases hok
      rwa [hfinish]
    · obtain ⟨error, herror⟩ := (hrun _).2 hfits
      rw [herror] at hok
      cases hok

/-- Of a body that is written, the section depends on nothing but the writer it leaves. -/
theorem write_section_congr {β : Type} {tag : SectionTag} {x : Call CodecError BitWriter α}
    {y : Call CodecError BitWriter β} {b : β}
    (h : ∀ out a writer, x.runOn (BitWriter.new out) = .ok (a, writer) →
      y.runOn (BitWriter.new out) = .ok (b, writer)) {out out' : List UInt8} {a : α} {n : Nat}
    (hrun : writeSection tag limits x out = .ok ((a, n), out')) :
    writeSection tag limits y out = .ok ((b, n), out') := by
  rw [writeSection, check_fail_eq_ok] at hrun ⊢
  obtain ⟨hroom, hrun⟩ := hrun
  refine ⟨hroom, ?_⟩
  obtain ⟨body, hbody, hrun⟩ := bind_eq_ok.mp hrun
  refine bind_eq_ok.mpr ⟨body, hbody, ?_⟩
  obtain ⟨⟨a', writer⟩, hx, hrun⟩ := bind_eq_ok.mp hrun
  refine bind_eq_ok.mpr ⟨(b, writer), h _ _ _ hx, ?_⟩
  dsimp only at hrun ⊢
  rw [check_fail_eq_ok, check_fail_eq_ok, check_fail_eq_ok] at hrun ⊢
  obtain ⟨hmax, hlong, hfits, hrun⟩ := hrun
  refine ⟨hmax, hlong, hfits, ?_⟩
  obtain ⟨out₁, h₁, hrun⟩ := bind_eq_ok.mp hrun
  obtain ⟨varint, h₂, hrun⟩ := bind_eq_ok.mp hrun
  obtain ⟨varint', h₃, hrun⟩ := bind_eq_ok.mp hrun
  obtain ⟨out₂, h₄, hrun⟩ := bind_eq_ok.mp hrun
  obtain ⟨shift, h₅, hrun⟩ := bind_eq_ok.mp hrun
  refine bind_eq_ok.mpr ⟨out₁, h₁, bind_eq_ok.mpr ⟨varint, h₂, bind_eq_ok.mpr ⟨varint', h₃,
    bind_eq_ok.mpr ⟨out₂, h₄, bind_eq_ok.mpr ⟨shift, h₅, ?_⟩⟩⟩⟩⟩
  by_cases hshift : shift > 0
  · rw [if_pos hshift] at hrun ⊢
    obtain ⟨out₃, h₆, hrun⟩ := bind_eq_ok.mp hrun
    cases hrun
    exact bind_eq_ok.mpr ⟨_, h₆, rfl⟩
  · rw [if_neg hshift] at hrun ⊢
    cases hrun
    rfl

/-- The section that is written if `c` holds. -/
def sectionIf (c : Bool) (section_ : WireSection) : List WireSection := if c then [section_] else []

theorem mem_section_if {c : Bool} {s section_ : WireSection} :
    s ∈ sectionIf c section_ ↔ c = true ∧ s = section_ := by
  cases c with
  | false => exact ⟨fun h => (nomatch h), fun h => nomatch h.1⟩
  | true => exact ⟨fun h => ⟨rfl, List.mem_singleton.mp h⟩, fun h => List.mem_singleton.mpr h.2⟩

/-- The sections whose bodies an encoder can have written. -/
def AdmitBodies (limits : CodecLimits) (sections : List WireSection) : Prop :=
  ∀ s ∈ sections, s.body.length ≤ limits.maxSectionBytes ∧ s.body.length < 2 ^ 32

theorem appends_section {c : Bool} {tag : SectionTag} {writeBody : Call CodecError BitWriter α}
    {facts : α → Prop} {body : List UInt8} (h : c → Writes 0 writeBody facts items)
    (hbody : ofBytes body = render 0 items) {a : α} (ha : ¬ c → facts a) :
    Appends (appendSection c tag limits writeBody a)
      (fun a => facts a ∧ AdmitBodies limits (sectionIf c ⟨tag, body⟩))
      (if c then 6 + body.length else 0) ((sectionIf c ⟨tag, body⟩).flatMap WireSection.bytes) := by
  cases c with
  | false =>
      exact Appends.pure ⟨ha Bool.false_ne_true, fun s hs => nomatch hs⟩
  | true =>
      have hputs : Puts (writeSection tag limits writeBody) _ _ _ :=
        puts_write_section (h rfl) hbody
      simp only [if_true, sectionIf, List.flatMap_cons, List.flatMap_nil,
        List.append_nil]
      refine hputs.appends.mono fun a ha => ⟨ha.1, fun s hs => ?_⟩
      cases List.mem_singleton.mp hs
      exact ha.2

theorem append_section_congr {β : Type} {c : Bool} {tag : SectionTag}
    {x : Call CodecError BitWriter α} {y : Call CodecError BitWriter β} {b : β}
    (h : c → ∀ out a writer, x.runOn (BitWriter.new out) = .ok (a, writer) →
      y.runOn (BitWriter.new out) = .ok (b, writer)) {out out' : List UInt8} {a₀ a : α}
    {offset n : Nat} (hrun : appendSection c tag limits x a₀ offset out = .ok ((a, n), out')) :
    appendSection c tag limits y b offset out = .ok ((b, n), out') := by
  cases c with
  | false =>
      cases hrun
      rfl
  | true =>
      rw [appendSection, if_pos rfl, withTail] at hrun ⊢
      by_cases hstart : offset ≤ out.length
      · rw [if_pos hstart] at hrun ⊢
        obtain ⟨⟨⟨a', written⟩, all⟩, htail, hrun⟩ := bind_eq_ok.mp hrun
        obtain ⟨⟨⟨_, _⟩, tail⟩, hsection, heq⟩ := bind_eq_ok.mp htail
        cases heq
        obtain ⟨next, hadd, heq⟩ := bind_eq_ok.mp hrun
        cases heq
        refine bind_eq_ok.mpr ⟨((b, written), _), bind_eq_ok.mpr ⟨((b, written), tail), ?_, rfl⟩,
          bind_eq_ok.mpr ⟨_, hadd, rfl⟩⟩
        exact write_section_congr (h rfl) hsection
      · rw [if_neg hstart] at hrun
        cases hrun

/-! ## Reading -/

/-- The bits of a body whose length is a `u32` can be counted. -/
theorem bits_le_usize_max {body : List UInt8} (h : body.length < 2 ^ 32) :
    8 * body.length ≤ usizeMax := by
  simp only [usizeMax]
  omega

/-- What the decoders make of a section body: they return its entries if its length and count are
within the limits and the entries are accepted. -/
theorem read_section_eq_ok {tag : SectionTag} {kind : LimitKind} {limit count : Nat}
    {body : List UInt8} {readEntries : Nat → Call CodecError BitReader α} {ok : Prop} {a b : α}
    (hbody : ofBytes body = render 0 (countedLayout count items))
    (hlen : 8 * body.length ≤ usizeMax) (hcount : count < 2 ^ 32)
    (hread : ∀ pos, Reads pos (readEntries count) ok items a) :
    readSection tag limits kind limit body readEntries = .ok b ↔
      (body.length ≤ limits.maxSectionBytes ∧ count ≤ limit ∧ ok) ∧ a = b := by
  have hstop : stop 0 (countedLayout count items) = 8 * body.length := by
    rw [stop, ← hbody, length_ofBytes, Nat.zero_add]
  have htoNat : (UInt32.ofNat count).toNat = count := by
    rw [UInt32.toNat_ofNat', Nat.mod_eq_of_lt hcount]
  have haligned : stop 0 [.align] % 8 = 0 := by rw [stop_align, add_padding_mod]
  have hdata : (ofBytes body).drop 0 = render 0 (countedLayout count items) ++ [] := by
    rw [List.drop_zero, hbody, List.append_nil]
  rw [countedLayout, ← List.singleton_append, render_append, List.append_assoc] at hdata
  have halign := parses_align_to_byte.map_err (f := CodecError.bitstream) body _ hlen hdata
  have hdata := drop_stop hdata
  rw [render_append, List.append_assoc] at hdata
  have hvarint :=
    (parses_read_varu32 haligned (UInt32.ofNat count)).map_err (f := CodecError.bitstream)
      body _ hlen hdata
  have hdata := drop_stop hdata
  rw [render_append, List.append_assoc] at hdata
  have hentries := hread (stop (stop 0 [.align]) (bytes (varu32 (UInt32.ofNat count))))
  have hend :=
    parses_align_to_byte.map_err (f := CodecError.bitstream) body _ hlen (drop_stop hdata)
  rw [countedLayout, stop_cons, stop_append, stop_append] at hstop
  rw [hstop] at hend
  have hremaining : (BitReader.mk body (8 * body.length)).bitsRemaining = 0 := by
    rw [bits_remaining_eq _ hlen, Nat.sub_self]
  rw [readSection, check_fail_eq_ok]
  simp only [Call.evalOn, BitReader.new, bind_apply, stream, halign, hvarint, htoNat]
  by_cases hlimit : count ≤ limit
  · rw [if_neg (Nat.not_lt.mpr hlimit)]
    simp only [bind_apply]
    by_cases hok : ok
    · simp only [hentries.1 hok body _ hlen hdata, hend, get_apply, hremaining, ne_eq, not_true,
        if_false, pure_apply, Except.ok.injEq, Nat.not_lt]
      exact ⟨fun h => ⟨⟨h.1, hlimit, hok⟩, h.2⟩, fun h => ⟨h.1.1, h.2⟩⟩
    · obtain ⟨error, reader, herror⟩ := hentries.2 hok body _ hlen hdata
      simp only [herror]
      exact ⟨fun h => (by cases h.2), fun h => absurd h.1.2.2 hok⟩
  · rw [if_pos (Nat.lt_of_not_le hlimit)]
    exact ⟨fun h => (by cases h.2), fun h => absurd h.1.2.1 hlimit⟩

end Sdec
