import Sdec.Codec.Session
import Sdec.Diff.Apply
import Sdec.Format.AcceptedPacket
import Sdec.Format.Packet
import Sdec.Format.SparseReads
import Sdec.Safety.Comparisons
import Sdec.Wire.SessionHeader

/-!
# Decoders and panics

The decoders return on all bytes, unless a build that checks `i64` arithmetic meets a schema with a
codec that is not `Safe`. For each such schema there is a packet that panics: one entry of a sparse
section with the field of that codec, whose bits take the arithmetic of its reader out of an `i64`.
-/

namespace Sdec

open Rust Bits Bitstream Codec Wire Sorted

variable {build : Build} {schema : Schema} {limits : CodecLimits} {risk : Prop}

/-! ## Where no decoder panics -/

theorem apply_destroys_ensures (baseline : List EntitySnapshot) (destroys : List EntityId) :
    Ensures (Delta.applyDestroys baseline destroys) (fun _ => True) (PanicsOnlyIf risk) := by
  unfold Delta.applyDestroys
  refine Ensures.foldlM trivial fun step _ result _ => ?_
  cases step with
  | left b => exact trivial
  | right d => exact panics_only_if_err _
  | both b d => exact trivial

theorem apply_creates_ensures (baseline creates : List EntitySnapshot) :
    Ensures (Delta.applyCreates baseline creates) (fun _ => True) (PanicsOnlyIf risk) := by
  unfold Delta.applyCreates
  refine Ensures.foldlM trivial fun step _ result _ => ?_
  cases step with
  | left b => exact trivial
  | right c => exact trivial
  | both b c => exact panics_only_if_err _

/-- An update finds its entity and its components by search, so no index is out of range. -/
theorem apply_update_ensures (entities : List EntitySnapshot) (update : DeltaUpdateEntity) :
    Ensures (Delta.applyUpdate entities update) (fun _ => True) (PanicsOnlyIf risk) := by
  have hcomponent (entity : EntitySnapshot) (component : DeltaUpdateComponent) :
      Ensures (Delta.applyComponent entity component) (fun _ => True) (PanicsOnlyIf risk) := by
    unfold Delta.applyComponent
    cases hidx : entity.components.findIdx? (fun c => c.id = component.id) with
    | none => exact panics_only_if_err _
    | some idx =>
        have hlt : idx < entity.components.length := (List.findIdx?_eq_some_iff_getElem.mp hidx).1
        dsimp only
        rw [index_of_some (List.getElem?_eq_getElem hlt), pure_bind]
        refine Ensures.bind (q := fun _ => True) ?_ fun fields _ => ?_
        · unfold Delta.applyFields
          refine Ensures.foldlM trivial fun change _ fields _ => ?_
          refine Ensures.check (fun _ => panics_only_if_err _) fun hinside => ?_
          rw [store_of_lt (Nat.lt_of_not_le hinside)]
          exact trivial
        · rw [store_of_lt hlt, pure_bind]
          exact trivial
  unfold Delta.applyUpdate
  cases hidx : binarySearchBy entityKey entities update.id.raw with
  | none => exact panics_only_if_err _
  | some idx =>
      obtain ⟨entity, hentity, _⟩ := binary_search_loop_sound hidx
      dsimp only
      rw [index_of_some hentity, pure_bind]
      refine Ensures.bind (q := fun _ => True) ?_ fun changed _ => ?_
      · exact Ensures.foldlM trivial fun component _ entity _ => hcomponent entity component
      · rw [store_of_lt (List.getElem?_eq_some_iff.mp hentity).1]
        exact trivial

/-- What `apply_delta_snapshot_from_packet` returns, with the sections it has decoded. -/
theorem apply_delta_packet_ensures (hschema : schema.Valid)
    (hrisk : build.overflowChecks → ¬ schema.Safe → risk) (baseline : Snapshot)
    (packet : WirePacket) :
    Ensures (applyDeltaSnapshotFromPacket build schema baseline packet limits) (fun _ => True)
      (PanicsOnlyIf risk) := by
  unfold applyDeltaSnapshotFromPacket
  refine (check_delta_header_ensures _).bind fun _ _ => ?_
  refine Ensures.check (fun _ => panics_only_if_err _) fun _ => ?_
  refine (check_schema_hash_ensures _).bind fun _ _ => ?_
  refine (decode_delta_sections_ensures hschema hrisk packet).bind fun decoded _ => ?_
  obtain ⟨destroys, creates, updates⟩ := decoded
  refine (ensure_entities_sorted_ensures _).bind fun _ _ => ?_
  refine (ensure_entities_sorted_ensures _).bind fun _ _ => ?_
  refine (apply_destroys_ensures _ _).bind fun remaining _ => ?_
  refine (apply_creates_ensures _ _).bind fun merged _ => ?_
  refine Ensures.check (fun _ => panics_only_if_err _) fun _ => ?_
  refine Ensures.bind (q := fun _ => True) ?_ fun _ _ => trivial
  exact Ensures.foldlM trivial fun update _ entities _ => apply_update_ensures entities update

/-- `decode_session_packet` panics on no bytes at all: it decodes no values. -/
theorem decode_session_packet_returns {bytes : List UInt8} {wireLimits : Wire.Limits}
    {session session' : SessionState} (hlen : bytes.length ≤ isizeMax) :
    decodeSessionPacket build schema bytes wireLimits session ≠ .error .panic session' := by
  have hkeeps : Keeps (fun _ => True) (decodeSessionPacket build schema bytes wireLimits)
      (fun _ => True) (PanicsOnlyIf False) := by
    unfold decodeSessionPacket
    refine Keeps.get fun session _ => ?_
    refine Keeps.check (fun _ => panics_only_if_err _) fun _ => ?_
    refine Keeps.bind (Keeps.lift ((decode_session_header_ensures hlen).mono (fun _ h => h)
      fun _ h => h.map _).map_err) fun header hheader => ?_
    refine Keeps.check (fun _ => panics_only_if_err _) fun _ => ?_
    dsimp only
    have hadd : header.headerLen + header.payloadLen.toNat ≤ usizeMax := by
      have := header.payloadLen.toNat_lt
      simp only [isizeMax, usizeMax] at *
      omega
    rw [usize_add_of_le hadd, pure_bind]
    refine Keeps.check (fun _ => panics_only_if_err _) fun hinside => ?_
    rw [slice_of_le (Nat.le_add_right _ _) (Nat.le_of_not_lt hinside), pure_bind]
    refine Keeps.bind (q := fun _ => True) (Keeps.lift (Ensures.map_err
      ((decode_sections_ensures ?_).mono (fun _ _ => trivial) fun _ h => h.map _))) fun _ _ => ?_
    · rw [List.length_drop, List.length_take]
      omega
    exact (Keeps.set trivial).bind fun _ _ => Keeps.pure trivial
  intro hpanic
  have := hkeeps session trivial
  rw [hpanic] at this
  exact this rfl

/-! ## Where one panics -/

/-- On a slice that continues with `items` at bit `pos`, the call panics. -/
def Panics {ε α : Type} (pos : Nat) (read : Call ε BitReader α) (items : Layout) : Prop :=
  ∀ data rest, 8 * data.length ≤ usizeMax →
    (ofBytes data).drop pos = render pos items ++ rest →
    ∃ reader, read ⟨data, pos⟩ = .error .panic reader

section Panics

variable {ε α β : Type} {pos : Nat} {items more : Layout} {read : Call ε BitReader α}
  {next : α → Call ε BitReader β}

theorem Panics.fault : Panics pos (fault .panic : Call ε BitReader α) items :=
  fun _ _ _ _ => ⟨_, rfl⟩

/-- A panic behind what is read first. -/
theorem Panics.bind {a : α} (h : Parses pos read items a)
    (hnext : Panics (stop pos items) (next a) more) :
      Panics pos (read >>= next) (items ++ more) := by
  intro data rest hlen hdata
  rw [render_append, List.append_assoc] at hdata
  obtain ⟨reader, hpanic⟩ := hnext data rest hlen (drop_stop hdata)
  refine ⟨reader, ?_⟩
  rw [bind_apply, h data _ hlen hdata]
  exact hpanic

/-- A panic is not caught. -/
theorem Panics.bind_first (h : Panics pos read items) : Panics pos (read >>= next) items := by
  intro data rest hlen hdata
  obtain ⟨reader, hpanic⟩ := h data rest hlen hdata
  refine ⟨reader, ?_⟩
  rw [bind_apply, hpanic]

/-- A check that passes on the way. -/
theorem Panics.check {c : Prop} [Decidable c] {error : ε} {next : Unit → Call ε BitReader α}
    (hc : ¬ c) (h : Panics pos (next ()) items) :
    Panics pos (if c then Rust.fail error >>= next else next ()) items := by
  rwa [if_neg hc]

/-- A pure computation that succeeds on the way. -/
theorem Panics.lift {x : Outcome ε α} {a : α} (hx : x = .ok a) (h : Panics pos (next a) items) :
    Panics pos ((liftM x : Call ε BitReader α) >>= next) items := by
  subst hx
  exact h

end Panics

/-- A signed field of 63 bits: the value with the sign bit alone is read as `2 ^ 62 - (1 << 63)`. -/
theorem exists_panicking_sint {field : FieldDef} (hcodec : field.codec = .sint 63)
    (hchecks : build.overflowChecks) :
    ∃ items, (∀ pos, stop pos items ≤ pos + 64)
      ∧ ∀ componentId pos, Panics pos (readFieldValue build componentId field) items := by
  obtain ⟨raw, hraw⟩ : ∃ raw : UInt64, raw = 4611686018427387904 := ⟨_, rfl⟩
  have hread (pos : Nat) : Parses pos (BitReader.readBits 63) [.number 63 raw.toNat] raw := by
    rw [hraw]
    have hbounds : (63 : UInt8).toNat ≤ 64
        ∧ (4611686018427387904 : UInt64).toNat < 2 ^ (63 : UInt8).toNat := by decide
    exact parses_read_bits hbounds.1 hbounds.2
  have hpanic : decodeSint build 63 raw = .error .panic := by
    unfold decodeSint
    rw [hraw, if_neg (by decide), if_neg (by decide)]
    show (if _ then _ else _) = _
    rw [if_neg (by decide)]
    exact sub_eq_panic hchecks (by decide)
  unfold readFieldValue
  rw [hcodec]
  refine ⟨[.number 63 raw.toNat] ++ [], fun pos => ?_, fun componentId pos => ?_⟩
  · rw [List.append_nil, stop_number]
    omega
  · refine Panics.bind (hread pos).map_err ?_
    rw [hpanic]
    exact Panics.fault.bind_first

/-- A fixed-point field with a representable range: the greatest offset of the width takes the sum
out of range. -/
theorem exists_panicking_offset {field : FieldDef} {fp : FixedPoint}
    (hcodec : field.codec = .fixedPoint fp) (hle : fp.minQ ≤ fp.maxQ)
    (hchecks : build.overflowChecks) (hrange : fp.maxQ.toInt - fp.minQ.toInt < 2 ^ 63)
    (hover : ¬ fp.minQ.toInt + 2 ^ fp.width.toNat ≤ 2 ^ 63) :
    ∃ items, (∀ pos, stop pos items ≤ pos + 64)
      ∧ ∀ componentId pos, Panics pos (readFieldValue build componentId field) items := by
  have hwidth := FixedPoint.width_le hle hrange
  have hmin := fp.minQ.toInt_lt
  have hlow := fp.minQ.le_toInt
  have hpow : 2 ^ fp.width.toNat ≤ 2 ^ 63 := Nat.pow_le_pow_right (by omega) hwidth
  have hcast : (2 : Int) ^ fp.width.toNat = (2 ^ fp.width.toNat : Nat) :=
    (Nat.cast_pow 2 _).symm
  rw [hcast] at hover
  obtain ⟨offset, hoffset⟩ : ∃ offset : UInt64, offset.toNat = 2 ^ fp.width.toNat - 1 :=
    ⟨UInt64.ofNat (2 ^ fp.width.toNat - 1), by
      rw [UInt64.toNat_ofNat', Nat.mod_eq_of_lt (by omega)]⟩
  have hpos := Nat.two_pow_pos fp.width.toNat
  have hlt : offset.toNat < 2 ^ fp.width.toNat := by omega
  have hsub : (fp.maxQ - fp.minQ).toInt = fp.maxQ.toInt - fp.minQ.toInt := by
    have := Int64.le_iff_toInt_le.mp hle
    rw [Int64.toInt_sub, Int.bmod_eq_of_le (by omega) (by omega)]
  have hsum : (fp.minQ + offset.toInt64).toInt ≠ fp.minQ.toInt + offset.toInt64.toInt := by
    have := (fp.minQ + offset.toInt64).toInt_lt
    rw [FixedPoint.offset_toInt hwidth hlt]
    omega
  have hnonzero : requiredBits (fp.maxQ - fp.minQ).toUInt64 ≠ 0 := by
    intro hzero
    have hnone : fp.width.toNat = 0 := by rw [FixedPoint.width, hzero]; rfl
    rw [hnone] at hover
    omega
  unfold readFieldValue
  rw [hcodec]
  refine ⟨[.number fp.width.toNat offset.toNat] ++ [], fun pos => ?_, fun componentId pos => ?_⟩
  · rw [List.append_nil, stop_number]
    omega
  · dsimp only
    rw [sub_eq_pure fun _ => hsub, pure_bind, if_neg hnonzero]
    have hread : Parses pos (BitReader.readBits fp.width) [.number fp.width.toNat offset.toNat]
        offset := parses_read_bits (by omega) hlt
    refine Panics.bind hread.map_err ?_
    rw [add_eq_panic hchecks hsum]
    exact Panics.fault.bind_first

/-- The bits of a value whose reader leaves the range of an `i64`, for a codec that is not
`Safe`. -/
theorem exists_panicking_value {field : FieldDef} (hvalid : field.codec.Valid)
    (hchecks : build.overflowChecks) (hsafe : ¬ field.codec.Safe) :
    ∃ items, (∀ pos, stop pos items ≤ pos + 64)
      ∧ ∀ componentId pos, Panics pos (readFieldValue build componentId field) items := by
  cases hcodec : field.codec with
  | bool | uint bits | varUInt | varSInt =>
      rw [hcodec] at hsafe
      exact absurd trivial hsafe
  | sint bits =>
      rw [hcodec] at hsafe
      have hbits : bits = 63 := not_not.mp hsafe
      exact exists_panicking_sint (hbits ▸ hcodec) hchecks
  | fixedPoint fp =>
      rw [hcodec] at hsafe hvalid
      by_cases hrange : fp.maxQ.toInt - fp.minQ.toInt < 2 ^ 63
      · have hover : ¬ fp.minQ.toInt + 2 ^ fp.width.toNat ≤ 2 ^ 63 := fun h => hsafe ⟨hrange, h⟩
        exact exists_panicking_offset hcodec hvalid.2 hchecks hrange hover
      · -- the range itself does not fit, before anything is read
        refine ⟨[], fun pos => Nat.le_add_right _ _, fun componentId pos => ?_⟩
        have hne : (fp.maxQ - fp.minQ).toInt ≠ fp.maxQ.toInt - fp.minQ.toInt := by
          have := (fp.maxQ - fp.minQ).toInt_lt
          omega
        unfold readFieldValue
        rw [hcodec]
        dsimp only
        rw [sub_eq_panic hchecks hne]
        exact Panics.fault.bind_first

/-- An entry with one field whose value panics. -/
theorem exists_panicking_entry (hschema : schema.Valid) (hchecks : build.overflowChecks)
    (hsafe : ¬ schema.Safe) (hlimit : 1 ≤ limits.maxFieldsPerComponent) :
    ∃ items, (∀ pos, stop pos items ≤ pos + 512) ∧ ∀ pos, Panics pos
      (Delta.readSparseEntry build Delta.sparseVarintReader schema limits none) items := by
  simp only [Schema.Safe, not_forall] at hsafe
  obtain ⟨component, hmem, field, hfield, hfieldSafe⟩ := hsafe
  have hvalid := hschema.components component hmem
  obtain ⟨items, hstop, hitems⟩ :=
    exists_panicking_value (hvalid.codecs field hfield) hchecks hfieldSafe
  obtain ⟨idx, hidx⟩ := List.getElem?_of_mem hfield
  have hlt := (List.getElem?_eq_some_iff.mp hidx).1
  have hparse : Delta.parseComponentId component.id.get = .ok component.id := by
    have hnew : ComponentId.new component.id.get = some component.id :=
      dif_pos component.id.ne_zero
    rw [Delta.parseComponentId, hnew]
    rfl
  have hfind : Delta.findDefinition schema component.id = .ok component := by
    rw [Delta.findDefinition, find_definition_of_mem hschema hmem]
    rfl
  refine ⟨[.align] ++ (bytes (sparseVarintFormat.key 0 component.id) ++ (bytes (varu32 1)
    ++ (sparseVarintFormat.index component idx ++ items))), fun pos => ?_, fun pos => ?_⟩
  · have hindex (pos : Nat) : stop pos (sparseVarintFormat.index component idx) ≤ pos + 48 := by
      show stop pos (.align :: bytes (varu32 (UInt32.ofNat idx))) ≤ _
      have := padding_lt pos
      have := length_varu32_le (UInt32.ofNat idx)
      rw [stop_cons, stop_align, stop_bytes]
      omega
    have hkey : (sparseVarintFormat.key 0 component.id).length = 6 := rfl
    have := padding_lt pos
    have := length_varu32_le 1
    rw [stop_append, stop_append, stop_append, stop_append, stop_align, stop_bytes,
      stop_bytes, hkey]
    refine Nat.le_trans (hstop _) (Nat.le_trans (Nat.add_le_add_right (hindex _) 64) ?_)
    omega
  have haligned : stop pos [.align] % 8 = 0 := by rw [stop_align, add_padding_mod]
  unfold Delta.readSparseEntry
  refine Panics.bind parses_align_to_byte.map_err ?_
  refine Panics.bind (sparseVarintFormat.parses_key 0 component.id haligned) ?_
  refine Panics.lift hparse (Panics.lift (a := ()) rfl (Panics.lift hfind ?_))
  refine Panics.bind (parses_read_varu32 (by rw [stop_bytes]; omega) 1).map_err ?_
  refine Panics.check (by decide) (Panics.check ?_ (Panics.check ?_ ?_))
  · exact Nat.not_lt.mpr hlimit
  · exact Nat.not_lt.mpr (Nat.lt_of_le_of_lt (Nat.zero_le idx) hlt)
  refine Panics.bind_first ?_
  show Panics _ (Delta.readSparseFields build Delta.sparseVarintReader component (0 + 1) none) _
  unfold Delta.readSparseFields
  refine Panics.bind (sparseVarintFormat.parses_index hvalid.length_fields_le hlt) ?_
  refine Panics.check (Nat.not_le.mpr hlt) (Panics.lift (a := ()) rfl ?_)
  rw [index_of_some hidx, pure_bind]
  exact (hitems component.id _).bind_first

/-- A section whose entries panic. -/
theorem read_section_panics {α : Type} {tag : SectionTag} {kind : LimitKind} {limit count : Nat}
    {body : List UInt8} {items : Layout} {readEntries : Nat → Call CodecError BitReader α}
    (hbody : ofBytes body = render 0 (countedLayout count items))
    (hlen : 8 * body.length ≤ usizeMax) (hmax : body.length ≤ limits.maxSectionBytes)
    (hlimit : count ≤ limit) (hcount : count < 2 ^ 32)
    (hread : ∀ pos, Panics pos (readEntries count) items) :
    readSection tag limits kind limit body readEntries = .error .panic := by
  have htoNat : (UInt32.ofNat count).toNat = count := by
    rw [UInt32.toNat_ofNat', Nat.mod_eq_of_lt hcount]
  have haligned : stop 0 [.align] % 8 = 0 := by rw [stop_align, add_padding_mod]
  unfold readSection
  simp only [if_neg (Nat.not_lt.mpr hmax)]
  have hdata : (ofBytes body).drop 0 = render 0 ([.align] ++ (bytes (varu32 (UInt32.ofNat count))
      ++ items)) ++ render (stop 0 ([.align] ++ (bytes (varu32 (UInt32.ofNat count)) ++ items)))
        [.align] := by
    rw [List.drop_zero, hbody, countedLayout, ← render_append]
    simp only [List.cons_append, List.nil_append, List.append_assoc]
  have hpanic : Panics 0 (do
      stream BitReader.alignToByte
      let count ← stream BitReader.readVaru32
      if count.toNat > limit then
        fail (.limitsExceeded kind limit count.toNat)
      let entries ← readEntries count.toNat
      stream BitReader.alignToByte
      let reader ← get
      if reader.bitsRemaining ≠ 0 then
        fail (.trailingSectionData tag reader.bitsRemaining)
      return entries : Call CodecError BitReader α)
      ([.align] ++ (bytes (varu32 (UInt32.ofNat count)) ++ items)) := by
    refine Panics.bind parses_align_to_byte.map_err ?_
    refine Panics.bind (parses_read_varu32 haligned _).map_err ?_
    rw [htoNat]
    exact Panics.check (Nat.not_lt.mpr hlimit) (hread _).bind_first
  obtain ⟨reader, herror⟩ := hpanic body _ hlen hdata
  rw [Call.evalOn, BitReader.new, herror]

/-- A section of one entry whose value panics. -/
theorem exists_panicking_section (hschema : schema.Valid) (hchecks : build.overflowChecks)
    (hsafe : ¬ schema.Safe) :
    ∃ limits body, body.length ≤ 100
      ∧ Delta.decodeUpdateSectionSparse Delta.sparseVarintReader build schema body limits
        = .error .panic := by
  obtain ⟨limits, hlimits⟩ : ∃ limits : CodecLimits, limits = ⟨0, 1, 0, 1, 1, 2 ^ 32, 0⟩ := ⟨_, rfl⟩
  obtain ⟨items, hstop, hpanics⟩ :=
    @exists_panicking_entry build schema limits hschema hchecks hsafe (by rw [hlimits])
  obtain ⟨body, hbody⟩ := exists_body 1 items
  have hlength : body.length ≤ 100 := by
    have hrender : 8 * body.length = stop 0 (countedLayout 1 items) := by
      rw [stop, ← hbody, length_ofBytes, Nat.zero_add]
    have hvarint := length_varu32_le (UInt32.ofNat 1)
    have halign (pos : Nat) : stop pos [.align] ≤ pos + 8 := by
      have := padding_lt pos
      rw [stop_align]
      omega
    rw [countedLayout, stop_cons, stop_append, stop_append, stop_bytes] at hrender
    have := halign 0
    have := hstop (stop 0 [.align] + 8 * (varu32 (UInt32.ofNat 1)).length)
    have := halign (stop (stop 0 [.align] + 8 * (varu32 (UInt32.ofNat 1)).length) items)
    omega
  refine ⟨limits, body, hlength, ?_⟩
  unfold Delta.decodeUpdateSectionSparse
  have hread := @read_section_panics limits _ Delta.sparseVarintReader.tag .entitiesUpdate
    (saturatingMul limits.maxEntitiesUpdate limits.maxComponentsPerEntity) 1 body items
    (fun entryCount => Delta.readSparseEntries build Delta.sparseVarintReader schema limits
      entryCount none []) hbody (by simp only [usizeMax]; omega)
    (by rw [hlimits]; show _ ≤ 2 ^ 32; omega)
    (by rw [hlimits]; decide) (by decide) fun pos => (hpanics pos).bind_first
  dsimp only
  rw [hread]
  rfl

/-- A packet of one short section is accepted. -/
theorem decode_packet_of_short_section {header : PacketHeader} (hheader : header.Valid)
    {section_ : WireSection} (hshort : section_.body.length ≤ 100)
    (hpayload : header.payloadLen = UInt32.ofNat section_.bytes.length) :
    (header.bytes ++ section_.bytes).length ≤ isizeMax
      ∧ decodePacket (header.bytes ++ section_.bytes) .unlimited = .ok ⟨header, [section_]⟩ := by
  have hbytes : [section_].flatMap WireSection.bytes = section_.bytes := List.flatMap_singleton _ _
  have hlength : section_.bytes.length ≤ 106 := by
    have := length_varu32_le (UInt32.ofNat section_.body.length)
    rw [WireSection.bytes, List.length_cons, List.length_append]
    omega
  have hbody : ∀ s ∈ [section_], s.body.length < 2 ^ 32 :=
    List.forall_mem_singleton.mpr (by omega)
  have hmax : ([section_].flatMap WireSection.bytes).length ≤ isizeMax := by
    rw [hbytes]
    simp only [isizeMax]
    omega
  constructor
  · rw [List.length_append, PacketHeader.length_bytes]
    simp only [HEADER_SIZE, isizeMax]
    omega
  · refine (decode_packet_eq_ok hheader).mpr ⟨?_, ?_, ?_, rfl⟩
    · simp only [HEADER_SIZE, Wire.Limits.unlimited, usizeMax]
      omega
    · rw [hpayload, UInt32.toNat_ofNat', Nat.mod_eq_of_lt (by omega)]
    · rw [← hbytes]
      exact decode_sections_unlimited hmax hbody

/-- Where a build checks `i64` arithmetic, and a codec of the schema is not `Safe`, a delta packet
panics. -/
theorem exists_panicking_packet (hschema : schema.Valid) (hchecks : build.overflowChecks)
    (hsafe : ¬ schema.Safe) :
    ∃ limits bytes packet, bytes.length ≤ isizeMax
      ∧ decodePacket bytes .unlimited = .ok packet
      ∧ decodeDeltaPacket build schema packet limits = .error .panic := by
  obtain ⟨limits, body, hshort, hsection⟩ :=
    @exists_panicking_section build schema hschema hchecks hsafe
  obtain ⟨section_, hsectionEq⟩ : ∃ section_ : WireSection,
      section_ = ⟨.entityUpdateSparse, body⟩ := ⟨_, rfl⟩
  obtain ⟨header, hheader⟩ : ∃ header, header
      = PacketHeader.deltaSnapshot (schemaHash build schema) 1 1
        (UInt32.ofNat section_.bytes.length) := ⟨_, rfl⟩
  have hheaderValid : header.Valid := by
    rw [hheader]
    exact PacketHeader.delta_snapshot_valid _ _ _ (by decide : (1 : UInt32) ≠ 0)
  have hbody : section_.body.length ≤ 100 := by
    rw [hsectionEq]
    exact hshort
  obtain ⟨hmax, hpacket⟩ := decode_packet_of_short_section hheaderValid hbody (by rw [hheader]; rfl)
  refine ⟨limits, header.bytes ++ section_.bytes, ⟨header, [section_]⟩, hmax, hpacket, ?_⟩
  have hflags : Delta.checkDeltaHeader header = .ok () := by
    rw [Delta.check_delta_header_eq_ok, hheader]
    exact ⟨(by decide : PacketFlags.deltaSnapshot.isDeltaSnapshot), (by decide : (1 : UInt32) ≠ 0)⟩
  have hhash : Delta.checkSchemaHash build schema header = .ok () := by
    rw [Delta.check_schema_hash_eq_ok, hheader]
    rfl
  rw [hsectionEq]
  simp only [decodeDeltaPacket, hflags, hhash, ok_bind, Delta.decodeDeltaSections,
    List.foldlM_cons, Delta.decodeDeltaSection, Delta.ensureFirst, Option.isSome_none,
    Bool.false_eq_true, if_false, pure_bind]
  rw [show Delta.decodeUpdateSectionSparseVarint = Delta.decodeUpdateSectionSparse
    Delta.sparseVarintReader from rfl, hsection]
  rfl

/-! ## All decoders -/

/-- No decoder panics, whatever the bytes, limits, baseline and session. -/
structure DecodersReturn (build : Build) (schema : Schema) : Prop where
  full : ∀ bytes wireLimits limits, bytes.length ≤ isizeMax →
    decodeFullSnapshot build schema bytes wireLimits limits ≠ .error .panic
  delta : ∀ bytes wireLimits limits, bytes.length ≤ isizeMax →
    decodePacket bytes wireLimits ≠ .error .panic ∧ ∀ packet,
      decodePacket bytes wireLimits = .ok packet →
        decodeDeltaPacket build schema packet limits ≠ .error .panic
  apply : ∀ baseline bytes wireLimits limits, bytes.length ≤ isizeMax →
    applyDeltaSnapshot build schema baseline bytes wireLimits limits ≠ .error .panic
  session : ∀ bytes wireLimits session session', bytes.length ≤ isizeMax →
    decodeSessionPacket build schema bytes wireLimits session ≠ .error .panic session'

/-- The decoders never panic exactly if the build does not check `i64` arithmetic, or every codec of
the schema is `Safe`. -/
theorem decoders_return_iff {components : List ComponentDef} (build : Build)
    (hnew : Schema.new components = .ok schema) :
    DecodersReturn build schema ↔ (build.overflowChecks → schema.Safe) := by
  have hschema := (schema_new_eq_ok.mp hnew).2
  constructor
  · intro hreturn hchecks
    by_contra hsafe
    obtain ⟨limits, bytes, packet, hlen, hpacket, hpanic⟩ :=
      exists_panicking_packet hschema hchecks hsafe
    exact (hreturn.delta bytes .unlimited limits hlen).2 packet hpacket hpanic
  · intro hsafe
    have hrisk : build.overflowChecks → ¬ schema.Safe → False := fun hchecks hnot =>
      hnot (hsafe hchecks)
    have hpacket {bytes : List UInt8} (wireLimits : Wire.Limits) (hlen : bytes.length ≤ isizeMax) :
        Ensures ((decodePacket bytes wireLimits).mapErr CodecError.wire) (fun _ => True)
          (PanicsOnlyIf False) :=
      Ensures.map_err ((decode_packet_ensures hlen).mono (fun _ _ => trivial) fun _ h => h.map _)
    refine ⟨fun bytes wireLimits limits hlen hpanic => ?_, fun bytes wireLimits limits hlen =>
      ⟨fun hpanic => ?_, fun packet _ hpanic => ?_⟩,
      fun baseline bytes wireLimits limits hlen hpanic => ?_,
      fun bytes wireLimits session session' hlen => decode_session_packet_returns hlen⟩
    · have hensures : Ensures (decodeFullSnapshot build schema bytes wireLimits limits)
          (fun _ => True) (PanicsOnlyIf False) := (hpacket wireLimits hlen).bind fun packet _ =>
        (decode_full_packet_ensures hschema hrisk packet).imp fun _ _ => trivial
      exact hensures.of_error hpanic rfl
    · exact (decode_packet_ensures hlen).of_error hpanic rfl
    · exact (decode_delta_packet_ensures hschema hrisk packet).of_error hpanic rfl
    · have hensures : Ensures (applyDeltaSnapshot build schema baseline bytes wireLimits limits)
          (fun _ => True) (PanicsOnlyIf False) := (hpacket wireLimits hlen).bind fun packet _ =>
        apply_delta_packet_ensures hschema hrisk baseline packet
      exact hensures.of_error hpanic rfl

/-- The golden schema is safe in a build that checks. -/
theorem decoders_return_golden : DecodersReturn (goldenBuild true) goldenSchema :=
  (decoders_return_iff (goldenBuild true) golden_schema_new).mpr (by decide)

/-- A schema with one signed field of 63 bits. -/
def signSchema : Schema where
  components := [{
    id := ⟨1, nonzero_one⟩
    fields := [{ id := ⟨1, nonzero_one⟩, codec := .sint 63, change := .always }] }]

/-- A build that checks, with the digest that BLAKE3 has for `signSchema`. -/
def signBuild : Build where
  overflowChecks := true
  blake3 _ := #v[
    219, 226, 192, 6, 95, 50, 123, 185, 208, 63, 174, 96, 128, 119, 102, 157,
    220, 80, 44, 244, 253, 27, 74, 200, 223, 233, 180, 203, 49, 113, 122, 181]

/-- A full snapshot with one entity, in whose field only the sign bit is set. -/
def signPacket : List UInt8 :=
  [67, 69, 68, 83, 2, 0, 1, 0, 219, 226, 192, 6, 95, 50, 123, 185, 7, 0, 0, 0, 0, 0, 0, 0, 16, 0, 0,
    0, 1, 14, 1, 0, 0, 0, 0, 224, 0, 0, 0, 0, 0, 0, 0, 0]

/-- The decoder of full snapshots panics on 44 bytes. -/
theorem decode_full_snapshot_panics :
    Schema.new signSchema.components = .ok signSchema
      ∧ decodeFullSnapshot signBuild signSchema signPacket .unlimited goldenLimits
        = .error .panic := by
  constructor
  · decide
  · decide +kernel

end Sdec
