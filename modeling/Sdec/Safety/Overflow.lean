import Sdec.Format.Succeeds
import Sdec.Safety.Encoders
import Sdec.Safety.Limits

/-!
# Where an encoder overflows

For a schema that lets a difference leave its `i64` there is an input on which a build that checks
the arithmetic panics. A fixed-point range that is too wide is met by any value of the field, and a
threshold by two values that are far enough apart.
-/

namespace Sdec

open Rust Bits Bitstream Codec Wire Sorted

variable {build : Build} {schema : Schema} {limits : CodecLimits}

/-! ## Writers that panic -/

/-- With `k` bits of room the call panics. -/
def Crashes {ε α : Type} (pos k : Nat) (write : Call ε BitWriter α) : Prop :=
  ∀ buf, pos + k ≤ capacity buf → ∃ writer, write ⟨buf, pos⟩ = .error .panic writer

section Crashes

variable {ε α β : Type} {pos j k : Nat} {items : Layout} {write : Call ε BitWriter α}
  {next : α → Call ε BitWriter β}

theorem Crashes.fault : Crashes pos k (fault .panic : Call ε BitWriter α) :=
  fun _ _ => ⟨_, rfl⟩

theorem Crashes.mono (h : Crashes pos j write) (hle : j ≤ k) : Crashes pos k write :=
  fun buf hroom => h buf (by omega)

/-- A panic behind what is written first. -/
theorem Crashes.bind {a : α} (h : Emits pos write True items a) (hstop : stop pos items ≤ pos + j)
    (hnext : Crashes (stop pos items) k (next a)) : Crashes pos (j + k) (write >>= next) := by
  intro buf hroom
  have hfirst : stop pos items ≤ capacity buf := by omega
  obtain ⟨buf', hrun, hbits⟩ := (h buf (Nat.le_trans (le_stop _ _) hfirst)).1 trivial hfirst
  obtain ⟨writer, hpanic⟩ := hnext buf' (by rw [capacity_eq_of_overwrite hbits hfirst]; omega)
  refine ⟨writer, ?_⟩
  rw [bind_apply, hrun]
  exact hpanic

/-- A panic is not caught. -/
theorem Crashes.bind_first (h : Crashes pos k write) : Crashes pos k (write >>= next) := by
  intro buf hroom
  obtain ⟨writer, hpanic⟩ := h buf hroom
  refine ⟨writer, ?_⟩
  rw [bind_apply, hpanic]

/-- A check that passes on the way. -/
theorem Crashes.check {c : Prop} [Decidable c] {error : ε} {next : Unit → Call ε BitWriter α}
    (hc : ¬ c) (h : Crashes pos k (next ())) :
    Crashes pos k (if c then Rust.fail error >>= next else next ()) := by
  rwa [if_neg hc]

/-- A pure computation that succeeds on the way. -/
theorem Crashes.lift {x : Outcome ε α} {a : α} (hx : x = .ok a) (h : Crashes pos k (next a)) :
    Crashes pos k ((liftM x : Call ε BitWriter α) >>= next) := by
  subst hx
  exact h

/-- A loop that gets to an iteration which panics: the ones before it write what they write. -/
theorem Crashes.forM {f : β → Call ε BitWriter PUnit} (p : β → Prop) (layout : β → Layout)
    {xs : List β} (hemits : ∀ x ∈ xs, ¬ p x → ∀ pos, Emits pos (f x) True (layout x) PUnit.unit)
    (hstop : ∀ x ∈ xs, ∀ pos, stop pos (layout x) ≤ pos + k)
    (hcrashes : ∀ x ∈ xs, p x → ∀ pos, Crashes pos k (f x)) (hsome : ∃ x ∈ xs, p x) :
    Crashes pos (xs.length * k) (xs.forM f) := by
  induction xs generalizing pos with
  | nil =>
      obtain ⟨x, hx, _⟩ := hsome
      cases hx
  | cons x xs ih =>
      rw [List.forall_mem_cons] at hemits hstop hcrashes
      rw [List.forM, List.length_cons, Nat.succ_mul, Nat.add_comm]
      by_cases hx : p x
      · exact ((hcrashes.1 hx pos).bind_first).mono (Nat.le_add_right _ _)
      · obtain ⟨y, hy, hpy⟩ := hsome
        have hrest : y ∈ xs := (List.mem_cons.mp hy).resolve_left fun heq => hx (heq ▸ hpy)
        exact Crashes.bind (hemits.1 hx pos) (hstop.1 pos)
          (ih hemits.2 hstop.2 hcrashes.2 ⟨y, hrest, hpy⟩)

/-- A section whose body panics. -/
theorem write_section_eq_panic {tag : SectionTag} {body : Call CodecError BitWriter α}
    (h : Crashes 0 k body) {out : List UInt8} (hstart : 1 + VARINT_MAX_BYTES ≤ out.length)
    (hroom : k ≤ capacity (out.drop (1 + VARINT_MAX_BYTES))) :
    writeSection tag limits body out = .error .panic := by
  obtain ⟨writer, hpanic⟩ := h _ (by rwa [Nat.zero_add])
  have hrun : body.runOn (BitWriter.new (out.drop (1 + VARINT_MAX_BYTES))) = .error .panic := by
    unfold Call.runOn
    rw [show BitWriter.new (out.drop (1 + VARINT_MAX_BYTES)) = ⟨out.drop (1 + VARINT_MAX_BYTES),
      0⟩ from rfl, hpanic]
  rw [writeSection, if_neg (Nat.not_lt.mpr hstart)]
  dsimp only
  rw [slice_of_le hstart (Nat.le_refl _), pure_bind, List.take_length, hrun]
  rfl

theorem append_section_eq_panic {tag : SectionTag} {body : Call CodecError BitWriter α} {a : α}
    {offset : Nat} {out : List UInt8} (hoffset : offset ≤ out.length)
    (hsection : writeSection tag limits body (out.drop offset) = .error .panic) :
    appendSection true tag limits body a offset out = .error .panic := by
  unfold appendSection withTail
  rw [if_pos rfl, if_pos hoffset, hsection]
  rfl

end Crashes

/-! ## Wide ranges -/

/-- An entity of one component. -/
def EntitySnapshot.ofComponent (component : ComponentSnapshot) : EntitySnapshot :=
  ⟨⟨0⟩, [component]⟩

theorem find_of_component (component : ComponentSnapshot) (id : ComponentId) :
    findComponent (.ofComponent component) id
      = if component.id = id then some component else none := by
  unfold findComponent EntitySnapshot.ofComponent
  rw [List.find?_singleton]
  simp only [decide_eq_true_eq]

section Wide

variable (hchecks : build.overflowChecks)

/-- A codec whose range fits can be written. -/
theorem FieldCodec.writable_of_range_fits {codec : FieldCodec} (hvalid : codec.Valid)
    (h : codec.RangeFits) : codec.Writable build := by
  cases codec with
  | bool | varUInt | varSInt => trivial
  | uint bits | sint bits => exact hvalid.2
  | fixedPoint fp => exact fun _ => h.2

include hchecks

/-- The least value of a field whose range is too wide. -/
theorem crashes_write_least (componentId : ComponentId) {field : FieldDef}
    (hvalid : field.codec.Valid) (hwide : ¬ field.codec.RangeFits) (pos : Nat) :
    Crashes pos 0 (writeFieldValue build componentId field field.codec.least) := by
  unfold writeFieldValue
  cases hcodec : field.codec with
  | bool | uint bits | sint bits | varUInt | varSInt =>
      rw [hcodec] at hwide
      exact absurd trivial hwide
  | fixedPoint fp =>
      rw [hcodec] at hwide hvalid
      have hin : ¬ (fp.minQ < fp.minQ ∨ fp.minQ > fp.maxQ) :=
        not_or.mpr ⟨Int64.lt_irrefl, Int64.not_lt.mpr hvalid.2⟩
      have hzero : (fp.minQ - fp.minQ).toInt = fp.minQ.toInt - fp.minQ.toInt := by
        rw [Int64.sub_self, Int.sub_self]
        rfl
      refine Crashes.check hin ?_
      rw [sub_eq_pure fun _ => hzero, pure_bind,
        sub_eq_panic hchecks fun hexact => hwide (sub_fits_iff.mpr hexact)]
      exact Crashes.fault.bind_first

/-- The least values of a component with such a field. The fields before it are written. -/
theorem crashes_write_least_component {component : ComponentDef} (hvalid : component.Valid)
    (hlimit : component.fields.length ≤ limits.maxFieldsPerComponent)
    (hwide : ∃ field ∈ component.fields, ¬ field.codec.RangeFits) :
    Crashes pos (2 ^ 16 + 2 ^ 16 * 64)
      (Full.writeComponentFields build component component.least limits) := by
  have hlength : component.least.fields.length = component.fields.length := List.length_map _
  have hmax := hvalid.length_le
  have hleast : ∀ p ∈ component.fields.zip component.least.fields,
      p.1 ∈ component.fields ∧ p.2 = p.1.codec.least := by
    intro p hp
    rw [ComponentDef.least, List.zip_map_right, List.mem_map] at hp
    obtain ⟨q, hq, rfl⟩ := hp
    obtain ⟨i, hi⟩ := List.getElem?_of_mem hq
    obtain ⟨hfirst, hsecond⟩ := List.getElem?_zip_eq_some.mp hi
    refine ⟨List.mem_of_getElem? hfirst, ?_⟩
    show q.2.codec.least = q.1.codec.least
    rw [Option.some.inj (hsecond.symm.trans hfirst)]
  -- the field that is too wide is one of the fields that are written
  have hsome : ∃ p ∈ component.fields.zip component.least.fields, ¬ p.1.codec.RangeFits := by
    obtain ⟨field, hfield, hwide⟩ := hwide
    obtain ⟨i, hi⟩ := List.getElem?_of_mem hfield
    refine ⟨(field, field.codec.least), List.mem_of_getElem? (i := i) ?_, hwide⟩
    refine List.getElem?_zip_eq_some.mpr ⟨hi, ?_⟩
    rw [ComponentDef.least, List.getElem?_map, hi]
    rfl
  have hloop (pos : Nat) : Crashes pos ((component.fields.zip component.least.fields).length * 64)
      ((component.fields.zip component.least.fields).forM
        fun p => writeFieldValue build component.id p.1 p.2) := by
    refine Crashes.forM _ (fun p => fieldLayout p.1.codec p.2) ?_ ?_ ?_ hsome
    · -- a field whose range fits is written
      intro p hp hfits pos
      obtain ⟨hfield, hvalue⟩ := hleast p hp
      have hcodec := hvalid.codecs p.1 hfield
      exact (emits_write_field_value component.id p.1 p.2).congr (iff_true_intro
        ⟨hvalue ▸ FieldCodec.contains_least hcodec,
          FieldCodec.writable_of_range_fits hcodec (not_not.mp hfits)⟩)
    · intro p hp pos
      exact stop_field_layout_le (hvalid.codecs p.1 (hleast p hp).1) p.2 pos
    · -- the first one that is too wide is not
      intro p hp hwide pos
      obtain ⟨hfield, hvalue⟩ := hleast p hp
      rw [hvalue]
      exact (crashes_write_least hchecks component.id (hvalid.codecs p.1 hfield) hwide pos).mono
        (Nat.zero_le _)
  -- the bits before that field
  have hmask : stop pos (flags (component.fields.map fun _ => true)) ≤ pos + 2 ^ 16 := by
    rw [stop_flags, List.length_map]
    omega
  have hvalues : (component.fields.zip component.least.fields).length * 64 ≤ 2 ^ 16 * 64 := by
    rw [List.length_zip, hlength, Nat.min_self]
    omega
  unfold Full.writeComponentFields
  refine Crashes.check (Nat.not_lt.mpr hlimit) (Crashes.check (not_not.mpr hlength) ?_)
  refine Crashes.check (Nat.not_lt.mpr (hlength ▸ hlimit)) ?_
  unfold writeAllFields
  exact Crashes.bind (emits_mask (fun _ => true) component.fields) hmask ((hloop _).mono hvalues)

/-- The body of a create section with that component. -/
theorem crashes_encode_least {component : ComponentDef} (hschema : schema.Valid)
    (hcomponent : component ∈ schema.components)
    (hcomponents : schema.components.length ≤ limits.maxComponentsPerEntity)
    (hfields : component.fields.length ≤ limits.maxFieldsPerComponent)
    (hwide : ∃ field ∈ component.fields, ¬ field.codec.RangeFits) :
    Crashes 0 (2 ^ 39)
      (Full.encodeCreateBody build schema [EntitySnapshot.ofComponent component.least] limits) := by
  obtain ⟨entity, hentity⟩ : ∃ entity, entity = EntitySnapshot.ofComponent component.least :=
    ⟨_, rfl⟩
  have hknown : ensureKnownComponents schema entity = .ok () := by
    refine ensure_known_of_mem fun c hc => ⟨component, hcomponent, ?_⟩
    rw [hentity, EntitySnapshot.ofComponent, List.mem_singleton] at hc
    rw [hc]
    rfl
  have hcount : ¬ limits.maxComponentsPerEntity < entity.components.length := by
    have := List.length_pos_of_mem hcomponent
    rw [hentity]
    show ¬ _ < 1
    omega
  have hfind (d : ComponentDef) (hd : d ∈ schema.components) :
      (d ≠ component → findComponent entity d.id = none)
        ∧ (d = component → findComponent entity d.id = some component.least) := by
    rw [hentity, find_of_component]
    refine ⟨fun hne => if_neg fun hid => hne ?_, fun heq => if_pos ?_⟩
    · exact (List.inj_on_of_nodup_map hschema.componentIds hcomponent hd hid).symm
    · exact congrArg ComponentDef.id heq.symm
  have hmask {pos : Nat} : Emits pos (writeComponentMask schema entity) True
      (flags (schema.components.map fun d => (findComponent entity d.id).isSome)) () :=
    emits_mask _ _
  have hmax := hschema.length_le
  have halign (pos : Nat) : stop pos [.align] ≤ pos + 8 := by
    have := padding_lt pos
    rw [stop_align]
    omega
  have hvarint (pos : Nat) : stop pos (bytes (varu32 (UInt32.ofNat 1))) ≤ pos + 40 := by
    have := length_varu32_le (UInt32.ofNat 1)
    rw [stop_bytes]
    omega
  have hid (pos : Nat) : stop pos (bytes (leBytes 4 entity.id.raw.toNat)) ≤ pos + 32 := by
    rw [stop_bytes, length_leBytes]
  have hflags (pos : Nat) : stop pos (flags (schema.components.map fun d =>
      (findComponent entity d.id).isSome)) ≤ pos + 2 ^ 16 := by
    rw [stop_flags, List.length_map]
    omega
  have haligned (pos : Nat) : stop pos [.align] % 8 = 0 := by rw [stop_align, add_padding_mod]
  unfold Full.encodeCreateBody
  refine Crashes.check (Nat.not_lt.mpr hcomponents) ?_
  refine Crashes.mono (Crashes.bind emits_align (halign 0) (Crashes.bind
    (emits_write_varu32 (haligned _) _).map_err (hvarint _) (Crashes.bind_first (k :=
      8 + (32 + (2 ^ 16 + 2 ^ 16 * (2 ^ 16 + 2 ^ 16 * 64)))) ?_))) (by decide)
  rw [← hentity]
  unfold Full.writeEntities
  refine Crashes.lift (x := ensureAfter none entity.id.raw) (a := ()) rfl ?_
  refine Crashes.bind emits_align (halign _) ?_
  refine Crashes.bind (emits_write_u32_aligned (haligned _) _).map_err (hid _) ?_
  refine Crashes.check hcount (Crashes.lift hknown (Crashes.bind hmask (hflags _) ?_))
  refine Crashes.bind_first (Crashes.mono (Crashes.forM (fun d => d = component) (fun _ => [])
    (k := 2 ^ 16 + 2 ^ 16 * 64) ?_ ?_ ?_ ⟨component, hcomponent, rfl⟩)
      (Nat.mul_le_mul_right _ hmax))
  · intro d hd hne pos
    rw [(hfind d hd).1 hne]
    exact Emits.pure PUnit.unit
  · intro d hd pos
    exact Nat.le_add_right _ _
  · intro d hd heq pos
    rw [(hfind d hd).2 heq]
    subst heq
    exact crashes_write_least_component hchecks (hschema.components d hd) hfields hwide

/-- A full snapshot that meets such a range. -/
theorem exists_full_snapshot_panic (hschema : schema.Valid) (hwide : ¬ schema.RangesFit)
    (tick : SnapshotTick) :
    ∃ entities limits out, out.length ≤ isizeMax
      ∧ encodeFullSnapshot build schema tick entities limits out = .error .panic := by
  simp only [Schema.RangesFit, not_forall] at hwide
  obtain ⟨component, hcomponent, field, hfield, hwide⟩ := hwide
  obtain ⟨limits, hlimits⟩ : ∃ limits : CodecLimits, limits = ⟨1, 0, 0, 2 ^ 16, 2 ^ 16, 0, 1⟩ :=
    ⟨_, rfl⟩
  obtain ⟨out, hout⟩ : ∃ out : List UInt8, out.length = 2 ^ 40 :=
    ⟨List.replicate (2 ^ 40) 0, List.length_replicate⟩
  have hvalid := hschema.components component hcomponent
  have hpanic := @crashes_encode_least build schema limits hchecks component hschema hcomponent
    (hlimits ▸ hschema.length_le) (hlimits ▸ hvalid.length_le) ⟨field, hfield, hwide⟩
  have hheader : HEADER_SIZE = 28 := rfl
  have hvarint : VARINT_MAX_BYTES = 5 := rfl
  have hmax : usizeMax = 2 ^ 64 - 1 := rfl
  refine ⟨[EntitySnapshot.ofComponent component.least], limits, out, by rw [hout]; decide, ?_⟩
  have hsection : writeSection .entityCreate limits (Full.encodeCreateBody build schema
      [EntitySnapshot.ofComponent component.least] limits) (out.drop HEADER_SIZE)
        = .error .panic := by
    refine write_section_eq_panic hpanic (by rw [List.length_drop]; omega) ?_
    rw [capacity, saturatingMul, List.length_drop, List.length_drop]
    omega
  have hcount :
      ¬ [EntitySnapshot.ofComponent component.least].length > limits.maxEntitiesCreate := by
    rw [hlimits]
    exact Nat.lt_irrefl 1
  unfold encodeFullSnapshot
  rw [if_neg (by omega)]
  dsimp only
  rw [if_neg hcount, List.isEmpty_cons, Bool.not_false, append_section_eq_panic (by omega) hsection]
  rfl

end Wide

/-! ## Thresholds -/

/-- The schemas none of whose fields is compared by a threshold. -/
def Schema.WithoutThresholds (schema : Schema) : Prop :=
  ∀ component ∈ schema.components, ∀ field ∈ component.fields, field.change = .always

/-- The value `x` for the fields that are compared by a threshold. -/
def FieldDef.extreme (x : Int64) (field : FieldDef) : FieldValue :=
  match field.change with
  | .always => .sint 0
  | .threshold _ => .sint x

/-- A component of these values. -/
def ComponentDef.extreme (x : Int64) (component : ComponentDef) : ComponentSnapshot :=
  ⟨component.id, component.fields.map (FieldDef.extreme x)⟩

section Threshold

variable (hchecks : build.overflowChecks)

include hchecks

/-- The comparison of the least with the greatest number. -/
theorem field_changed_extreme (componentId : ComponentId) (field : FieldDef) :
    fieldChanged build componentId field (field.extreme Int64.minValue)
      (field.extreme Int64.maxValue)
      = if field.change = .always then .ok false else .error .panic := by
  unfold fieldChanged FieldDef.extreme
  cases hchange : field.change with
  | always => rfl
  | threshold thresholdQ =>
      rw [if_neg (by intro h; cases h)]
      show (do
        let difference ← build.sub Int64.minValue Int64.maxValue
        return difference.toInt.natAbs > thresholdQ.toNat : Outcome CodecError Bool) = _
      rw [sub_eq_panic hchecks (by decide)]
      rfl

/-- The loop ends at the first field with a threshold. -/
theorem any_field_changed_extreme (componentId : ComponentId) {fields : List FieldDef}
    (h : ∃ field ∈ fields, field.change ≠ .always) :
    anyFieldChanged build componentId fields (fields.map (FieldDef.extreme Int64.minValue))
      (fields.map (FieldDef.extreme Int64.maxValue)) = .error .panic := by
  induction fields with
  | nil =>
      obtain ⟨field, hfield, _⟩ := h
      cases hfield
  | cons field fields ih =>
      rw [List.map_cons, List.map_cons, anyFieldChanged, field_changed_extreme hchecks]
      by_cases halways : field.change = .always
      · rw [if_pos halways]
        obtain ⟨other, hother, hne⟩ := h
        have hrest := (List.mem_cons.mp hother).resolve_left fun heq => hne (heq ▸ halways)
        exact ih ⟨other, hrest, hne⟩
      · rw [if_neg halways]
        rfl

theorem entity_has_updates_extreme {component : ComponentDef} (hschema : schema.Valid)
    (hcomponent : component ∈ schema.components)
    (hfields : component.fields.length ≤ limits.maxFieldsPerComponent)
    (h : ∃ field ∈ component.fields, field.change ≠ .always) :
    entityHasUpdates build schema limits (.ofComponent (component.extreme Int64.minValue))
      (.ofComponent (component.extreme Int64.maxValue)) = .error .panic := by
  have hfind (x : Int64) (id : ComponentId) :
      findComponent (.ofComponent (component.extreme x)) id
        = if component.id = id then some (component.extreme x) else none :=
    find_of_component _ _
  have hpresence : ensureComponentPresenceMatches schema
      (.ofComponent (component.extreme Int64.minValue))
      (.ofComponent (component.extreme Int64.maxValue)) = .ok () := by
    rw [ensureComponentPresenceMatches, forM_eq_ok]
    intro d _
    rw [hfind, hfind]
    by_cases hid : component.id = d.id
    · rw [if_pos hid, if_pos hid]
      rfl
    · rw [if_neg hid, if_neg hid]
      rfl
  have hloop (components : List ComponentDef) (hsub : ∀ d ∈ components, d ∈ schema.components)
      (hmem : component ∈ components) :
      entityHasUpdatesLoop build limits (.ofComponent (component.extreme Int64.minValue))
        (.ofComponent (component.extreme Int64.maxValue)) components = .error .panic := by
    induction components with
    | nil => cases hmem
    | cons d rest ih =>
        obtain ⟨hd, hsub⟩ := List.forall_mem_cons.mp hsub
        rw [entityHasUpdatesLoop, hfind, hfind]
        by_cases hid : component.id = d.id
        · have heq := List.inj_on_of_nodup_map hschema.componentIds hcomponent hd hid
          subst heq
          have hlength (x : Int64) :
              (component.extreme x).fields.length = component.fields.length :=
            List.length_map _
          have hcounts : checkFieldCounts limits component (component.extreme Int64.minValue)
              (component.extreme Int64.maxValue) = .ok () := by
            rw [checkFieldCounts, if_neg (by rw [hlength, hlength]; omega),
              if_neg (Nat.not_lt.mpr hfields)]
            rfl
          rw [if_pos hid, if_pos hid]
          dsimp only
          rw [hcounts, ok_bind]
          show (anyFieldChanged build component.id component.fields
            (component.fields.map (FieldDef.extreme Int64.minValue))
            (component.fields.map (FieldDef.extreme Int64.maxValue)) >>= _) = _
          rw [any_field_changed_extreme hchecks component.id h]
          rfl
        · rw [if_neg hid, if_neg hid]
          exact ih hsub ((List.mem_cons.mp hmem).resolve_left fun heq => hid (congrArg _ heq))
  rw [entityHasUpdates, hpresence, ok_bind]
  exact hloop schema.components (fun _ h => h) hcomponent

/-- A delta of two snapshots that differ so. -/
theorem exists_delta_panic (hschema : schema.Valid) (hthreshold : ¬ schema.WithoutThresholds)
    (tick baselineTick : SnapshotTick) :
    ∃ baseline current limits out, out.length ≤ isizeMax
      ∧ encodeDeltaSnapshot build schema tick baselineTick baseline current limits out
        = .error .panic := by
  simp only [Schema.WithoutThresholds, not_forall] at hthreshold
  obtain ⟨component, hcomponent, field, hfield, hthreshold⟩ := hthreshold
  obtain ⟨limits, hlimits⟩ : ∃ limits : CodecLimits, limits = ⟨0, 0, 0, 0, 2 ^ 16, 0, 0⟩ :=
    ⟨_, rfl⟩
  have hvalid := hschema.components component hcomponent
  obtain ⟨b, hb⟩ : ∃ b, b = EntitySnapshot.ofComponent (component.extreme Int64.minValue) :=
    ⟨_, rfl⟩
  obtain ⟨c, hc⟩ : ∃ c, c = EntitySnapshot.ofComponent (component.extreme Int64.maxValue) :=
    ⟨_, rfl⟩
  have hupdates : entityHasUpdates build schema limits b c = .error .panic := by
    rw [hb, hc]
    exact entity_has_updates_extreme hchecks hschema hcomponent (hlimits ▸ hvalid.length_le)
      ⟨field, hfield, hthreshold⟩
  have hid : entityKey b = 0 ∧ entityKey c = 0 := by
    rw [hb, hc]
    exact ⟨rfl, rfl⟩
  have hsteps : mergeSteps ⟨baselineTick, [b]⟩ ⟨tick, [c]⟩ = [.both b c] := by
    rw [mergeSteps, walk_cons_cons, hid.1, hid.2, if_neg (UInt32.lt_irrefl 0),
      if_neg (UInt32.lt_irrefl 0)]
    rfl
  have hcounts : diffCounts build schema limits ⟨baselineTick, [b]⟩ ⟨tick, [c]⟩
      = .error .panic := by
    rw [diffCounts, hsteps, List.foldlM_cons]
    dsimp only
    rw [hupdates]
    rfl
  refine ⟨⟨baselineTick, [b]⟩, ⟨tick, [c]⟩, limits, List.replicate HEADER_SIZE 0, by decide, ?_⟩
  have hpayload (out : List UInt8) : encodeDeltaPayloadWithMode build schema baselineTick
      ⟨baselineTick, [b]⟩ ⟨tick, [c]⟩ limits .auto .default out = .error .panic := by
    unfold encodeDeltaPayloadWithMode
    rw [if_neg (not_not.mpr rfl), hcounts]
    rfl
  unfold encodeDeltaSnapshot encodeDeltaSnapshotWithScratch encodeDeltaSnapshotWithScratchMode
    encodeDeltaPacket
  rw [if_neg (by decide), withTail, if_pos (by decide), hpayload]
  rfl

end Threshold

end Sdec
