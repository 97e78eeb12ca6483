import Sdec.Diff.Change
import Sdec.Format.Entity

/-!
# The format of masked updates

A masked section lists the changed entities. Each has a mask of its changed components, and each
changed component a mask of its changed fields in front of their values. `write_update_components`
computes the masks twice, and keeps the first in a scratch buffer; the two are shown to agree.
-/

namespace Sdec

open Rust Bits Bitstream Codec Wire Sorted

variable {build : Build} {schema : Schema} {limits : CodecLimits} {pos : Nat}

/-! ## Components -/

/-- The layout of the changed fields of a component. -/
def maskedLayout (component : ComponentDef) (mask : List Bool)
    (values : List FieldValue) : Layout :=
  flags mask ++ ((component.fields.zip values).zip mask).flatMap fun ((field, value), changed) =>
    if changed then fieldLayout field.codec value else []

/-- The changed values of a component in the ranges of their codecs, in a build that can write
them. -/
def MaskedEncodes (build : Build) (component : ComponentDef) (mask : List Bool)
    (values : List FieldValue) : Prop :=
  ∀ p ∈ (component.fields.zip values).zip mask, p.2 →
    p.1.1.codec.Contains p.1.2 ∧ p.1.1.codec.Writable build

/-- The changed values of a component on which the arithmetic of the reader does not panic. -/
def MaskedReadable (build : Build) (component : ComponentDef) (mask : List Bool)
    (values : List FieldValue) : Prop :=
  ∀ p ∈ (component.fields.zip values).zip mask, p.2 → p.1.1.codec.Readable build p.1.2

/-- The loop that writes the changed values. It also walks the values of the baseline. -/
theorem writes_changed_values (component : ComponentDef) {base values : List FieldValue}
    (mask : List Bool) (hbase : base.length = component.fields.length) :
    Writes pos ((((component.fields.zip base).zip values).zip mask).forM
        fun (((field, _), currVal), changed) => do
          if changed then
            writeFieldValue build component.id field currVal)
      (fun _ => MaskedEncodes build component mask values)
      (((component.fields.zip values).zip mask).flatMap fun ((field, value), changed) =>
        if changed then fieldLayout field.codec value else []) := by
  -- The baseline is as long as the component, so leaving it out keeps the elements of the loop.
  have hzip : (component.fields.zip values).zip mask
      = (((component.fields.zip base).zip values).zip mask).map fun p =>
        ((p.1.1.1, p.1.2), p.2) := by
    have hfields : component.fields = (component.fields.zip base).map Prod.fst := by
      rw [List.map_fst_zip (Nat.le_of_eq hbase.symm)]
    conv_lhs => rw [hfields]
    rw [List.zip_map_left, List.zip_map_left]
    rfl
  rw [MaskedEncodes, hzip, List.flatMap_map]
  simp only [List.forall_mem_map]
  refine Writes.forM fun p _ pos => ?_
  obtain ⟨⟨⟨field, baseVal⟩, value⟩, changed⟩ := p
  cases changed with
  | true => exact (emits_write_field_value component.id field value).writes fun h _ => h
  | false => exact Writes.pure fun h => nomatch h

/-- The loop over the fields of a changed component. -/
theorem reads_read_changed_fields {component : ComponentDef} {fields : List FieldDef}
    (hvalid : ∀ field ∈ fields, field.codec.Valid) (mask : List Bool) (idx : Nat) {bits : List Bool}
    {values : List FieldValue} (hmask : mask.drop idx = bits)
    (hbits : bits.length = fields.length) (hvalues : values.length = fields.length)
    (hcontains : ∀ p ∈ (fields.zip values).zip bits, p.2 → p.1.1.codec.Contains p.1.2) :
    Reads pos (Delta.readChangedFields build component mask idx fields)
      (∀ p ∈ (fields.zip values).zip bits, p.2 → p.1.1.codec.Readable build p.1.2)
      (((fields.zip values).zip bits).flatMap fun ((field, value), changed) =>
        if changed then fieldLayout field.codec value else [])
      (changedFields idx bits values) := by
  induction fields generalizing pos idx bits values with
  | nil =>
      obtain rfl := List.eq_nil_of_length_eq_zero hbits
      exact (Reads.pure []).congr (by simp)
  | cons field fields ih =>
      obtain ⟨bit, bits, rfl⟩ := List.exists_cons_of_length_eq_add_one hbits
      obtain ⟨value, values, rfl⟩ := List.exists_cons_of_length_eq_add_one hvalues
      obtain ⟨-, hbit, hdrop⟩ := drop_eq_cons hmask
      rw [List.zip_cons_cons, List.zip_cons_cons] at hcontains ⊢
      obtain ⟨hfirst, hrest⟩ := List.forall_mem_cons.mp hcontains
      have ih {pos : Nat} : Reads pos _ _ _ _ := ih
        (fun f hf => hvalid f (List.mem_cons_of_mem _ hf)) (idx + 1) hdrop (Nat.succ.inj hbits)
        (Nat.succ.inj hvalues) hrest
      rw [Delta.readChangedFields, index_of_some hbit, pure_bind, List.flatMap_cons,
        List.forall_mem_cons]
      cases bit with
      | true =>
          have hvalid := hvalid field List.mem_cons_self
          rw [changed_fields_true]
          refine ((reads_read_field_value component.id hvalid (hfirst rfl)).bind fun _ =>
            ih.bind_pure).congr ?_
          simp
      | false => exact ih.congr (by simp)

/-- Reading a changed component back. -/
theorem reads_decode_update_component {component : ComponentDef} {mask : List Bool}
    {values : List FieldValue} (hvalid : component.Valid)
    (hlimit : component.fields.length ≤ limits.maxFieldsPerComponent)
    (hmask : mask.length = component.fields.length)
    (hvalues : values.length = component.fields.length) (hany : mask.any id)
    (hencodes : MaskedEncodes build component mask values) :
    Reads pos (Delta.decodeUpdateComponent build component limits)
      (MaskedReadable build component mask values)
      (maskedLayout component mask values) (changedFields 0 mask values) := by
  unfold Delta.decodeUpdateComponent
  refine (Reads.check fun _ => ?_).congr (and_iff_right (Nat.not_lt.mpr hlimit))
  have hread : Parses pos _ _ _ := parses_read_mask (.fieldMask component.id) mask
  rw [hmask] at hread
  refine hread.bind_reads ((Reads.check fun _ => ?_).congr (and_iff_right (by rw [hany]; decide)))
  exact reads_read_changed_fields hvalid.codecs mask 0 rfl hmask hvalues
    fun p hp hchanged => (hencodes p hp hchanged).1

/-! ## Entities -/

/-- The content of a component of an entity in both snapshots, if any field changed. -/
def maskedContent (build : Build) (base curr : EntitySnapshot) (component : ComponentDef) :
    Option Layout :=
  match scanned build base curr component with
  | some (snapshot, mask) =>
      if mask.any id then some (maskedLayout component mask snapshot.fields) else none
  | none => none

/-- What the masks and values of an entity must be for an encoder to write them. -/
def MaskedFits (build : Build) (limits : CodecLimits) (base curr : EntitySnapshot)
    (component : ComponentDef) : Prop :=
  ∀ snapshot mask, scanned build base curr component = some (snapshot, mask) → mask.any id →
    mask.length = component.fields.length ∧ snapshot.fields.length = component.fields.length
      ∧ component.fields.length ≤ limits.maxFieldsPerComponent
      ∧ MaskedEncodes build component mask snapshot.fields

/-- Scanning a component leaves the mask of changed components alone. -/
theorem scan_component_changed {base curr : EntitySnapshot} {component : ComponentDef}
    {scratch scratch' : CodecScratch} {result : Option (ComponentSnapshot × List Bool)}
    (h : scanComponent build schema limits base curr component scratch = .ok (result, scratch'))
    (hsize : schema.components.length ≤ scratch.componentChanged.length) :
    scratch'.componentChanged = scratch.componentChanged := by
  obtain ⟨-, -, -, rfl⟩ := scan_component_eq h
  split
  · exact if_neg (Nat.not_lt.mpr hsize)
  · rfl

/-- The bit of a component in the component mask. -/
def changedBit (build : Build) (base curr : EntitySnapshot) (component : ComponentDef) : Bool :=
  (maskedContent build base curr component).isSome

section Content

variable {base curr : EntitySnapshot} {component : ComponentDef} {snapshot : ComponentSnapshot}
  {mask : List Bool}

/-- A component that one of the entities lacks has no content. -/
theorem masked_content_of_none (h : scanned build base curr component = none) :
    maskedContent build base curr component = none := by
  rw [maskedContent, h]

theorem masked_content_of_some (h : scanned build base curr component = some (snapshot, mask)) :
    maskedContent build base curr component
      = if mask.any id then some (maskedLayout component mask snapshot.fields) else none := by
  rw [maskedContent, h]

theorem changed_bit_of_none (h : scanned build base curr component = none) :
    changedBit build base curr component = false := by
  rw [changedBit, masked_content_of_none h]
  rfl

/-- The bit of a component is set if a bit of its own mask is. -/
theorem changed_bit_of_some (h : scanned build base curr component = some (snapshot, mask)) :
    changedBit build base curr component = mask.any id := by
  rw [changedBit, masked_content_of_some h]
  cases mask.any id <;> rfl

end Content

/-- The first loop of `write_update_components`, from the component at index `done.length` on. It
leaves the bits that it writes in the scratch buffer. -/
theorem writes_changed_mask_from {base curr : EntitySnapshot} {rest : List ComponentDef}
    {scratch : CodecScratch} (done tail : List Bool)
    (hchanged : scratch.componentChanged = done ++ (List.replicate rest.length false ++ tail))
    (hsize : schema.components.length ≤ done.length + rest.length) :
    Writes pos ((rest.zipIdx done.length).foldlM (fun scratch (component, idx) => (do
        let (scanned, scratch) ← scanComponent build schema limits base curr component scratch
        match scanned with
        | some (_, fieldMask) =>
            let anyChanged := fieldMask.any id
            stream (BitWriter.writeBit anyChanged)
            if anyChanged then
              let componentChanged ← store scratch.componentChanged idx true
              return { scratch with componentChanged }
            return scratch
        | none =>
            stream (BitWriter.writeBit false)
            return scratch : Call CodecError BitWriter CodecScratch)) scratch)
      (fun s => s.componentChanged = done ++ (rest.map (changedBit build base curr) ++ tail)
        ∧ ∀ component ∈ rest, Comparable limits base curr component)
      (flags (rest.map (changedBit build base curr))) := by
  induction rest generalizing pos scratch done with
  | nil => exact Writes.pure ⟨hchanged, fun d hd => nomatch hd⟩
  | cons component rest ih =>
      rw [List.length_cons] at hsize
      rw [List.length_cons, List.replicate_succ, List.cons_append] at hchanged
      have hscratch : schema.components.length ≤ scratch.componentChanged.length := by
        rw [hchanged, List.length_append, List.length_cons, List.length_append,
          List.length_replicate]
        omega
      rw [List.zipIdx_cons, List.foldlM_cons, List.map_cons, flags_cons]
      -- Whatever the bit, the loop goes on behind it.
      have hnext (bit : Bool) {pos : Nat} {scratch : CodecScratch}
          (hbit : scratch.componentChanged
            = done ++ bit :: (List.replicate rest.length false ++ tail)) :=
        @ih pos scratch (done ++ [bit]) (by rw [List.append_assoc]; exact hbit)
          (by rw [List.length_append]; simp only [List.length_singleton]; omega)
      refine (?_ : Writes pos _ (fun s => Comparable limits base curr component ∧ s.componentChanged
        = done ++ changedBit build base curr
          component :: (List.replicate rest.length false ++ tail))
          [.bit (changedBit build base curr component)]).bind fun s ⟨hcomparable, hbit⟩ => ?_
      · refine Writes.lift fun (found, scratch') hscan => ?_
        have hsame := (scan_component_changed hscan hscratch).trans hchanged
        obtain ⟨hfound, hcomparable, -, -⟩ := scan_component_eq hscan
        cases found with
        | none =>
            rw [changed_bit_of_none hfound.symm]
            exact (emits_write_bit false).map_err.writes_true.bind fun _ _ =>
              Writes.pure ⟨hcomparable, hsame⟩
        | some p =>
            rw [changed_bit_of_some hfound.symm]
            refine (emits_write_bit (p.2.any id)).map_err.writes_true.bind fun _ _ => ?_
            cases p.2.any id with
            | true =>
                have hlt : done.length < scratch'.componentChanged.length := by
                  rw [hsame, List.length_append, List.length_cons]
                  omega
                have hstore : (scratch'.componentChanged.set done.length true)
                    = done ++ true :: (List.replicate rest.length false ++ tail) := by
                  rw [hsame, List.set_append_right _ _ (Nat.le_refl _), Nat.sub_self]
                  rfl
                simp only [if_true, store_of_lt hlt, pure_bind]
                exact Writes.pure ⟨hcomparable, hstore⟩
            | false => exact Writes.pure ⟨hcomparable, hsame⟩
      · have hrest := @hnext _ (stop pos [.bit (changedBit build base curr component)]) _ hbit
        rw [List.length_append, List.length_singleton] at hrest
        refine hrest.mono fun s' ⟨hs', hall⟩ => ⟨?_, List.forall_mem_cons.mpr ⟨hcomparable, hall⟩⟩
        rw [hs', List.append_assoc]
        rfl

/-- What a scan finds in a component of both entities. -/
theorem scanned_of_some {base curr : EntitySnapshot} {component : ComponentDef}
    {b c : ComponentSnapshot} (hb : findComponent base component.id = some b)
    (hc : findComponent curr component.id = some c) :
    scanned build base curr component
      = some (c, changedMask build component.id component.fields b.fields c.fields) := by
  simp only [scanned, hb, hc]

/-- The second loop of `write_update_components` finds the bits of the first in the scratch
buffer. -/
theorem writes_changed_fields {base curr : EntitySnapshot} {scratch : CodecScratch}
    {tail : List Bool} (hchanged : scratch.componentChanged
      = schema.components.map (changedBit build base curr) ++ tail)
    (hcomparable : ∀ component ∈ schema.components, Comparable limits base curr component) :
    Writes pos (Delta.writeChangedFields build schema limits base curr scratch)
      (fun _ => ∀ component ∈ schema.components, MaskedFits build limits base curr component)
      (schema.components.flatMap fun component =>
        (maskedContent build base curr component).getD []) := by
  have hlayout : (schema.components.flatMap fun component =>
      (maskedContent build base curr component).getD [])
      = schema.components.zipIdx.flatMap fun p => (maskedContent build base curr p.1).getD [] := by
    conv_lhs => rw [← List.zipIdx_map_fst 0 schema.components, List.flatMap_map]
  rw [hlayout]
  -- the loop does not change the bits that the first loop left in the buffer
  refine (Writes.foldlM (fun s => s.componentChanged = scratch.componentChanged)
    (fun p => MaskedFits build limits base curr p.1) rfl fun p hp s pos hs => ?_).mono
    fun _ h component hcomponent => ?_
  · obtain ⟨component, idx⟩ := p
    have hidx := List.mk_mem_zipIdx_iff_getElem?.mp hp
    have hmem := List.mem_of_getElem? hidx
    have hbit : s.componentChanged[idx]? = some (changedBit build base curr component) := by
      have hlt : idx < (schema.components.map (changedBit build base curr)).length := by
        rw [List.length_map]
        exact (List.getElem?_eq_some_iff.mp hidx).1
      rw [hs, hchanged, List.getElem?_append_left hlt, List.getElem?_map, hidx, Option.map_some]
    have hsize : ¬ s.componentChanged.length < schema.components.length := by
      rw [hs, hchanged, List.length_append, List.length_map]
      omega
    have hensure (fields : Nat) :
        (s.ensure schema.components.length fields).componentChanged = s.componentChanged :=
      if_neg hsize
    -- a component that one of the entities lacks is not scanned, and its bit is clear
    cases hb : findComponent base component.id with
    | none =>
        have hnone : scanned build base curr component = none := by simp only [scanned, hb]
        simp only [hb, masked_content_of_none hnone]
        exact Writes.pure ⟨hs, fun snapshot mask h => by rw [hnone] at h; cases h⟩
    | some b =>
        cases hc : findComponent curr component.id with
        | none =>
            have hnone : scanned build base curr component = none := by simp only [scanned, hb, hc]
            simp only [hb, hc, masked_content_of_none hnone]
            exact Writes.pure ⟨hs, fun snapshot mask h => by rw [hnone] at h; cases h⟩
        | some c =>
            obtain ⟨hbase, hcurr, -⟩ := hcomparable component hmem b c hb hc
            have hsome := @scanned_of_some build _ _ _ _ _ hb hc
            have hslots := length_ensure_capacity s.fieldMask component.fields.length
            simp only [hb, hc]
            refine Writes.check fun hlimit => ?_
            rw [index_of_some ((congrArg (·[idx]?) (hensure _)).trans hbit), pure_bind,
              changed_bit_of_some hsome, masked_content_of_some hsome]
            cases hany :
              (changedMask build component.id component.fields b.fields c.fields).any id with
            | true =>
                simp only [if_true, Option.getD_some, maskedLayout]
                -- the mask is computed a second time, with the same result
                refine Writes.lift fun mask hmask => ?_
                obtain rfl := compute_field_mask_loop_eq hbase hcurr
                  (by rw [List.length_take]; exact Nat.min_eq_left hslots) hmask
                have hbits := @writes_mask pos _ id
                  (changedMask build component.id component.fields b.fields c.fields)
                rw [List.map_id] at hbits
                refine hbits.bind fun _ _ => ?_
                rw [← List.append_nil (List.flatMap _ _)]
                refine (writes_changed_values component _ hbase).bind fun _ hvalues =>
                  Writes.pure
                    ⟨(hensure component.fields.length).trans hs, fun snapshot mask hscan _ => ?_⟩
                rw [hsome] at hscan
                cases hscan
                exact ⟨length_changed_mask hbase hcurr, hcurr, Nat.le_of_not_lt hlimit, hvalues⟩
            | false =>
                refine Writes.pure
                  ⟨(hensure component.fields.length).trans hs, fun snapshot mask hscan htrue => ?_⟩
                rw [hsome] at hscan
                cases hscan
                rw [hany] at htrue
                cases htrue
  · obtain ⟨idx, hidx⟩ := List.getElem?_of_mem hcomponent
    exact h.2 (component, idx) (List.mk_mem_zipIdx_iff_getElem?.mpr hidx)

/-- `write_update_components` writes the component mask, and the changed fields. -/
theorem writes_write_update_components (base curr : EntitySnapshot) (scratch : CodecScratch) :
    Writes pos (Delta.writeUpdateComponents build schema limits base curr scratch)
      (fun _ => ∀ component ∈ schema.components, MaskedFits build limits base curr component)
      (componentsLayout schema (maskedContent build base curr)) := by
  obtain ⟨tail, htail⟩ : ∃ tail, ((scratch.ensure schema.components.length 0).clearComponents
      schema.components.length).componentChanged
        = [] ++ (List.replicate schema.components.length false ++ tail) := ⟨_, rfl⟩
  unfold Delta.writeUpdateComponents
  rw [componentsLayout]
  exact (writes_changed_mask_from [] tail htail (by simp)).bind fun _ h =>
    writes_changed_fields h.1 h.2

end Sdec
