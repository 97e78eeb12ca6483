import Sdec.Bitstream.Writes
import Sdec.Codec.Full
import Sdec.Format.Field

/-!
# The format of components

The layouts of masks and of components with all their fields, and that the writers and readers of
`snapshot.rs` and `delta.rs` keep to them. The components of an entity are laid out as a mask with a
bit for each component of the schema, and the contents of those whose bit is set.
-/

namespace Sdec

open Rust Bits Bitstream Codec

variable {build : Build} {schema : Schema} {limits : CodecLimits} {pos : Nat}

/-- Laying out what a partial map picks. -/
theorem flatMap_filterMap {α β γ : Type} (f : α → Option β) (g : β → List γ) (xs : List α) :
    (xs.filterMap f).flatMap g = xs.flatMap fun x => (f x).toList.flatMap g := by
  rw [List.filterMap_eq_flatMap_toList, List.flatMap_assoc]

/-! ## Masks -/

/-- A bit for each element of a list. -/
theorem flags_map_eq_flatMap {α : Type} (f : α → Bool) (xs : List α) :
    flags (xs.map f) = xs.flatMap fun x => [.bit (f x)] := by
  induction xs with
  | nil => rfl
  | cons x xs ih => rw [List.map_cons, flags_cons, ih]; rfl

theorem writes_mask {α : Type} (f : α → Bool) (xs : List α) :
    Writes pos (xs.forM fun x => stream (BitWriter.writeBit (f x))) (fun _ => True)
      (flags (xs.map f)) := by
  rw [flags_map_eq_flatMap]
  refine (Writes.forM (p := fun _ => True) fun x _ pos => ?_).mono fun _ _ => trivial
  exact (emits_write_bit (f x)).map_err.writes_true

theorem parses_read_mask_loop (mask : List Bool) :
    Parses pos (readMask.readMaskLoop mask.length) (flags mask) mask := by
  induction mask generalizing pos with
  | nil => exact Parses.pure []
  | cons bit mask ih =>
      rw [List.length_cons, readMask.readMaskLoop, flags_cons, ← List.append_nil (flags mask)]
      exact Parses.cons (parses_read_bit bit).map_err (Parses.bind ih (Parses.pure _))

theorem parses_read_mask (kind : MaskKind) (mask : List Bool) :
    Parses pos (readMask mask.length kind) (flags mask) mask := by
  intro data rest hlen hdata
  have hbits := le_bits_remaining hlen hdata
  rw [render_flags] at hbits
  have hloop := parses_read_mask_loop mask data rest hlen hdata
  simpa only [readMask, bind_apply, get_apply, if_neg (Nat.not_lt.mpr hbits)] using hloop

/-! ## All fields of a component -/

/-- The layout of a component with all its fields. -/
def denseLayout (component : ComponentDef) (values : List FieldValue) : Layout :=
  flags (component.fields.map fun _ => true)
    ++ (component.fields.zip values).flatMap fun (field, value) => fieldLayout field.codec value

/-- The values of a component in the ranges of its codecs, in a build that can write them. -/
structure ComponentDef.Encodes (build : Build) (limits : CodecLimits) (component : ComponentDef)
    (values : List FieldValue) : Prop where
  length : values.length = component.fields.length
  limit : component.fields.length ≤ limits.maxFieldsPerComponent
  values : ∀ p ∈ component.fields.zip values, p.1.codec.Contains p.2 ∧ p.1.codec.Writable build

/-- The values of a component on which the arithmetic of the reader does not panic. -/
def ComponentDef.Readable (build : Build) (component : ComponentDef) (values : List FieldValue) :
    Prop :=
  ∀ p ∈ component.fields.zip values, p.1.codec.Readable build p.2

theorem FieldCodec.readable_of_wrapping {codec : FieldCodec} {value : FieldValue}
    (h : build.overflowChecks = false) : codec.Readable build value := by
  unfold FieldCodec.Readable
  split <;> simp [h]

theorem FieldCodec.writable_of_wrapping {codec : FieldCodec} (h : build.overflowChecks = false)
    (hvalid : codec.Valid) : codec.Writable build := by
  cases codec with
  | bool | varUInt | varSInt => trivial
  | uint bits | sint bits => exact hvalid.2
  | fixedPoint fp => exact fun hchecks => absurd hchecks (by rw [h]; exact Bool.false_ne_true)

/-- What a checked build has written it reads back, except for negative values of 63 bits. -/
theorem FieldCodec.readable_of_writable {codec : FieldCodec} {value : FieldValue}
    (hwritable : codec.Writable build) (hsint : build.overflowChecks → codec ≠ .sint 63) :
    codec.Readable build value := by
  unfold FieldCodec.Readable
  split
  · exact fun hchecks h => hsint hchecks (by rw [h.1])
  · exact hwritable
  · trivial

theorem ComponentDef.readable_of_wrapping {component : ComponentDef} {values : List FieldValue}
    (h : build.overflowChecks = false) : component.Readable build values :=
  fun _ _ => FieldCodec.readable_of_wrapping h

theorem writes_write_all_fields (component : ComponentDef) (snapshot : ComponentSnapshot) :
    Writes pos (writeAllFields build component snapshot)
      (fun _ => ∀ p ∈ component.fields.zip snapshot.fields,
        p.1.codec.Contains p.2 ∧ p.1.codec.Writable build)
      (denseLayout component snapshot.fields) := by
  refine (writes_mask (fun _ => true) component.fields).bind fun _ _ => ?_
  refine (Writes.forM fun p _ pos => ?_).mono fun _ h => h
  exact (emits_write_field_value component.id p.1 p.2).writes id

theorem writes_write_component_fields (component : ComponentDef) (snapshot : ComponentSnapshot) :
    Writes pos (Full.writeComponentFields build component snapshot limits)
      (fun _ => component.Encodes build limits snapshot.fields)
      (denseLayout component snapshot.fields) := by
  unfold Full.writeComponentFields
  refine Writes.check fun hlimit => ?_
  refine Writes.check fun hlength => ?_
  refine Writes.check fun _ => ?_
  exact (writes_write_all_fields component snapshot).mono fun _ hvalues =>
    ⟨not_not.mp hlength, Nat.le_of_not_lt hlimit, hvalues⟩

/-- Reading the values of a component whose mask is full. -/
theorem reads_read_all_fields {component : ComponentDef} (mask : List Bool) (idx : Nat)
    {fields : List FieldDef} {values : List FieldValue}
    (hvalid : ∀ field ∈ fields, field.codec.Valid)
    (hvalues : List.Forall₂ (fun field value => field.codec.Contains value) fields values)
    (hmask : mask.drop idx = fields.map fun _ => true) :
    Reads pos (readAllFields build component mask idx fields)
      (∀ p ∈ fields.zip values, p.1.codec.Readable build p.2)
      ((fields.zip values).flatMap fun (field, value) => fieldLayout field.codec value) values := by
  induction hvalues generalizing idx pos with
  | nil => exact (Reads.pure []).congr (by simp)
  | cons hvalue hrest ih =>
      rename_i field value fields values
      obtain ⟨_, hbit, hdrop⟩ := drop_eq_cons hmask
      rw [readAllFields, List.zip_cons_cons, List.flatMap_cons, index_of_some hbit, pure_bind]
      refine Reads.congr (Reads.bind (reads_read_field_value component.id
        (hvalid _ List.mem_cons_self) hvalue) fun _ =>
          (ih (idx + 1) (fun f hf => hvalid f (List.mem_cons_of_mem _ hf)) hdrop).bind_pure) ?_
      rw [List.forall_mem_cons]

theorem reads_decode_component_fields {component : ComponentDef} {values : List FieldValue}
    (hvalid : component.Valid) (hlimit : component.fields.length ≤ limits.maxFieldsPerComponent)
    (hvalues :
      List.Forall₂ (fun field value => field.codec.Contains value) component.fields values) :
    Reads pos (decodeComponentFields build component limits) (component.Readable build values)
      (denseLayout component values) values := by
  unfold decodeComponentFields
  refine (Reads.check fun _ => ?_).congr (and_iff_right (Nat.not_lt.mpr hlimit))
  have hmask : Parses pos _ _ _ := parses_read_mask (.fieldMask component.id)
    (component.fields.map fun _ => true)
  rw [List.length_map] at hmask
  exact hmask.bind_reads (reads_read_all_fields _ 0 hvalid.codecs hvalues rfl)

/-! ## The components of an entity -/

/-- The layout of the components of the schema that have contents. -/
def componentsLayout (schema : Schema) (content : ComponentDef → Option Layout) : Layout :=
  flags (schema.components.map fun component => (content component).isSome)
    ++ schema.components.flatMap fun component => (content component).getD []

/-- Reading the components whose bit of the mask is set. -/
theorem reads_read_components {α : Type} {read : ComponentDef → Call CodecError BitReader α}
    (content : ComponentDef → Option (Layout × α)) (ok : ComponentDef → Prop) (mask : List Bool)
    (idx : Nat) {components : List ComponentDef}
    (hread : ∀ component ∈ components, ∀ items a, content component = some (items, a) →
      ∀ pos, Reads pos (read component) (ok component) items a)
    (hmask : mask.drop idx = components.map fun component => (content component).isSome) :
    Reads pos (readComponents read mask idx components)
      (∀ component ∈ components, (content component).isSome → ok component)
      (components.flatMap fun component => ((content component).map Prod.fst).getD [])
      (components.filterMap fun component => (content component).map Prod.snd) := by
  induction components generalizing idx pos with
  | nil => exact (Reads.pure []).congr (by simp)
  | cons component rest ih =>
      obtain ⟨_, hbit, hdrop⟩ := drop_eq_cons hmask
      have ih {pos : Nat} : Reads pos _ _ _ _ := ih (idx + 1)
        (fun c hc => hread c (List.mem_cons_of_mem _ hc)) hdrop
      rw [readComponents, index_of_some hbit, pure_bind, List.flatMap_cons, List.filterMap_cons,
        List.forall_mem_cons]
      beta_reduce
      cases hcontent : content component with
      | none =>
          rw [Option.isSome_none, if_neg Bool.false_ne_true]
          refine ih.congr ?_
          simp
      | some p =>
          have hfirst := hread component List.mem_cons_self p.1 p.2 hcontent pos
          rw [Option.isSome_some, if_pos rfl]
          refine (hfirst.bind fun _ => ih.bind_pure).congr ?_
          simp

/-- The content of a component of a created entity. -/
def denseContent (entity : EntitySnapshot) (component : ComponentDef) : Option Layout :=
  (findComponent entity component.id).map fun snapshot => denseLayout component snapshot.fields

end Sdec
