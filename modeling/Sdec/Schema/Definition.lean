import Sdec.Rust.Outcome
import Mathlib.Data.List.Nodup

/-!
# Schemas

Components, fields and codecs of a schema, and its validation, after `schema/src/lib.rs`,
`schema/src/field.rs` and `schema/src/schema.rs`. Component and field ids are non-zero by
construction. `Schema.Valid` is what validation checks, and `schema_new_eq_ok` shows that
`Schema::new` accepts exactly the valid schemas.
-/

namespace Sdec

open Rust

/-- `ComponentId`. -/
structure ComponentId where
  val : UInt16
  ne_zero : val ≠ 0
  deriving DecidableEq, Repr

/-- `ComponentId::new`. -/
def ComponentId.new (value : UInt16) : Option ComponentId :=
  if h : value ≠ 0 then some ⟨value, h⟩ else none

/-- `ComponentId::get`. -/
def ComponentId.get (id : ComponentId) : UInt16 := id.val

/-- `FieldId`. -/
structure FieldId where
  val : UInt16
  ne_zero : val ≠ 0
  deriving DecidableEq, Repr

/-- `FieldId::get`. -/
def FieldId.get (id : FieldId) : UInt16 := id.val

/-! The ids of the schemas that are run below. -/

theorem nonzero_one : (1 : UInt16) ≠ 0 := by decide
theorem nonzero_two : (2 : UInt16) ≠ 0 := by decide
theorem nonzero_three : (3 : UInt16) ≠ 0 := by decide
theorem nonzero_four : (4 : UInt16) ≠ 0 := by decide
theorem nonzero_ten : (10 : UInt16) ≠ 0 := by decide

/-- `FixedPoint`. -/
structure FixedPoint where
  minQ : Int64
  maxQ : Int64
  scale : UInt32
  deriving DecidableEq, Repr

/-- `FieldCodec`. -/
inductive FieldCodec where
  | bool
  | uint (bits : UInt8)
  | sint (bits : UInt8)
  | varUInt
  | varSInt
  | fixedPoint (fp : FixedPoint)
  deriving DecidableEq, Repr

/-- `ChangePolicy`. -/
inductive ChangePolicy where
  | always
  | threshold (thresholdQ : UInt32)
  deriving DecidableEq, Repr

/-- `FieldDef`. -/
structure FieldDef where
  id : FieldId
  codec : FieldCodec
  change : ChangePolicy
  deriving DecidableEq, Repr

/-- `ComponentDef`. -/
structure ComponentDef where
  id : ComponentId
  fields : List FieldDef
  deriving DecidableEq, Repr

/-- `Schema`. -/
structure Schema where
  components : List ComponentDef
  deriving DecidableEq, Repr

/-- `SchemaError`. -/
inductive SchemaError where
  | duplicateComponentId (id : ComponentId)
  | duplicateFieldId (component : ComponentId) (field : FieldId)
  | invalidBitWidth (bits : UInt8)
  | invalidFixedPointScale (scale : UInt32)
  | invalidFixedPointRange (minQ maxQ : Int64)
  deriving DecidableEq, Repr

/-! ## Validation -/

/-- `validate_fixed_point`. -/
def validateFixedPoint (fp : FixedPoint) : Except SchemaError Unit :=
  if fp.scale = 0 then .error (.invalidFixedPointScale fp.scale)
  else if fp.minQ > fp.maxQ then .error (.invalidFixedPointRange fp.minQ fp.maxQ)
  else .ok ()

/-- The check of a width in `validate_field`. -/
def validateBits (bits : UInt8) : Except SchemaError Unit :=
  if bits = 0 ∨ bits > 64 then .error (.invalidBitWidth bits) else .ok ()

/-- `validate_field`. A threshold of zero is valid. -/
def validateField (field : FieldDef) : Except SchemaError Unit :=
  match field.codec with
  | .uint bits | .sint bits => validateBits bits
  | .fixedPoint fp => validateFixedPoint fp
  | .bool | .varUInt | .varSInt => .ok ()

/-- The loop of `Schema::validate` over the fields of a component, with the field ids seen. -/
def validateFields (component : ComponentId) :
    List FieldId → List FieldDef → Except SchemaError Unit
  | _, [] => .ok ()
  | fieldIds, field :: rest => do
      if field.id ∈ fieldIds then
        throw (.duplicateFieldId component field.id)
      validateField field
      validateFields component (field.id :: fieldIds) rest

/-- The loop of `Schema::validate` over the components, with the component ids seen. -/
def validateComponents : List ComponentId → List ComponentDef → Except SchemaError Unit
  | _, [] => .ok ()
  | componentIds, component :: rest => do
      if component.id ∈ componentIds then
        throw (.duplicateComponentId component.id)
      validateFields component.id [] component.fields
      validateComponents (component.id :: componentIds) rest

/-- `Schema::validate`. -/
def Schema.validate (schema : Schema) : Except SchemaError Unit :=
  validateComponents [] schema.components

/-- `Schema::new`. -/
def Schema.new (components : List ComponentDef) : Except SchemaError Schema := do
  let schema : Schema := ⟨components⟩
  schema.validate
  return schema

/-! ## Valid schemas -/

/-- The codecs that validation accepts. -/
def FieldCodec.Valid : FieldCodec → Prop
  | .uint bits | .sint bits => 0 < bits.toNat ∧ bits.toNat ≤ 64
  | .fixedPoint fp => fp.scale ≠ 0 ∧ fp.minQ ≤ fp.maxQ
  | .bool | .varUInt | .varSInt => True

instance (codec : FieldCodec) : Decidable codec.Valid :=
  match codec with
  | .uint bits | .sint bits => inferInstanceAs (Decidable (0 < bits.toNat ∧ bits.toNat ≤ 64))
  | .fixedPoint fp => inferInstanceAs (Decidable (fp.scale ≠ 0 ∧ fp.minQ ≤ fp.maxQ))
  | .bool | .varUInt | .varSInt => inferInstanceAs (Decidable True)

/-- The components that validation accepts. -/
structure ComponentDef.Valid (component : ComponentDef) : Prop where
  fieldIds : (component.fields.map FieldDef.id).Nodup
  codecs : ∀ field ∈ component.fields, field.codec.Valid

/-- The schemas that validation accepts. -/
structure Schema.Valid (schema : Schema) : Prop where
  componentIds : (schema.components.map ComponentDef.id).Nodup
  components : ∀ component ∈ schema.components, component.Valid

theorem validate_bits_eq_ok {bits : UInt8} {u : Unit} :
    validateBits bits = .ok u ↔ 0 < bits.toNat ∧ bits.toNat ≤ 64 := by
  have hzero : bits = 0 ↔ bits.toNat = 0 := by rw [← UInt8.toNat_inj]; rfl
  have hwide : bits > 64 ↔ 64 < bits.toNat := UInt8.lt_iff_toNat_lt
  simp only [validateBits, hzero, hwide]
  split <;> simp <;> omega

theorem validate_field_eq_ok {field : FieldDef} {u : Unit} :
    validateField field = .ok u ↔ field.codec.Valid := by
  rw [validateField]
  cases field.codec with
  | bool | varUInt | varSInt => simp [FieldCodec.Valid]
  | uint bits | sint bits => exact validate_bits_eq_ok
  | fixedPoint fp =>
      have hrange : fp.minQ > fp.maxQ ↔ ¬ fp.minQ ≤ fp.maxQ := Int64.not_le.symm
      simp only [validateFixedPoint, FieldCodec.Valid, hrange]
      split
      · simp_all
      · split <;> simp_all

theorem validate_fields_eq_ok {component : ComponentId} {seen : List FieldId}
    {fields : List FieldDef} {u : Unit} :
    validateFields component seen fields = .ok u ↔
      (fields.map FieldDef.id).Nodup ∧ (∀ field ∈ fields, field.id ∉ seen) ∧
        ∀ field ∈ fields, field.codec.Valid := by
  induction fields generalizing seen with
  | nil => simp [validateFields]
  | cons field rest ih =>
      simp only [validateFields, check_eq_ok, bind_eq_ok, validate_field_eq_ok, ih,
        exists_const, List.map_cons, List.nodup_cons, List.mem_cons, forall_eq_or_imp,
        List.mem_map, not_or, not_exists, not_and, forall_and]
      tauto

theorem validate_components_eq_ok {seen : List ComponentId} {components : List ComponentDef} :
    validateComponents seen components = .ok () ↔
      (components.map ComponentDef.id).Nodup ∧ (∀ component ∈ components, component.id ∉ seen) ∧
        ∀ component ∈ components, component.Valid := by
  induction components generalizing seen with
  | nil => simp [validateComponents]
  | cons component rest ih =>
      have hvalid (u : Unit) :
          validateFields component.id [] component.fields = .ok u ↔ component.Valid := by
        rw [validate_fields_eq_ok]
        exact ⟨fun h => ⟨h.1, h.2.2⟩, fun h => ⟨h.fieldIds, by simp, h.codecs⟩⟩
      simp only [validateComponents, check_eq_ok, bind_eq_ok, hvalid, ih,
        exists_const, List.map_cons, List.nodup_cons, List.mem_cons, forall_eq_or_imp,
        List.mem_map, not_or, not_exists, not_and, forall_and]
      tauto

/-- `Schema::new` accepts exactly the valid schemas, and returns them unchanged. -/
theorem schema_new_eq_ok {components : List ComponentDef} {schema : Schema} :
    Schema.new components = .ok schema ↔ schema = ⟨components⟩ ∧ schema.Valid := by
  have hvalidate : (Schema.mk components).validate = .ok () ↔ (Schema.mk components).Valid := by
    rw [Schema.validate, validate_components_eq_ok]
    exact ⟨fun h => ⟨h.1, h.2.2⟩, fun h => ⟨h.componentIds, by simp, h.components⟩⟩
  simp only [Schema.new, bind_eq_ok, hvalidate]
  constructor
  · rintro ⟨_, h, hschema⟩
    cases hschema
    exact ⟨rfl, h⟩
  · rintro ⟨rfl, h⟩
    exact ⟨(), h, rfl⟩

end Sdec
