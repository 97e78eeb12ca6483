import Sdec.BevyDemo.Resync

/-!
# The component of the demo

`PositionYaw`, the one component that the Bevy demo replicates, with its adapter, after
`sdec-bevy-demo/src/main.rs`. `demo_schema_build`, `demo_schema_consistent` and `demo_schema_fixed`
say that the schema of the demo is one for which its client works.
-/

namespace Sdec.BevyDemo

open Rust Codec Bevy

/-- `PositionYaw`. -/
structure PositionYaw where
  xQ : Int64
  yQ : Int64
  yaw : UInt16
  deriving DecidableEq, Repr

namespace PositionYaw

/-- `PositionYaw::COMPONENT_ID`. -/
def COMPONENT_ID : ComponentId := ⟨1, nonzero_one⟩

/-- `PositionYaw::fields`. -/
def fields : List ReplicatedField :=
  [⟨⟨1, nonzero_one⟩, .fixedPoint ⟨-100000, 100000, 100⟩, none⟩,
    ⟨⟨2, nonzero_two⟩, .fixedPoint ⟨-100000, 100000, 100⟩, none⟩,
    ⟨⟨3, nonzero_three⟩, .uint 12, none⟩]

/-- `PositionYaw::read_fields`. -/
def readFields (position : PositionYaw) : List FieldValue :=
  [.fixedPoint position.xQ, .fixedPoint position.yQ, .uint position.yaw.toUInt64]

/-- `PositionYaw::apply_field`. -/
def applyField : Nat → FieldValue → Call String PositionYaw Unit
  | 0, .fixedPoint v => modify fun position => { position with xQ := v }
  | 1, .fixedPoint v => modify fun position => { position with yQ := v }
  | 2, .uint v => modify fun position => { position with yaw := v.toUInt16 }
  | _, _ => fail "invalid field index/value"

/-- `PositionYaw::from_fields`. -/
def fromFields (fields : List FieldValue) : Outcome String PositionYaw :=
  match fields with
  | [x, y, yaw] =>
      match x with
      | .fixedPoint xQ =>
          match y with
          | .fixedPoint yQ =>
              match yaw with
              | .uint v => return ⟨xQ, yQ, v.toUInt16⟩
              | _ => fail "invalid field 2"
          | _ => fail "invalid field 1"
      | _ => fail "invalid field 0"
  | _ => fail "expected 3 fields"

/-- `impl ReplicatedComponent for PositionYaw`. -/
def adapter : ComponentAdapter String Unit PositionYaw where
  typeId := ()
  componentId := COMPONENT_ID
  fields := fields
  readFields := readFields
  applyField := applyField
  fromFields := fromFields

end PositionYaw

/-- The `BevySchema` of the demo. -/
def demoSchema : BevySchema String Unit PositionYaw := .sole PositionYaw.adapter

theorem demo_schema_build :
    (BevySchemaBuilder.new.component PositionYaw.adapter).build = .ok demoSchema := rfl

theorem mem_demo_adapters {adapter : ComponentAdapter String Unit PositionYaw} :
    adapter ∈ demoSchema.adapters ↔ adapter = PositionYaw.adapter := List.mem_singleton

/-! ## The adapter -/

theorem to_uint16_of_lt {v : UInt64} (h : v.toNat < 2 ^ 12) : v.toUInt16.toUInt64 = v := by
  refine UInt64.toNat_inj.mp ?_
  rw [UInt16.toNat_toUInt64, UInt64.toNat_toUInt16, Nat.mod_eq_of_lt (by omega)]

namespace PositionYaw

theorem fixed_point_of_contains {fp : FixedPoint} {value : FieldValue}
    (h : (FieldCodec.fixedPoint fp).Contains value) : ∃ v, value = .fixedPoint v := by
  cases value with
  | fixedPoint v => exact ⟨v, rfl⟩
  | _ => exact h.elim

theorem uint_of_contains {value : FieldValue} (h : (FieldCodec.uint 12).Contains value) :
    ∃ v : UInt64, value = .uint v ∧ v.toUInt16.toUInt64 = v := by
  cases value with
  | uint v => exact ⟨v, rfl, to_uint16_of_lt h⟩
  | _ => exact h.elim

/-- The adapter makes the component that fields in the ranges describe, and reads them back. -/
theorem consistent : adapter.Consistent where
  fromFields fields h := by
    obtain ⟨_, _, hx, hrest, rfl⟩ := List.forall₂_cons_left_iff.mp h
    obtain ⟨_, _, hy, hlast, rfl⟩ := List.forall₂_cons_left_iff.mp hrest
    obtain ⟨_, _, hyaw, hnil, rfl⟩ := List.forall₂_cons_left_iff.mp hlast
    obtain rfl := List.forall₂_nil_left_iff.mp hnil
    obtain ⟨xQ, rfl⟩ := fixed_point_of_contains hx
    obtain ⟨yQ, rfl⟩ := fixed_point_of_contains hy
    obtain ⟨v, rfl, hv⟩ := uint_of_contains hyaw
    refine ⟨⟨xQ, yQ, v.toUInt16⟩, rfl, ?_⟩
    show [FieldValue.fixedPoint xQ, .fixedPoint yQ, .uint v.toUInt16.toUInt64] = _
    rw [hv]
  applyField idx value component h := by
    obtain ⟨field, hfield, hvalue⟩ := h
    match idx with
    | 0 =>
        cases hfield
        obtain ⟨xQ, rfl⟩ := fixed_point_of_contains hvalue
        exact ⟨{ component with xQ }, rfl, rfl⟩
    | 1 =>
        cases hfield
        obtain ⟨yQ, rfl⟩ := fixed_point_of_contains hvalue
        exact ⟨{ component with yQ }, rfl, rfl⟩
    | 2 =>
        cases hfield
        obtain ⟨v, rfl, hv⟩ := uint_of_contains hvalue
        refine ⟨{ component with yaw := v.toUInt16 }, rfl, ?_⟩
        show [FieldValue.fixedPoint component.xQ, .fixedPoint component.yQ,
          .uint v.toUInt16.toUInt64] = _
        rw [hv]
        rfl
    | n + 3 => cases hfield

theorem fixed : FixedFields adapter := fun _ => rfl

end PositionYaw

theorem demo_schema_consistent : ∀ adapter ∈ demoSchema.adapters, adapter.Consistent :=
  fun _ h => mem_demo_adapters.mp h ▸ PositionYaw.consistent

theorem demo_schema_fixed : ∀ adapter ∈ demoSchema.adapters, FixedFields adapter :=
  fun _ h => mem_demo_adapters.mp h ▸ PositionYaw.fixed

end Sdec.BevyDemo
