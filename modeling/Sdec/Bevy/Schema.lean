import Sdec.Bevy.World
import Sdec.Codec.Types
import Sdec.Rust.Focus
import Sdec.Schema.Hash

/-!
# Replicated components

The component types that a Bevy application replicates and the schema that is built of them, after
`sdec-bevy/src/schema.rs`. A component type is known by its `typeId`, and `V` has the components of
all types. What an application implements for a type (`read_fields`, `apply_field`, `from_fields`)
is a parameter: it can fail, and `apply_field` can change a component and fail all the same.
-/

namespace Sdec.Bevy

open Rust

/-- `ReplicatedField`. -/
structure ReplicatedField where
  id : FieldId
  codec : FieldCodec
  change : Option ChangePolicy
  deriving DecidableEq, Repr

/-- One field of `build_field_defs`. -/
def ReplicatedField.fieldDef (field : ReplicatedField) : FieldDef :=
  ⟨field.id, field.codec, field.change.getD .always⟩

/-- `ReplicatedComponent` and the adapter of a component type. -/
structure ComponentAdapter (ε κ V : Type) where
  typeId : κ
  componentId : ComponentId
  fields : List ReplicatedField
  readFields : V → List FieldValue
  applyField : Nat → FieldValue → Call ε V Unit
  fromFields : List FieldValue → Outcome ε V

/-- What applying a frame can fail with. The source has an `anyhow::Error` of each of them. -/
inductive ApplyError (ε : Type) where
  | wire (error : Wire.DecodeError)
  | codec (error : CodecError)
  | sessionMissing
  | unknownComponent (id : ComponentId)
  | missingComponent (id : ComponentId)
  | component (error : ε)
  deriving DecidableEq, Repr

namespace ComponentAdapter

variable {ε κ V : Type}

/-- `schema_def`. -/
def schemaDef (adapter : ComponentAdapter ε κ V) : ComponentDef :=
  ⟨adapter.componentId, adapter.fields.map ReplicatedField.fieldDef⟩

/-- `snapshot_component`. -/
def snapshotComponent (adapter : ComponentAdapter ε κ V) (world : World κ V) (entity : Entity) :
    Option ComponentSnapshot :=
  (world.get entity adapter.typeId).map fun component =>
    ⟨adapter.componentId, adapter.readFields component⟩

/-- The loop of `apply_update` over the fields. -/
def applyFields (adapter : ComponentAdapter ε κ V) (fields : List (Nat × FieldValue)) :
    Call ε V Unit :=
  fields.forM fun field => adapter.applyField field.1 field.2

variable [DecidableEq κ]

/-- `apply_update`. It changes the component in the world, up to the field that fails. -/
def applyUpdate (adapter : ComponentAdapter ε κ V) (entity : Entity)
    (fields : List (Nat × FieldValue)) : Call (ApplyError ε) (World κ V) Unit := fun world =>
  match world.get entity adapter.typeId with
  | none => .error (.err (.missingComponent adapter.componentId)) world
  | some component =>
      Call.focus (fun _ => component)
        (fun component world => world.set entity adapter.typeId component)
        (Call.mapErr ApplyError.component (adapter.applyFields fields)) world

/-- An update of a component that is not there. -/
theorem apply_update_of_none {adapter : ComponentAdapter ε κ V} {world : World κ V}
    {entity : Entity} (h : world.get entity adapter.typeId = none)
    (fields : List (Nat × FieldValue)) :
    adapter.applyUpdate entity fields world
      = .error (.err (.missingComponent adapter.componentId)) world := by
  unfold applyUpdate
  rw [h]

/-- An update of a component that is there. -/
theorem apply_update_of_some {adapter : ComponentAdapter ε κ V} {world : World κ V}
    {entity : Entity} {component : V} (h : world.get entity adapter.typeId = some component)
    (fields : List (Nat × FieldValue)) :
    adapter.applyUpdate entity fields world
      = Call.focus (fun _ => component)
        (fun component world => world.set entity adapter.typeId component)
        (Call.mapErr ApplyError.component (adapter.applyFields fields)) world := by
  unfold applyUpdate
  rw [h]

/-- `insert_component`. `entity_mut` panics on an entity that is not there. -/
def insertComponent (adapter : ComponentAdapter ε κ V) (entity : Entity)
    (fields : List FieldValue) : Call (ApplyError ε) (World κ V) Unit := do
  let component ← (adapter.fromFields fields).mapErr ApplyError.component
  let world ← get
  if (world.entities entity).isNone then fault .panic
  set (world.set entity adapter.typeId component)

end ComponentAdapter

variable {ε κ V : Type}

/-- `BevySchema`. The adapters are of different types and have different ids. -/
structure BevySchema (ε κ V : Type) where
  schema : Schema
  adapters : List (ComponentAdapter ε κ V)
  types : (adapters.map ComponentAdapter.typeId).Nodup
  ids : (adapters.map ComponentAdapter.componentId).Nodup

/-- `BevySchemaBuilder`. The adapters are of different types. -/
structure BevySchemaBuilder (ε κ V : Type) where
  adapters : List (ComponentAdapter ε κ V)
  types : (adapters.map ComponentAdapter.typeId).Nodup

namespace BevySchemaBuilder

/-- `BevySchemaBuilder::new`. -/
def new : BevySchemaBuilder ε κ V := ⟨[], List.nodup_nil⟩

theorem types_append {adapters : List (ComponentAdapter ε κ V)} {adapter : ComponentAdapter ε κ V}
    (htypes : (adapters.map ComponentAdapter.typeId).Nodup)
    (hnew : adapter.typeId ∉ adapters.map ComponentAdapter.typeId) :
    ((adapters ++ [adapter]).map ComponentAdapter.typeId).Nodup := by
  rw [List.map_append, List.nodup_append]
  refine ⟨htypes, List.nodup_singleton _, fun a ha b hb heq => ?_⟩
  rw [List.map_singleton, List.mem_singleton] at hb
  rw [heq, hb] at ha
  exact hnew ha

/-- `BevySchemaBuilder::component`. A type that is there already is not added again. -/
def component [DecidableEq κ] (builder : BevySchemaBuilder ε κ V)
    (adapter : ComponentAdapter ε κ V) :
    BevySchemaBuilder ε κ V :=
  if h : adapter.typeId ∈ builder.adapters.map ComponentAdapter.typeId then builder
  else ⟨builder.adapters ++ [adapter], types_append builder.types h⟩

theorem ids_of_new {adapters : List (ComponentAdapter ε κ V)} {schema : Schema}
    (h : Schema.new (adapters.map ComponentAdapter.schemaDef) = .ok schema) :
    (adapters.map ComponentAdapter.componentId).Nodup := by
  obtain ⟨rfl, hvalid⟩ := schema_new_eq_ok.mp h
  have hids := hvalid.componentIds
  rwa [List.map_map] at hids

/-- `BevySchemaBuilder::build`. -/
def build (builder : BevySchemaBuilder ε κ V) : Except SchemaError (BevySchema ε κ V) :=
  match h : Schema.new (builder.adapters.map ComponentAdapter.schemaDef) with
  | .ok schema => .ok ⟨schema, builder.adapters, builder.types, ids_of_new h⟩
  | .error e => .error e

/-- What is built has the schema of its adapters. -/
theorem build_eq_ok {builder : BevySchemaBuilder ε κ V} {bevy : BevySchema ε κ V}
    (h : builder.build = .ok bevy) :
    bevy.schema = ⟨bevy.adapters.map ComponentAdapter.schemaDef⟩ ∧ bevy.schema.Valid := by
  unfold build at h
  split at h
  case h_1 schema hnew =>
    cases h
    exact schema_new_eq_ok.mp hnew
  case h_2 => cases h

end BevySchemaBuilder

namespace BevySchema

variable (bevy : BevySchema ε κ V)

/-- `BevySchema::adapter_by_component`. -/
def adapterByComponent (id : ComponentId) : Option (ComponentAdapter ε κ V) :=
  bevy.adapters.find? fun adapter => adapter.componentId = id

/-- `BevySchema::snapshot_entity`. -/
def snapshotEntity (world : World κ V) (entity : Entity) :
    List ComponentSnapshot :=
  bevy.adapters.filterMap fun adapter => adapter.snapshotComponent world entity

/-- `adapter_by_component(id).ok_or_else(..)`. -/
def knownAdapter (id : ComponentId) : Outcome (ApplyError ε) (ComponentAdapter ε κ V) :=
  match bevy.adapterByComponent id with
  | some adapter => return adapter
  | none => fail (.unknownComponent id)

/-- `BevySchema::apply_component_fields`. -/
def applyComponentFields [DecidableEq κ] (entity : Entity) (id : ComponentId)
    (fields : List (Nat × FieldValue)) : Call (ApplyError ε) (World κ V) Unit := do
  let adapter ← bevy.knownAdapter id
  adapter.applyUpdate entity fields

/-- `BevySchema::insert_component_fields`. -/
def insertComponentFields [DecidableEq κ] (entity : Entity) (id : ComponentId)
    (fields : List FieldValue) : Call (ApplyError ε) (World κ V) Unit := do
  let adapter ← bevy.knownAdapter id
  adapter.insertComponent entity fields

/-! ## Adapters by their ids and types -/

variable {bevy} {adapter other : ComponentAdapter ε κ V} {id : ComponentId}

theorem adapter_by_component_eq_some :
    bevy.adapterByComponent id = some adapter
      ↔ adapter ∈ bevy.adapters ∧ adapter.componentId = id := by
  constructor
  · intro h
    exact ⟨List.mem_of_find?_eq_some h, by simpa using List.find?_some h⟩
  · intro h
    unfold adapterByComponent
    cases hfind : bevy.adapters.find? fun adapter => adapter.componentId = id with
    | none =>
        have hno := List.find?_eq_none.mp hfind adapter h.1
        rw [decide_eq_true_eq] at hno
        exact absurd h.2 hno
    | some found =>
        have hfound := List.mem_of_find?_eq_some hfind
        have hid : found.componentId = id := by simpa using List.find?_some hfind
        rw [List.inj_on_of_nodup_map bevy.ids hfound h.1 (hid.trans h.2.symm)]

/-- Adapters of one type are the same. -/
theorem eq_of_type_eq (h : adapter ∈ bevy.adapters) (hother : other ∈ bevy.adapters)
    (htype : adapter.typeId = other.typeId) : adapter = other :=
  List.inj_on_of_nodup_map bevy.types h hother htype

theorem eq_of_component_id_eq (h : adapter ∈ bevy.adapters) (hother : other ∈ bevy.adapters)
    (hid : adapter.componentId = other.componentId) : adapter = other :=
  List.inj_on_of_nodup_map bevy.ids h hother hid

theorem known_adapter_of_mem (h : adapter ∈ bevy.adapters) :
    bevy.knownAdapter adapter.componentId = .ok adapter := by
  unfold knownAdapter
  rw [adapter_by_component_eq_some.mpr ⟨h, rfl⟩]
  rfl

/-- The schema of one adapter. -/
def sole (adapter : ComponentAdapter ε κ V) : BevySchema ε κ V where
  schema := ⟨[adapter.schemaDef]⟩
  adapters := [adapter]
  types := List.nodup_singleton _
  ids := List.nodup_singleton _

end BevySchema

/-! ## An adapter of the golden schema -/

/-- A component type of `goldenSchema` that keeps its fields as they are. -/
def goldenAdapter : ComponentAdapter Unit Unit (List FieldValue) where
  typeId := ()
  componentId := ⟨10, nonzero_ten⟩
  fields := [
    ⟨⟨1, nonzero_one⟩, .bool, none⟩,
    ⟨⟨2, nonzero_two⟩, .sint 12, none⟩,
    ⟨⟨3, nonzero_three⟩, .uint 5, some (.threshold 3)⟩,
    ⟨⟨4, nonzero_four⟩, .fixedPoint ⟨-500, 500, 100⟩, none⟩]
  readFields fields := fields
  applyField idx value fields := .ok () (fields.set idx value)
  fromFields fields := return fields

example : (BevySchema.sole goldenAdapter).schema = goldenSchema := rfl

end Sdec.Bevy
