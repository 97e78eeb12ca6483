import Sdec.Codec.Component
import Sdec.Sorted.Search
import Mathlib.Data.List.Forall2
import Mathlib.Data.List.Nodup
import Mathlib.Data.List.Sublists

/-!
# Well-formed snapshots

What a snapshot of a schema is: its entities ascend strictly by id, and the components of each
entity are a sublist of the components of the schema, with one value in the range of its codec for
each field. `EntitySnapshot.wellFormed_iff` says the same in terms of `find_component`, which is how
the encoders look at an entity.
-/

namespace Sdec

open Codec Sorted

/-- A value of the variant and in the range of a codec. -/
def FieldCodec.Contains : FieldCodec → FieldValue → Prop
  | .bool, .bool _ => True
  | .uint bits, .uint v => v.toNat < 2 ^ bits.toNat
  | .sint bits, .sint v => -2 ^ (bits.toNat - 1) ≤ v.toInt ∧ v.toInt < 2 ^ (bits.toNat - 1)
  | .varUInt, .varUInt v => v.toNat < 2 ^ 32
  | .varSInt, .varSInt v => -2 ^ 31 ≤ v.toInt ∧ v.toInt < 2 ^ 31
  | .fixedPoint fp, .fixedPoint v => fp.minQ ≤ v ∧ v ≤ fp.maxQ
  | _, _ => False

instance (codec : FieldCodec) (value : FieldValue) : Decidable (codec.Contains value) := by
  unfold FieldCodec.Contains
  split <;> infer_instance

/-- A component with one value in range for each field of its definition. -/
structure ComponentSnapshot.WellFormed (definition : ComponentDef) (component : ComponentSnapshot) :
    Prop where
  id : component.id = definition.id
  fields : List.Forall₂ (fun field value => field.codec.Contains value) definition.fields
    component.fields

/-- An entity whose components are a sublist of those of the schema. -/
def EntitySnapshot.WellFormed (schema : Schema) (entity : EntitySnapshot) : Prop :=
  List.SublistForall₂ (fun component definition => component.WellFormed definition)
    entity.components schema.components

theorem entity_id_eq {a b : EntityId} (h : a.raw = b.raw) : a = b := by
  cases a
  cases h
  rfl

/-- Entities that ascend strictly by id. -/
abbrev Ascending (entities : List EntitySnapshot) : Prop :=
  entities.Pairwise fun a b => a.id.raw < b.id.raw

/-- A snapshot of a schema. -/
structure Snapshot.WellFormed (schema : Schema) (entities : List EntitySnapshot) : Prop where
  ascending : Ascending entities
  entities : ∀ entity ∈ entities, entity.WellFormed schema

instance (definition : ComponentDef) (component : ComponentSnapshot) :
    Decidable (component.WellFormed definition) :=
  decidable_of_iff (component.id = definition.id
    ∧ List.Forall₂ (fun (field : FieldDef) value => field.codec.Contains value) definition.fields
      component.fields) ⟨fun h => ⟨h.1, h.2⟩, fun h => ⟨h.id, h.fields⟩⟩

/-- Whether a list matches a sublist is found by trying to match their heads. -/
instance decidableSublistForall₂ {α β : Type} {R : α → β → Prop} [∀ a b, Decidable (R a b)] :
    ∀ xs ys, Decidable (List.SublistForall₂ R xs ys)
  | [], _ => isTrue .nil
  | _ :: _, [] => isFalse fun h => nomatch h
  | x :: xs, y :: ys =>
      have := decidableSublistForall₂ (R := R) xs ys
      have := decidableSublistForall₂ (R := R) (x :: xs) ys
      decidable_of_iff ((R x y ∧ List.SublistForall₂ R xs ys) ∨ List.SublistForall₂ R (x :: xs) ys)
        ⟨fun h => h.elim (fun h => .cons h.1 h.2) .cons_right, fun h => by
          cases h with
          | cons hxy hrest => exact .inl ⟨hxy, hrest⟩
          | cons_right hrest => exact .inr hrest⟩

instance (schema : Schema) (entity : EntitySnapshot) : Decidable (entity.WellFormed schema) :=
  decidableSublistForall₂ _ _

instance (schema : Schema) (entities : List EntitySnapshot) :
    Decidable (Snapshot.WellFormed schema entities) :=
  decidable_of_iff (Ascending entities ∧ ∀ entity ∈ entities, entity.WellFormed schema)
    ⟨fun h => ⟨h.1, h.2⟩, fun h => ⟨h.ascending, h.entities⟩⟩

/-- An entity with distinct components of the schema in schema order, whatever their values. -/
def EntitySnapshot.Shaped (schema : Schema) (entity : EntitySnapshot) : Prop :=
  List.SublistForall₂ (fun component definition => component.id = definition.id)
    entity.components schema.components

/-! ## Looking components up -/

section Lookup

variable {schema : Schema} {entity : EntitySnapshot} {definition : ComponentDef}
  {component : ComponentSnapshot}

/-- A component of a valid schema is found by its id. -/
theorem find_definition_of_mem (hschema : schema.Valid) {definition : ComponentDef}
    (h : definition ∈ schema.components) :
    (schema.components.find? fun d => d.id = definition.id) = some definition := by
  refine (find_eq_some_of_unique fun a ha b hb hpa hpb => ?_).mpr ⟨h, by simp⟩
  refine List.inj_on_of_nodup_map hschema.componentIds ha hb ?_
  simp only [decide_eq_true_eq] at hpa hpb
  rw [hpa, hpb]

theorem find_component_eq_some (h : findComponent entity definition.id = some component) :
    component ∈ entity.components ∧ component.id = definition.id := by
  rw [findComponent] at h
  exact ⟨List.mem_of_find?_eq_some h, by simpa using List.find?_some h⟩

/-- A list that matches a sublist of another is no longer than it. -/
theorem length_le_of_sublistForall₂ {α β : Type} {R : α → β → Prop} {xs : List α} {ys : List β}
    (h : List.SublistForall₂ R xs ys) : xs.length ≤ ys.length := by
  obtain ⟨zs, hzs, hsub⟩ := List.sublistForall₂_iff.mp h
  exact hzs.length_eq ▸ hsub.length_le

/-- In a list that matches a sublist, every element has a match. -/
theorem exists_of_sublistForall₂ {α β : Type} {R : α → β → Prop} {xs : List α} {ys : List β}
    (h : List.SublistForall₂ R xs ys) {x : α} (hx : x ∈ xs) : ∃ y ∈ ys, R x y := by
  induction h with
  | nil => cases hx
  | cons hxy _ ih =>
      rcases List.mem_cons.mp hx with rfl | hx
      · exact ⟨_, List.mem_cons_self, hxy⟩
      · obtain ⟨y, hy, hR⟩ := ih hx
        exact ⟨y, List.mem_cons_of_mem _ hy, hR⟩
  | cons_right _ ih =>
      obtain ⟨y, hy, hR⟩ := ih hx
      exact ⟨y, List.mem_cons_of_mem _ hy, hR⟩

/-- What a partial map picks from a list matches a sublist of it. -/
theorem sublistForall₂_filterMap {α β : Type} {R : α → β → Prop} {f : β → Option α} {ys : List β}
    (h : ∀ y ∈ ys, ∀ x, f y = some x → R x y) : List.SublistForall₂ R (ys.filterMap f) ys := by
  induction ys with
  | nil => exact .nil
  | cons y ys ih =>
      have ih := ih fun y hy => h y (List.mem_cons_of_mem _ hy)
      rw [List.filterMap_cons]
      cases hy : f y with
      | none => exact .cons_right ih
      | some x => exact .cons (h y List.mem_cons_self x hy) ih

/-- Looking up each component of a schema finds the components of a list in schema order. -/
theorem filterMap_find_of_sublist {components : List ComponentSnapshot}
    {definitions : List ComponentDef} (hids : (definitions.map ComponentDef.id).Nodup)
    (h : List.SublistForall₂ (fun component definition => component.id = definition.id)
      components definitions) :
    (definitions.filterMap fun d => components.find? fun c => c.id = d.id) = components := by
  induction h with
  | nil => simp
  | @cons component definition components definitions hid hrest ih =>
      rw [List.map_cons, List.nodup_cons] at hids
      have hfirst : (component :: components).find? (fun c => c.id = definition.id)
          = some component := by
        rw [List.find?_cons_of_pos (by simpa using hid)]
      have hothers : ∀ d ∈ definitions,
          ((component :: components).find? fun c => c.id = d.id)
            = components.find? fun c => c.id = d.id := by
        intro d hd
        refine List.find?_cons_of_neg ?_
        have : d.id ≠ definition.id := fun h => hids.1 (h ▸ List.mem_map_of_mem hd)
        simpa [hid] using this.symm
      rw [List.filterMap_cons, hfirst, List.filterMap_congr hothers, ih hids.2]
  | @cons_right definition components definitions hrest ih =>
      rw [List.map_cons, List.nodup_cons] at hids
      have hnone : (components.find? fun c => c.id = definition.id) = none := by
        rw [List.find?_eq_none]
        intro c hc
        obtain ⟨d, hd, hid⟩ := exists_of_sublistForall₂ hrest hc
        have : c.id ≠ definition.id := fun h => hids.1 (h ▸ hid ▸ List.mem_map_of_mem hd)
        simpa using this
      rw [List.filterMap_cons, hnone, ih hids.2]

/-- Looking up each component of the schema finds the components of a shaped entity, in order. -/
theorem EntitySnapshot.Shaped.filterMap_find (hschema : schema.Valid) (h : entity.Shaped schema) :
    (schema.components.filterMap fun d => findComponent entity d.id) = entity.components :=
  filterMap_find_of_sublist hschema.componentIds h

/-- A shaped entity has no component twice. -/
theorem EntitySnapshot.Shaped.pairwise_ne (hschema : schema.Valid) (h : entity.Shaped schema) :
    entity.components.Pairwise fun a b => a.id ≠ b.id := by
  obtain ⟨ds, hds, hsub⟩ := List.sublistForall₂_iff.mp h
  have hids : entity.components.map ComponentSnapshot.id = ds.map ComponentDef.id := by
    refine List.forall₂_eq_eq_eq ▸ ?_
    exact List.forall₂_map_left_iff.mpr (List.forall₂_map_right_iff.mpr hds)
  have hnodup := hschema.componentIds.sublist (hsub.map ComponentDef.id)
  rw [← hids] at hnodup
  exact List.pairwise_map.mp hnodup

theorem EntitySnapshot.WellFormed.shaped (h : entity.WellFormed schema) : entity.Shaped schema := by
  obtain ⟨ds, hds, hsub⟩ := List.sublistForall₂_iff.mp h
  exact List.sublistForall₂_iff.mpr ⟨ds, hds.imp fun _ _ h => h.id, hsub⟩

/-- A well-formed entity is one whose components are those found by looking up each component of
the schema, and where what is found is well-formed. -/
theorem EntitySnapshot.wellFormed_iff (hschema : schema.Valid) :
    entity.WellFormed schema ↔
      (schema.components.filterMap fun d => findComponent entity d.id) = entity.components
        ∧ ∀ d ∈ schema.components, ∀ c, findComponent entity d.id = some c → c.WellFormed d := by
  constructor
  · intro h
    refine ⟨h.shaped.filterMap_find hschema, fun d hd c hfind => ?_⟩
    obtain ⟨hc, hid⟩ := find_component_eq_some hfind
    obtain ⟨d', hd', hwf⟩ := exists_of_sublistForall₂ h hc
    have : d' = d := List.inj_on_of_nodup_map hschema.componentIds hd' hd (hwf.id.symm.trans hid)
    exact this ▸ hwf
  · rintro ⟨hcomponents, hfound⟩
    rw [EntitySnapshot.WellFormed, ← hcomponents]
    exact sublistForall₂_filterMap hfound

end Lookup

/-! ## Entities of the golden schema -/

/-- Two entities of `goldenSchema`. -/
def goldenEntities : List EntitySnapshot :=
  [⟨⟨3⟩, [⟨⟨10, nonzero_ten⟩, [.bool true, .sint (-5), .uint 17, .fixedPoint 250]⟩]⟩, ⟨⟨9⟩, []⟩]

/-- The same entities later. The third field of the first has changed by less than its threshold. -/
def goldenChanged : List EntitySnapshot :=
  [⟨⟨3⟩, [⟨⟨10, nonzero_ten⟩, [.bool false, .sint 7, .uint 19, .fixedPoint (-100)]⟩]⟩, ⟨⟨9⟩, []⟩]

/-- Limits that are enough for `goldenEntities`. -/
def goldenLimits : CodecLimits where
  maxEntitiesCreate := 4
  maxEntitiesUpdate := 4
  maxEntitiesDestroy := 4
  maxComponentsPerEntity := 2
  maxFieldsPerComponent := 4
  maxSectionBytes := 64
  maxTotalEntitiesAfterApply := 8

example : Snapshot.WellFormed goldenSchema goldenEntities := by decide

/-- A value out of the range of its codec is not well-formed. -/
example : ¬ Snapshot.WellFormed goldenSchema
    [⟨⟨3⟩, [⟨⟨10, by decide⟩, [.bool true, .sint (-5), .uint 32, .fixedPoint 250]⟩]⟩] := by decide

end Sdec
