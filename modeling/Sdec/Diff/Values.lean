import Sdec.Diff.MapUpdate
import Sdec.Diff.Reconstruct

/-!
# The values that a delta moves

A snapshot as a map from the fields of its entities to their values, and what applying a delta to a
third snapshot does to that map. Read `holds_after` first: a field takes the value that the delta
carries for it, and any other field of a surviving entity keeps what it had.
-/

namespace Sdec

open Rust Codec Sorted

variable {build : Build} {schema : Schema}

/-! ## Fields of snapshots -/

/-- An entity has a value in the field of a component. -/
def Holds (entities : List EntitySnapshot) (e : EntityId) (c : ComponentId) (k : Nat)
    (value : FieldValue) : Prop :=
  ∃ entity ∈ entities, entity.id = e ∧ ∃ component ∈ entity.components,
    component.id = c ∧ component.fields[k]? = some value

variable {entities : List EntitySnapshot} {e : EntityId} {c : ComponentId} {k : Nat}
  {value value' : FieldValue}

/-- The ids of the components of an entity tell them apart. -/
theorem EntitySnapshot.Distinct.eq_of_id_eq {entity : EntitySnapshot} (h : entity.Distinct)
    {a b : ComponentSnapshot} (ha : a ∈ entity.components) (hb : b ∈ entity.components)
    (hid : a.id = b.id) : a = b := by
  by_contra hne
  have : Std.Symm fun a b : ComponentSnapshot => a.id ≠ b.id := ⟨fun _ _ h => h.symm⟩
  exact h.forall ha hb hne hid

/-- A field has one value. -/
theorem Holds.unique (hascend : Ascending entities)
    (hdistinct : ∀ entity ∈ entities, entity.Distinct) (h : Holds entities e c k value)
    (h' : Holds entities e c k value') : value = value' := by
  obtain ⟨entity, hentity, hid, component, hcomponent, hc, hvalue⟩ := h
  obtain ⟨entity', hentity', hid', component', hcomponent', hc', hvalue'⟩ := h'
  obtain rfl := eq_of_key_eq hascend hentity hentity' (congrArg EntityId.raw (hid.trans hid'.symm))
  obtain rfl := (hdistinct entity hentity).eq_of_id_eq hcomponent hcomponent' (hc.trans hc'.symm)
  exact Option.some.inj (hvalue.symm.trans hvalue')

/-- What the lookup of a component finds. -/
theorem find_component_of_mem {entity : EntitySnapshot} (h : entity.Distinct)
    {component : ComponentSnapshot} (hmem : component ∈ entity.components) :
    findComponent entity component.id = some component := by
  cases hfind : findComponent entity component.id with
  | none =>
      rw [findComponent, List.find?_eq_none] at hfind
      exact absurd (decide_eq_true rfl) (hfind component hmem)
  | some found =>
      have hid : found.id = component.id := by simpa using List.find?_some hfind
      exact congrArg some (h.eq_of_id_eq (List.mem_of_find?_eq_some hfind) hmem hid)

/-- A well-formed entity tells its components apart. -/
theorem EntitySnapshot.WellFormed.distinct (hschema : schema.Valid) {entity : EntitySnapshot}
    (h : entity.WellFormed schema) : entity.Distinct :=
  h.shaped.pairwise_ne hschema

/-- A component that is there has a value in each field of its definition. -/
theorem holds_of_find {d : ComponentDef} {field : FieldDef} (hschema : schema.Valid)
    (hwell : Snapshot.WellFormed schema entities) (hd : d ∈ schema.components)
    (hfield : d.fields[k]? = some field) {entity : EntitySnapshot} (hentity : entity ∈ entities)
    (hsome : (findComponent entity d.id).isSome) : ∃ v, Holds entities entity.id d.id k v := by
  obtain ⟨component, hfind⟩ := Option.isSome_iff_exists.mp hsome
  obtain ⟨hcomponent, hid⟩ := find_component_eq_some hfind
  have hwf := ((EntitySnapshot.wellFormed_iff hschema).mp (hwell.entities entity hentity)).2 d hd
    component hfind
  have hlt : k < component.fields.length :=
    hwf.length_fields ▸ (List.getElem?_eq_some_iff.mp hfield).1
  exact ⟨_, entity, hentity, rfl, component, hcomponent, hid, List.getElem?_eq_getElem hlt⟩

/-- A field of an entity is there in every entity with the same components. -/
theorem Holds.of_same_presence {others : List EntitySnapshot} {d : ComponentDef} {field : FieldDef}
    (hschema : schema.Valid) (hwell : Snapshot.WellFormed schema entities)
    (hother : Snapshot.WellFormed schema others) (hd : d ∈ schema.components)
    (hfield : d.fields[k]? = some field)
    (hpresence : ∀ b ∈ entities, b.id = e → ∃ c ∈ others, c.id = e
      ∧ (findComponent b d.id).isSome = (findComponent c d.id).isSome)
    (h : Holds entities e d.id k value) : ∃ v, Holds others e d.id k v := by
  obtain ⟨b, hb, hid, component, hcomponent, hcid, -⟩ := h
  obtain ⟨c, hc, rfl, hsame⟩ := hpresence b hb hid
  have hfind := find_component_of_mem ((hwell.entities b hb).distinct hschema) hcomponent
  rw [hcid] at hfind
  rw [hfind] at hsame
  exact holds_of_find hschema hother hd hfield hc hsame.symm

/-! ## Writes -/

theorem mem_changed_fields {idx : Nat} {mask : List Bool} {values : List FieldValue} :
    (k, value) ∈ changedFields idx mask values
      ↔ ∃ j, k = idx + j ∧ mask[j]? = some true ∧ values[j]? = some value := by
  induction mask generalizing idx values with
  | nil => simp [changedFields]
  | cons changed mask ih =>
      cases values with
      | nil => simp [changedFields]
      | cons first values =>
          have hsplit : (∃ j, k = idx + j ∧ (changed :: mask)[j]? = some true
              ∧ (first :: values)[j]? = some value)
              ↔ (k = idx ∧ changed = true ∧ first = value)
                ∨ ∃ j, k = idx + 1 + j ∧ mask[j]? = some true ∧ values[j]? = some value := by
            constructor
            · intro h
              obtain ⟨j, hk, hmask, hvalue⟩ := h
              cases j with
              | zero => exact .inl ⟨hk, Option.some.inj hmask, Option.some.inj hvalue⟩
              | succ j => exact .inr ⟨j, by omega, hmask, hvalue⟩
            · intro h
              rcases h with ⟨rfl, rfl, rfl⟩ | ⟨j, hk, hmask, hvalue⟩
              · exact ⟨0, rfl, rfl, rfl⟩
              · exact ⟨j + 1, by omega, hmask, hvalue⟩
          rw [hsplit]
          cases changed with
          | true =>
              rw [changed_fields_true, List.mem_cons, ih, Prod.mk.injEq]
              exact or_congr_left ⟨fun h => ⟨h.1, rfl, h.2.symm⟩, fun h => ⟨h.1, h.2.2.symm⟩⟩
          | false =>
              rw [changed_fields_false, ih]
              exact (or_iff_right fun h => Bool.false_ne_true h.2.1).symm

theorem changed_mask_eq_true {id : ComponentId} {fields : List FieldDef}
    {base curr : List FieldValue} :
    (changedMask build id fields base curr)[k]? = some true
      ↔ ∃ field b v, fields[k]? = some field ∧ base[k]? = some b ∧ curr[k]? = some v
        ∧ hasChanged build id field b v := by
  rw [changedMask, List.getElem?_map, Option.map_eq_some_iff]
  constructor
  · intro h
    obtain ⟨⟨field, b, v⟩, hzip, hchanged⟩ := h
    obtain ⟨hfield, hvalues⟩ := List.getElem?_zip_eq_some.mp hzip
    obtain ⟨hb, hv⟩ := List.getElem?_zip_eq_some.mp hvalues
    exact ⟨field, b, v, hfield, hb, hv, hchanged⟩
  · intro h
    obtain ⟨field, b, v, hfield, hb, hv, hchanged⟩ := h
    exact ⟨(field, b, v), List.getElem?_zip_eq_some.mpr ⟨hfield,
      List.getElem?_zip_eq_some.mpr ⟨hb, hv⟩⟩, hchanged⟩

/-- The last write to a field is one of the writes. -/
theorem mem_of_last_write {ws : List FieldWrite} (h : lastWrite ws e c k = some value) :
    (⟨e, c, k, value⟩ : FieldWrite) ∈ ws := by
  obtain ⟨⟨e', c', k', value'⟩, hwrite, rfl⟩ := Option.map_eq_some_iff.mp h
  have hmem := List.mem_reverse.mp (List.mem_of_find?_eq_some hwrite)
  have hkey := List.find?_some hwrite
  simp only [decide_eq_true_eq] at hkey
  obtain ⟨rfl, rfl, rfl⟩ := hkey
  exact hmem

/-- A field that is written has a last write. -/
theorem exists_last_write {ws : List FieldWrite} (h : (⟨e, c, k, value⟩ : FieldWrite) ∈ ws) :
    ∃ v, lastWrite ws e c k = some v := by
  cases hlast : lastWrite ws e c k with
  | some v => exact ⟨v, rfl⟩
  | none =>
      rw [lastWrite, Option.map_eq_none_iff, List.find?_eq_none] at hlast
      exact absurd (by simp) (hlast _ (List.mem_reverse.mpr h))

section Delta

variable {baseline current : Snapshot} (hschema : schema.Valid)
  (hbaseline : Snapshot.WellFormed schema baseline.entities)
  (hcurrent : Snapshot.WellFormed schema current.entities)
  {d : ComponentDef} {field : FieldDef} (hd : d ∈ schema.components)
  (hfield : d.fields[k]? = some field)

/-- The writes of the delta between two snapshots. -/
def deltaWrites (build : Build) (schema : Schema) (baseline current : Snapshot) : List FieldWrite :=
  (diff build schema baseline current).updates.flatMap DeltaUpdateEntity.writes

include hschema hbaseline hcurrent hd hfield

/-- A field is written with its value in the current snapshot, if that counts as a change. -/
theorem mem_delta_writes :
    (⟨e, d.id, k, value⟩ : FieldWrite) ∈ deltaWrites build schema baseline current
      ↔ ∃ b, Holds baseline.entities e d.id k b ∧ Holds current.entities e d.id k value
        ∧ hasChanged build d.id field b value := by
  have hdistinct {entities : List EntitySnapshot} (h : Snapshot.WellFormed schema entities)
      {entity : EntitySnapshot} (hentity : entity ∈ entities) : entity.Distinct :=
    (h.entities entity hentity).distinct hschema
  unfold deltaWrites
  rw [List.mem_flatMap]
  constructor
  · intro h
    obtain ⟨update, hupdate, hwrite⟩ := h
    obtain ⟨component, hcomponent, hwrite⟩ := List.mem_flatMap.mp hwrite
    obtain ⟨p, hp, hkey⟩ := List.mem_map.mp hwrite
    obtain ⟨b, hb, c, hc, hid, hsome⟩ :=
      (mem_diff_updates hbaseline.ascending hcurrent.ascending).mp hupdate
    obtain ⟨-, rfl⟩ := entity_update_eq_some.mp hsome
    obtain ⟨d', hd', hscan⟩ := List.mem_filterMap.mp hcomponent
    obtain ⟨base, curr, hbase, hcurr, -, rfl⟩ := component_update_eq_some.mp hscan
    obtain ⟨k', value'⟩ := p
    simp only [FieldWrite.mk.injEq] at hkey
    obtain ⟨rfl, hdid, rfl, rfl⟩ := hkey
    obtain rfl : d' = d := List.inj_on_of_nodup_map hschema.componentIds hd' hd hdid
    obtain ⟨j, hj, hmask, hvalue⟩ := mem_changed_fields.mp hp
    rw [Nat.zero_add] at hj
    subst hj
    obtain ⟨field', bv, v, hfield', hbv, hv, hchanged⟩ := changed_mask_eq_true.mp hmask
    obtain rfl := Option.some.inj (hfield.symm.trans hfield')
    obtain rfl := Option.some.inj (hvalue.symm.trans hv)
    obtain ⟨hbmem, hbid⟩ := find_component_eq_some hbase
    obtain ⟨hcmem, hcid⟩ := find_component_eq_some hcurr
    exact ⟨bv, ⟨b, hb, hid, base, hbmem, hbid, hbv⟩,
      ⟨c, hc, rfl, curr, hcmem, hcid, hvalue⟩, hchanged⟩
  · intro h
    obtain ⟨bv, ⟨b, hb, hbid, base, hbase, hbdid, hbv⟩, ⟨c, hc, hcid, curr, hcurr, hcdid, hv⟩,
      hchanged⟩ := h
    have hfindb := find_component_of_mem (hdistinct hbaseline hb) hbase
    have hfindc := find_component_of_mem (hdistinct hcurrent hc) hcurr
    rw [hbdid] at hfindb
    rw [hcdid] at hfindc
    have hmask : (changedMask build d.id d.fields base.fields curr.fields)[k]? = some true :=
      changed_mask_eq_true.mpr ⟨field, bv, value, hfield, hbv, hv, hchanged⟩
    have hany : (changedMask build d.id d.fields base.fields curr.fields).any id :=
      List.any_eq_true.mpr ⟨true, List.mem_of_getElem? hmask, rfl⟩
    have hupdate := component_update_eq_some.mpr ⟨base, curr, hfindb, hfindc, hany, rfl⟩
    have hmem : _ ∈ componentUpdates build schema b c := List.mem_filterMap.mpr ⟨d, hd, hupdate⟩
    have hentity : entityUpdate build schema b c
        = some ⟨c.id, componentUpdates build schema b c⟩ :=
      entity_update_eq_some.mpr ⟨List.ne_nil_of_mem hmem, rfl⟩
    refine ⟨_, (mem_diff_updates hbaseline.ascending hcurrent.ascending).mpr
      ⟨b, hb, c, hc, hbid.trans hcid.symm, hentity⟩, List.mem_flatMap.mpr ⟨_, hmem, ?_⟩⟩
    refine List.mem_map.mpr ⟨(k, value), mem_changed_fields.mpr
      ⟨k, (Nat.zero_add k).symm, hmask, hv⟩, ?_⟩
    rw [hcid]

/-- The last write to a field that counts as changed. -/
theorem last_write_eq_some :
    lastWrite (deltaWrites build schema baseline current) e d.id k = some value
      ↔ ∃ b, Holds baseline.entities e d.id k b ∧ Holds current.entities e d.id k value
        ∧ hasChanged build d.id field b value := by
  have hmem {v : FieldValue} :=
    @mem_delta_writes build schema e k v baseline current hschema hbaseline
      hcurrent d field hd hfield
  refine ⟨fun h => hmem.mp (mem_of_last_write h), fun h => ?_⟩
  obtain ⟨v, hlast⟩ := exists_last_write (hmem.mpr h)
  obtain ⟨-, -, hv, -⟩ := hmem.mp (mem_of_last_write hlast)
  obtain ⟨-, -, hvalue, -⟩ := h
  rw [hlast, hv.unique hcurrent.ascending
    (fun entity hentity => (hcurrent.entities entity hentity).distinct hschema) hvalue]

/-- A field without a change is not written. -/
theorem last_write_of_no_change
    (hno : ∀ b v, Holds baseline.entities e d.id k b → Holds current.entities e d.id k v →
      ¬ hasChanged build d.id field b v) :
    lastWrite (deltaWrites build schema baseline current) e d.id k = none := by
  cases hlast : lastWrite (deltaWrites build schema baseline current) e d.id k with
  | none => rfl
  | some v =>
      obtain ⟨b, hb, hv, hchanged⟩ :=
        (last_write_eq_some hschema hbaseline hcurrent hd hfield).mp hlast
      exact absurd hchanged (hno b v hb hv)

end Delta

/-! ## Applying -/

/-- After updates a field has its last write, or what it had. -/
theorem holds_after {ws : List FieldWrite} :
    Holds (entities.map (EntitySnapshot.after ws)) e c k value
      ↔ ∃ old, Holds entities e c k old ∧ value = (lastWrite ws e c k).getD old := by
  constructor
  · intro h
    obtain ⟨entity', hentity', hid, component', hcomponent', hc, hvalue⟩ := h
    obtain ⟨entity, hentity, rfl⟩ := List.mem_map.mp hentity'
    obtain ⟨component, hcomponent, rfl⟩ := List.mem_map.mp hcomponent'
    obtain rfl : entity.id = e := hid
    obtain rfl : component.id = c := hc
    have hget : (component.fields.mapIdx fun i value =>
        (lastWrite ws entity.id component.id i).getD value)[k]? = some value := hvalue
    rw [List.getElem?_mapIdx, Option.map_eq_some_iff] at hget
    obtain ⟨old, hold, rfl⟩ := hget
    exact ⟨old, ⟨entity, hentity, rfl, component, hcomponent, rfl, hold⟩, rfl⟩
  · intro h
    obtain ⟨old, ⟨entity, hentity, rfl, component, hcomponent, rfl, hold⟩, rfl⟩ := h
    refine ⟨_, List.mem_map_of_mem hentity, rfl, _, List.mem_map_of_mem hcomponent, rfl, ?_⟩
    show (component.fields.mapIdx _)[k]? = _
    rw [List.getElem?_mapIdx, hold]
    rfl

end Sdec
