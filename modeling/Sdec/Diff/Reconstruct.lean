import Sdec.Diff.Apply
import Sdec.Diff.Order

/-!
# Reconstructing a snapshot

What a receiver that has the baseline makes of the delta: the entities of the current snapshot, in
which a field that counts as unchanged keeps its value from the baseline. `apply_diff_eq` says that
the three passes that apply the delta compute it.
-/

namespace Sdec

open Rust Codec Sorted

variable {build : Build} {schema : Schema} {limits : CodecLimits}

/-! ## The reconstructed snapshot -/

/-- A value that keeps that of the baseline unless it has changed. -/
def reconstructValue (build : Build) (id : ComponentId) (field : FieldDef)
    (base curr : FieldValue) :
    FieldValue :=
  if hasChanged build id field base curr then curr else base

/-- The values of a component, each of which keeps that of the baseline unless it has changed. -/
def reconstructFields (build : Build) (id : ComponentId) (fields : List FieldDef)
    (base curr : List FieldValue) : List FieldValue :=
  (fields.zip (base.zip curr)).map fun (field, baseVal, currVal) =>
    reconstructValue build id field baseVal currVal

/-- A component of a surviving entity. -/
def reconstructComponent (build : Build) (schema : Schema) (base curr : EntitySnapshot)
    (component : ComponentSnapshot) : ComponentSnapshot :=
  match schema.components.find? fun d => d.id = component.id with
  | none => component
  | some definition =>
      match findComponent base definition.id, findComponent curr definition.id with
      | some baseComponent, some currComponent => ⟨component.id,
          reconstructFields build definition.id definition.fields baseComponent.fields
            currComponent.fields⟩
      | _, _ => component

/-- An entity of the current snapshot, as a receiver with the entities of the baseline makes it. -/
def reconstructEntity (build : Build) (schema : Schema) (baseline : List EntitySnapshot)
    (curr : EntitySnapshot) : EntitySnapshot :=
  match baseline.find? fun base => base.id = curr.id with
  | none => curr
  | some base => ⟨curr.id, curr.components.map (reconstructComponent build schema base curr)⟩

/-- The entities that a receiver with the baseline makes of the delta to the current snapshot. -/
def reconstruct (build : Build) (schema : Schema) (baseline current : List EntitySnapshot) :
    List EntitySnapshot :=
  current.map (reconstructEntity build schema baseline)

/-! ## Fields -/

theorem reconstruct_fields_cons {id : ComponentId} {field : FieldDef} {fields : List FieldDef}
    {baseVal currVal : FieldValue} {base curr : List FieldValue} :
    reconstructFields build id (field :: fields) (baseVal :: base) (currVal :: curr)
      = reconstructValue build id field baseVal currVal
        :: reconstructFields build id fields base curr := rfl

/-- Storing the values of the changed fields behind fields that are done. -/
theorem apply_fields_from {id : ComponentId} {fields : List FieldDef}
    {done base curr : List FieldValue} (hbase : base.length = fields.length)
    (hcurr : curr.length = fields.length) :
    Delta.applyFields id (done ++ base)
        (changedFields done.length (changedMask build id fields base curr) curr)
      = .ok (done ++ reconstructFields build id fields base curr) := by
  induction fields generalizing done base curr with
  | nil =>
      obtain rfl := List.eq_nil_of_length_eq_zero hbase
      obtain rfl := List.eq_nil_of_length_eq_zero hcurr
      rfl
  | cons field fields ih =>
      obtain ⟨baseVal, base, rfl⟩ := List.exists_cons_of_length_eq_add_one hbase
      obtain ⟨currVal, curr, rfl⟩ := List.exists_cons_of_length_eq_add_one hcurr
      have hrest (value : FieldValue) := @ih (done ++ [value]) base curr (Nat.succ.inj hbase)
        (Nat.succ.inj hcurr)
      simp only [List.append_assoc, List.singleton_append, List.length_append,
        List.length_singleton] at hrest
      rw [changed_mask_cons, reconstruct_fields_cons, reconstructValue]
      cases hasChanged build id field baseVal currVal with
      | true =>
          have hlt : done.length < (done ++ baseVal :: base).length := by simp
          have hset :
              (done ++ baseVal :: base).set done.length currVal = done ++ currVal :: base := by
            rw [List.set_append_right _ _ (Nat.le_refl _), Nat.sub_self, List.set_cons_zero]
          rw [changed_fields_true, Delta.applyFields, List.foldlM_cons]
          dsimp only
          rw [if_neg (Nat.not_le.mpr hlt), store_of_lt hlt, hset]
          exact hrest currVal
      | false =>
          rw [changed_fields_false]
          exact hrest baseVal

theorem apply_fields_eq {id : ComponentId} {fields : List FieldDef} {base curr : List FieldValue}
    (hbase : base.length = fields.length) (hcurr : curr.length = fields.length) :
    Delta.applyFields id base (changedFields 0 (changedMask build id fields base curr) curr)
      = .ok (reconstructFields build id fields base curr) :=
  @apply_fields_from build id fields [] base curr hbase hcurr

/-- Where nothing has changed, the baseline is kept. -/
theorem reconstruct_fields_of_unchanged {componentId : ComponentId} {fields : List FieldDef}
    {base curr : List FieldValue} (hbase : base.length = fields.length)
    (hcurr : curr.length = fields.length)
    (h : (changedMask build componentId fields base curr).any id = false) :
    reconstructFields build componentId fields base curr = base := by
  have hvalues : (fields.zip (base.zip curr)).map (fun p => p.2.1) = base := by
    rw [← Function.comp_def Prod.fst Prod.snd, ← List.map_map, List.map_snd_zip (by simp; omega),
      List.map_fst_zip (by omega)]
  rw [reconstructFields]
  refine Eq.trans (List.map_congr_left fun p hp => ?_) hvalues
  rw [changedMask, List.any_map, List.any_eq_false] at h
  obtain ⟨field, baseVal, currVal⟩ := p
  exact if_neg (h _ hp)

/-! ## Components -/

/-- An update of a component replaces its values. -/
theorem apply_component_eq {id : EntityId} {components : List ComponentSnapshot}
    {update : DeltaUpdateComponent} {component : ComponentSnapshot} {fields : List FieldValue}
    (hids : components.Pairwise fun a b => a.id ≠ b.id) (hcomponent : component ∈ components)
    (hid : component.id = update.id)
    (happly : Delta.applyFields update.id component.fields update.fields = .ok fields) :
    Delta.applyComponent ⟨id, components⟩ update
      = .ok ⟨id, components.map fun a => if a.id = update.id then ⟨update.id, fields⟩ else a⟩ := by
  rw [Delta.applyComponent]
  cases hfind : components.findIdx? fun c => c.id = update.id with
  | none =>
      rw [List.findIdx?_eq_none_iff] at hfind
      exact absurd hid (by simpa using hfind component hcomponent)
  | some idx =>
      obtain ⟨hlt, hidx, -⟩ := List.findIdx?_eq_some_iff_getElem.mp hfind
      have hsame : components[idx] = component := by
        have : Std.Symm fun a b : ComponentSnapshot => a.id ≠ b.id := ⟨fun _ _ h => h.symm⟩
        by_contra hne
        exact hids.forall (List.getElem_mem hlt) hcomponent hne
          ((of_decide_eq_true hidx).trans hid.symm)
      have hsome : components[idx]? = some component := by rw [List.getElem?_eq_getElem hlt, hsame]
      simp only [index_of_some hsome, pure_bind, happly, ok_bind, store_of_lt hlt,
        set_eq_map_of_key hids hsome, hid]
      rfl

/-- The updates of an entity are of different components. -/
theorem component_updates_pairwise_ne (hschema : schema.Valid) (base curr : EntitySnapshot) :
    (componentUpdates build schema base curr).Pairwise fun a b => a.id ≠ b.id := by
  refine List.pairwise_filterMap.mpr ?_
  refine (List.pairwise_map.mp hschema.componentIds).imp fun {d d'} hne u hu v hv => ?_
  obtain ⟨_, _, -, -, -, rfl⟩ := component_update_eq_some.mp hu
  obtain ⟨_, _, -, -, -, rfl⟩ := component_update_eq_some.mp hv
  exact hne

theorem reconstruct_component_eq (hschema : schema.Valid) {base curr : EntitySnapshot}
    {d : ComponentDef} (hd : d ∈ schema.components) {b c component : ComponentSnapshot}
    (hb : findComponent base d.id = some b) (hc : findComponent curr d.id = some c)
    (hid : component.id = d.id) :
    reconstructComponent build schema base curr component
      = ⟨d.id, reconstructFields build d.id d.fields b.fields c.fields⟩ := by
  rw [reconstructComponent, hid, find_definition_of_mem hschema hd]
  simp only [hb, hc]

@[simp] theorem reconstruct_component_id (base curr : EntitySnapshot)
    (component : ComponentSnapshot) :
    (reconstructComponent build schema base curr component).id = component.id := by
  rw [reconstructComponent]
  split
  · rfl
  · split <;> rfl

theorem ComponentSnapshot.WellFormed.length_fields {definition : ComponentDef}
    {component : ComponentSnapshot} (h : component.WellFormed definition) :
    component.fields.length = definition.fields.length :=
  h.fields.length_eq.symm

/-- A loop over the updates of an entity is one over the updates of its components. -/
theorem foldlM_apply_component (id : EntityId) (components : List ComponentSnapshot)
    (updates : List DeltaUpdateComponent) :
    updates.foldlM Delta.applyComponent ⟨id, components⟩
      = (updates.foldlM (fun components update =>
          (Delta.applyComponent ⟨id, components⟩ update).map EntitySnapshot.components)
          components).map (EntitySnapshot.mk id) := by
  induction updates generalizing components with
  | nil => rfl
  | cons update updates ih =>
      rw [List.foldlM_cons, List.foldlM_cons]
      cases happly : Delta.applyComponent ⟨id, components⟩ update with
      | error e => rfl
      | ok entity =>
          have hid : entity.id = id := by
            have h := (apply_component_ensures ⟨id, components⟩ update)
            rw [happly] at h
            exact h
          obtain ⟨_, components'⟩ := entity
          cases hid
          exact ih components'

section Entity

variable {base curr : EntitySnapshot} (hschema : schema.Valid) (hbase : base.WellFormed schema)
  (hcurr : curr.WellFormed schema)

include hschema hbase hcurr

/-- Applying the updates of a surviving entity to the entity of the baseline. -/
theorem apply_component_updates_eq :
    (componentUpdates build schema base curr).foldlM Delta.applyComponent base
      = .ok ⟨base.id, base.components.map fun component =>
          if component.id ∈ (componentUpdates build schema base curr).map DeltaUpdateComponent.id
          then reconstructComponent build schema base curr component else component⟩ := by
  have hids := hbase.shaped.pairwise_ne hschema
  have hlist := @foldlM_replace_eq ComponentId ComponentSnapshot DeltaUpdateComponent
    (Fault CodecError) _ (reconstructComponent build schema base curr) ComponentSnapshot.id
    DeltaUpdateComponent.id
    (fun components update =>
      (Delta.applyComponent ⟨base.id, components⟩ update).map EntitySnapshot.components)
    base.components (componentUpdates build schema base curr) (reconstruct_component_id base curr)
    (component_updates_pairwise_ne hschema base curr) fun u hu components hsame hfresh => ?_
  · rw [foldlM_apply_component, hlist]
    rfl
  · obtain ⟨d, hd, hupdate⟩ := List.mem_filterMap.mp hu
    obtain ⟨b, c, hb, hc, -, rfl⟩ := component_update_eq_some.mp hupdate
    obtain ⟨hmem, hid⟩ := find_component_eq_some hb
    have hnodup : (components.map ComponentSnapshot.id).Nodup := by
      rw [hsame]
      exact List.pairwise_map.mpr hids
    obtain ⟨component, hcomponent, hkey⟩ : ∃ component ∈ components, component.id = d.id := by
      have hin : d.id ∈ components.map ComponentSnapshot.id := by
        rw [hsame, ← hid]
        exact List.mem_map_of_mem hmem
      exact List.mem_map.mp hin
    have hlength := ((EntitySnapshot.wellFormed_iff hschema).mp hbase).2 d hd b hb
    have hlength' := ((EntitySnapshot.wellFormed_iff hschema).mp hcurr).2 d hd c hc
    have horiginal : component = b := by
      have : Std.Symm fun a b : ComponentSnapshot => a.id ≠ b.id := ⟨fun _ _ h => h.symm⟩
      by_contra hne
      exact hids.forall (hfresh component hcomponent hkey) hmem hne (hkey.trans hid.symm)
    subst horiginal
    rw [apply_component_eq (List.pairwise_map.mp hnodup) hcomponent hkey
      (apply_fields_eq hlength.length_fields hlength'.length_fields)]
    refine congrArg Except.ok (List.map_congr_left fun a _ => ?_)
    split
    · rename_i ha
      rw [reconstruct_component_eq hschema hd hb hc ha]
    · rfl

/-- What the updates make of a surviving entity is the reconstructed one. -/
theorem updated_components_eq (hpresence : SamePresence schema base curr) :
    (base.components.map fun component =>
        if component.id ∈ (componentUpdates build schema base curr).map DeltaUpdateComponent.id
        then reconstructComponent build schema base curr component else component)
      = curr.components.map (reconstructComponent build schema base curr) := by
  rw [← hbase.shaped.filterMap_find hschema, ← hcurr.shaped.filterMap_find hschema,
    List.map_filterMap, List.map_filterMap]
  refine List.filterMap_congr fun d hd => ?_
  have hsame := hpresence d hd
  cases hb : findComponent base d.id with
  | none =>
      rw [hb, Option.isSome_none] at hsame
      rw [Option.isNone_iff_eq_none.mp (Option.isSome_eq_false_iff.mp hsame.symm)]
      rfl
  | some b =>
      rw [hb, Option.isSome_some] at hsame
      obtain ⟨c, hc⟩ := Option.isSome_iff_exists.mp hsame.symm
      obtain ⟨-, hbid⟩ := find_component_eq_some hb
      obtain ⟨-, hcid⟩ := find_component_eq_some hc
      have hwf := ((EntitySnapshot.wellFormed_iff hschema).mp hbase).2 d hd b hb
      have hwf' := ((EntitySnapshot.wellFormed_iff hschema).mp hcurr).2 d hd c hc
      rw [hc, Option.map_some, Option.map_some, reconstruct_component_eq hschema hd hb hc hbid,
        reconstruct_component_eq hschema hd hb hc hcid]
      refine congrArg some (ite_eq_left_iff.mpr fun hout => ?_)
      -- A component without an update keeps all its values.
      have hunchanged : (changedMask build d.id d.fields b.fields c.fields).any id = false := by
        rw [← Bool.not_eq_true]
        intro hany
        refine hout (List.mem_map.mpr ⟨_, List.mem_filterMap.mpr ⟨d, hd,
          component_update_eq_some.mpr ⟨b, c, hb, hc, hany, rfl⟩⟩, hbid.symm⟩)
      rw [reconstruct_fields_of_unchanged hwf.length_fields hwf'.length_fields hunchanged, ← hbid]

end Entity

/-! ## Whole deltas -/

/-- An entity with an id, of a list of entities with different ids. -/
theorem find_entity_eq {entities : List EntitySnapshot} (h : Ascending entities)
    {e : EntitySnapshot} (he : e ∈ entities) {id : EntityId} (hid : e.id = id) :
    entities.find? (fun e => e.id = id) = some e := by
  refine (find_eq_some_of_unique fun a ha b hb hpa hpb => ?_).mpr ⟨he, decide_eq_true hid⟩
  refine eq_of_key_eq h ha hb (congrArg EntityId.raw ?_)
  exact (of_decide_eq_true hpa).trans (of_decide_eq_true hpb).symm

theorem find_entity_id {entities : List EntitySnapshot} {id : EntityId} {e : EntitySnapshot}
    (h : entities.find? (fun e => e.id = id) = some e) : e.id = id := by
  simpa using List.find?_some h

/-- What a receiver has of an entity before the updates. -/
def survivor (baseline : List EntitySnapshot) (curr : EntitySnapshot) : EntitySnapshot :=
  (baseline.find? fun base => base.id = curr.id).getD curr

theorem survivor_id (baseline : List EntitySnapshot) (curr : EntitySnapshot) :
    (survivor baseline curr).id = curr.id := by
  rw [survivor]
  cases hfind : baseline.find? fun base => base.id = curr.id with
  | none => rfl
  | some base => exact find_entity_id hfind

theorem reconstruct_entity_id (baseline : List EntitySnapshot) (curr : EntitySnapshot) :
    (reconstructEntity build schema baseline curr).id = curr.id := by
  rw [reconstructEntity]
  split <;> rfl

section Snapshots

variable {baseline current : Snapshot} (hbaseline : Ascending baseline.entities)
  (hcurrent : Ascending current.entities)

include hbaseline hcurrent

/-- The destroys and creates of the delta leave the entities of the current snapshot. -/
theorem apply_destroys_creates_eq :
    ∃ remaining, Delta.applyDestroys baseline.entities
        (diff build schema baseline current).destroys = .ok remaining
      ∧ Delta.applyCreates remaining (diff build schema baseline current).creates
        = .ok (current.entities.map (survivor baseline.entities)) := by
  obtain ⟨remaining, hdestroys, hascend, hremaining⟩ := apply_destroys_of_mem hbaseline
    (@diff_destroys_ascend build schema _ _ hbaseline hcurrent)
    fun d hd => ((mem_diff_destroys hbaseline hcurrent).mp hd).1
  obtain ⟨merged, hcreates, hmerged, hmem⟩ := apply_creates_of_not_mem hascend
    (@diff_creates_ascend build schema _ _ hbaseline hcurrent)
    fun c hc b hb => ((mem_diff_creates hbaseline hcurrent).mp hc).2 b ((hremaining b).mp hb).1
  refine ⟨remaining, hdestroys, ?_⟩
  rw [hcreates]
  refine congrArg Except.ok (eq_of_mem_iff hmerged (ascending_of_ids_eq hcurrent ?_) fun e => ?_)
  · rw [List.map_map]
    exact List.map_congr_left fun c _ => survivor_id _ c
  rw [hmem, hremaining, mem_diff_creates hbaseline hcurrent, List.mem_map]
  constructor
  · rintro (⟨he, hkept⟩ | ⟨he, hnew⟩)
    · -- An entity that is not destroyed is in the current snapshot.
      obtain ⟨c, hc, hid⟩ : ∃ c ∈ current.entities, c.id = e.id := by
        by_contra hno
        exact hkept ((mem_diff_destroys hbaseline hcurrent).mpr
          ⟨⟨e, he, rfl⟩, fun c hc hid => hno ⟨c, hc, hid⟩⟩)
      exact ⟨c, hc, by rw [survivor, find_entity_eq hbaseline he hid.symm, Option.getD_some]⟩
    · have hnone : (baseline.entities.find? fun base => base.id = e.id) = none :=
        List.find?_eq_none.mpr fun b hb => by simpa using hnew b hb
      exact ⟨e, he, by rw [survivor, hnone, Option.getD_none]⟩
  · rintro ⟨c, hc, rfl⟩
    rw [survivor]
    cases hfind : baseline.entities.find? fun base => base.id = c.id with
    | none =>
        refine .inr ⟨hc, fun b hb hid => ?_⟩
        exact List.find?_eq_none.mp hfind b hb (decide_eq_true hid)
    | some b =>
        have hid : b.id = c.id := find_entity_id hfind
        refine .inl ⟨List.mem_of_find?_eq_some hfind, fun hd => ?_⟩
        exact ((mem_diff_destroys hbaseline hcurrent).mp hd).2 c hc hid.symm

end Snapshots

section Updated

variable {baseline current : Snapshot} (hb : Ascending baseline.entities)
  (hc : Ascending current.entities) {c : EntitySnapshot}

include hb hc

/-- An entity that is not in the baseline is not updated. -/
theorem not_updated_of_new
    (hfind : (baseline.entities.find? fun base => base.id = c.id) = none) :
    c.id ∉ (diff build schema baseline current).updates.map DeltaUpdateEntity.id := by
  intro hin
  obtain ⟨u, hu, huid⟩ := List.mem_map.mp hin
  obtain ⟨b, hbmem, c', -, hid, hupdate⟩ := (mem_diff_updates hb hc).mp hu
  obtain ⟨-, rfl⟩ := entity_update_eq_some.mp hupdate
  exact List.find?_eq_none.mp hfind b hbmem (decide_eq_true (hid.trans huid))

/-- An entity of both snapshots that is not updated has no component to update. -/
theorem component_updates_of_not_updated {b : EntitySnapshot} (hbmem : b ∈ baseline.entities)
    (hcmem : c ∈ current.entities) (hid : b.id = c.id)
    (hout : c.id ∉ (diff build schema baseline current).updates.map DeltaUpdateEntity.id) :
    componentUpdates build schema b c = [] := by
  by_contra hne
  exact hout (List.mem_map.mpr ⟨_, (mem_diff_updates hb hc).mpr ⟨b, hbmem, c, hcmem, hid,
    entity_update_eq_some.mpr ⟨hne, rfl⟩⟩, rfl⟩)

end Updated

/-- The updates of the delta make the surviving entities what they are in the reconstructed
snapshot. -/
theorem apply_diff_updates_eq (hschema : schema.Valid) {baseline current : Snapshot}
    (hbaseline : Snapshot.WellFormed schema baseline.entities)
    (hcurrent : Snapshot.WellFormed schema current.entities)
    (hpresence : ∀ b ∈ baseline.entities, ∀ c ∈ current.entities, b.id = c.id →
      SamePresence schema b c) :
    Delta.applyUpdates (current.entities.map (survivor baseline.entities))
        (diff build schema baseline current).updates
      = .ok (reconstruct build schema baseline.entities current.entities) := by
  have hb := hbaseline.ascending
  have hc := hcurrent.ascending
  -- The entity of the current snapshot with the id of a surviving entity.
  let target (e : EntitySnapshot) : EntitySnapshot :=
    ((current.entities.find? fun c => c.id = e.id).map
      (reconstructEntity build schema baseline.entities)).getD e
  have htarget {c e : EntitySnapshot} (hmem : c ∈ current.entities) (hid : c.id = e.id) :
      target e = reconstructEntity build schema baseline.entities c := by
    show Option.getD (Option.map _ _) e = _
    rw [find_entity_eq hc hmem hid, Option.map_some, Option.getD_some]
  have hsurvivor {b c : EntitySnapshot} (hmem : b ∈ baseline.entities) (hid : b.id = c.id) :
      survivor baseline.entities c = b := by
    rw [survivor, find_entity_eq hb hmem hid, Option.getD_some]
  have hreconstruct {b c : EntitySnapshot} (hmem : b ∈ baseline.entities) (hid : b.id = c.id) :
      reconstructEntity build schema baseline.entities c
        = ⟨c.id, c.components.map (reconstructComponent build schema b c)⟩ := by
    rw [reconstructEntity, find_entity_eq hb hmem hid]
  have hupdated := @apply_updates_eq (current.entities.map (survivor baseline.entities))
    (diff build schema baseline current).updates
    (ascending_of_ids_eq hc (by
      rw [List.map_map]
      exact List.map_congr_left fun c _ => survivor_id _ c))
    ((diff_updates_ascend hb hc).imp fun {u v} hlt heq =>
      absurd (heq ▸ hlt) (UInt32.lt_irrefl v.id.raw)) target ?_ ?_ ?_
  · rw [hupdated, reconstruct, List.map_map]
    refine congrArg Except.ok (List.map_congr_left fun c hcmem => ?_)
    rw [Function.comp_apply]
    cases hfind : baseline.entities.find? fun base => base.id = c.id with
    | none =>
        have hnew : survivor baseline.entities c = c := by rw [survivor, hfind, Option.getD_none]
        rw [hnew, if_neg (not_updated_of_new hb hc hfind), reconstructEntity, hfind]
    | some b =>
        have hid : b.id = c.id := find_entity_id hfind
        have hbmem := List.mem_of_find?_eq_some hfind
        rw [hsurvivor hbmem hid]
        refine ite_eq_iff'.mpr ⟨fun _ => htarget hcmem hid.symm, fun hout => ?_⟩
        have hnone := component_updates_of_not_updated hb hc hbmem hcmem hid (hid ▸ hout)
        have hsame := @updated_components_eq build schema b c hschema (hbaseline.entities b hbmem)
          (hcurrent.entities c hcmem) (hpresence b hbmem c hcmem hid)
        rw [hnone] at hsame
        rw [hreconstruct hbmem hid, ← hsame, ← hid]
        simp
  · intro e
    show (Option.getD (Option.map _ _) e).id = e.id
    cases hfind : current.entities.find? fun c => c.id = e.id with
    | none => rfl
    | some c =>
        rw [Option.map_some, Option.getD_some, reconstruct_entity_id]
        exact find_entity_id hfind
  · intro u hu
    obtain ⟨b, -, c, hcmem, -, hupdate⟩ := (mem_diff_updates hb hc).mp hu
    obtain ⟨-, rfl⟩ := entity_update_eq_some.mp hupdate
    exact ⟨_, List.mem_map_of_mem hcmem, survivor_id _ c⟩
  · intro u hu e he heid
    obtain ⟨b, hbmem, c, hcmem, hid, hupdate⟩ := (mem_diff_updates hb hc).mp hu
    obtain ⟨-, rfl⟩ := entity_update_eq_some.mp hupdate
    obtain ⟨c', hcmem', rfl⟩ := List.mem_map.mp he
    rw [survivor_id] at heid
    obtain rfl := eq_of_key_eq hc hcmem' hcmem (congrArg EntityId.raw heid)
    rw [hsurvivor hbmem hid, htarget hcmem hid.symm, hreconstruct hbmem hid,
      apply_component_updates_eq hschema (hbaseline.entities b hbmem) (hcurrent.entities c' hcmem),
      updated_components_eq hschema (hbaseline.entities b hbmem) (hcurrent.entities c' hcmem)
        (hpresence b hbmem c' hcmem hid), hid]

/-! ## Schemas without thresholds -/

/-- A schema whose numeric fields have no threshold. A threshold on a field of truth values has no
effect. -/
def Schema.Exact (schema : Schema) : Prop :=
  ∀ d ∈ schema.components, ∀ field ∈ d.fields, field.change = .always ∨ field.codec = .bool

/-- A field without a threshold always has its current value. -/
theorem reconstruct_value_of_always {id : ComponentId} {field : FieldDef} {base curr : FieldValue}
    (halways : field.change = .always) (hbase : field.codec.Contains base)
    (hcurr : field.codec.Contains curr) : reconstructValue build id field base curr = curr := by
  rw [reconstructValue, hasChanged, fieldChanged, halways]
  unfold FieldCodec.Contains at hbase hcurr
  split at hbase <;> split at hcurr <;> simp_all [fieldDiffers, pure, Except.pure]

/-- So has a field of truth values. -/
theorem reconstruct_value_of_bool {id : ComponentId} {field : FieldDef} {base curr : FieldValue}
    (hbool : field.codec = .bool) (hbase : field.codec.Contains base)
    (hcurr : field.codec.Contains curr) : reconstructValue build id field base curr = curr := by
  rw [hbool] at hbase hcurr
  rw [reconstructValue, hasChanged, fieldChanged]
  unfold FieldCodec.Contains at hbase hcurr
  split at hbase <;> split at hcurr <;> cases field.change <;>
    simp_all [fieldDiffers, fieldExceedsThreshold, pure, Except.pure]

theorem reconstruct_fields_of_exact {id : ComponentId} {fields : List FieldDef}
    {base curr : List FieldValue}
    (hexact : ∀ field ∈ fields, field.change = .always ∨ field.codec = .bool)
    (hbase : List.Forall₂ (fun (field : FieldDef) value => field.codec.Contains value) fields base)
    (hcurr : List.Forall₂ (fun (field : FieldDef) value => field.codec.Contains value)
      fields curr) :
    reconstructFields build id fields base curr = curr := by
  induction hbase generalizing curr with
  | nil =>
      cases hcurr
      rfl
  | cons hb hbase ih =>
      cases hcurr with
      | cons hc hcurr =>
          have hrest := ih (fun f hf => hexact f (List.mem_cons_of_mem _ hf)) hcurr
          rw [reconstruct_fields_cons, hrest]
          rcases hexact _ List.mem_cons_self with halways | hbool
          · rw [reconstruct_value_of_always halways hb hc]
          · rw [reconstruct_value_of_bool hbool hb hc]

/-- In a schema without thresholds, the reconstructed snapshot is the current one. -/
theorem reconstruct_of_exact (hschema : schema.Valid) (hexact : schema.Exact)
    {baseline current : List EntitySnapshot} (hbaseline : Snapshot.WellFormed schema baseline)
    (hcurrent : Snapshot.WellFormed schema current) :
    reconstruct build schema baseline current = current := by
  rw [reconstruct]
  refine (List.map_congr_left fun curr hcurr => ?_).trans (List.map_id current)
  rw [reconstructEntity]
  cases hfind : baseline.find? fun base => base.id = curr.id with
  | none => rfl
  | some base =>
      have hb := (EntitySnapshot.wellFormed_iff hschema).mp
        (hbaseline.entities base (List.mem_of_find?_eq_some hfind))
      have hc := (EntitySnapshot.wellFormed_iff hschema).mp (hcurrent.entities curr hcurr)
      have hcomponents : curr.components.map (reconstructComponent build schema base curr)
          = curr.components := by
        refine (List.map_congr_left fun component hcomponent => ?_).trans (List.map_id _)
        rw [← hc.1] at hcomponent
        obtain ⟨d, hd, hfound⟩ := List.mem_filterMap.mp hcomponent
        obtain ⟨-, hid⟩ := find_component_eq_some hfound
        cases hbase : findComponent base d.id with
        | none =>
            rw [reconstructComponent, hid, find_definition_of_mem hschema hd]
            simp only [hbase]
            rfl
        | some b =>
            rw [reconstruct_component_eq hschema hd hbase hfound hid,
              reconstruct_fields_of_exact (hexact d hd) (hb.2 d hd b hbase).fields
                (hc.2 d hd component hfound).fields, ← hid]
            rfl
      exact congrArg (EntitySnapshot.mk curr.id) hcomponents

/-- In a schema in which every change counts, too. -/
theorem reconstruct_of_always (hschema : schema.Valid)
    (halways : ∀ d ∈ schema.components, ∀ field ∈ d.fields, field.change = .always)
    {baseline current : List EntitySnapshot} (hbaseline : Snapshot.WellFormed schema baseline)
    (hcurrent : Snapshot.WellFormed schema current) :
    reconstruct build schema baseline current = current :=
  reconstruct_of_exact hschema (fun d hd field hfield => .inl (halways d hd field hfield)) hbaseline
    hcurrent

end Sdec
