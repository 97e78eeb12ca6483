import Sdec.Diff.Apply

/-!
# Applying a delta as a map update

The updates of a delta are a sequence of writes to fields, and the last write to a field wins. Each
pass of `apply_delta_snapshot_from_packet` succeeds exactly when what it names is there, and what it
returns is said in terms of the entities of the baseline, the creates and the writes.
-/

namespace Sdec

open Rust Codec Sorted Wire

/-! ## Writes -/

/-- A write of a value to one field of one component of one entity. -/
structure FieldWrite where
  entity : EntityId
  component : ComponentId
  field : Nat
  value : FieldValue

/-- The writes of the update of a component. -/
def DeltaUpdateComponent.writes (entity : EntityId) (update : DeltaUpdateComponent) :
    List FieldWrite :=
  update.fields.map fun field => ⟨entity, update.id, field.1, field.2⟩

/-- The writes of the update of an entity. -/
def DeltaUpdateEntity.writes (update : DeltaUpdateEntity) : List FieldWrite :=
  update.components.flatMap (DeltaUpdateComponent.writes update.id)

/-- The last value that the writes give to a field. -/
def lastWrite (writes : List FieldWrite) (entity : EntityId) (component : ComponentId)
    (field : Nat) : Option FieldValue :=
  (writes.reverse.find? fun write => write.entity = entity ∧ write.component = component
    ∧ write.field = field).map FieldWrite.value

/-- Every field of the component has the last value that the writes give it, or its own. -/
def ComponentSnapshot.after (writes : List FieldWrite) (entity : EntityId)
    (component : ComponentSnapshot) : ComponentSnapshot :=
  ⟨component.id, component.fields.mapIdx fun i value =>
    (lastWrite writes entity component.id i).getD value⟩

/-- Every field of the entity has the last value that the writes give it, or its own. -/
def EntitySnapshot.after (writes : List FieldWrite) (entity : EntitySnapshot) : EntitySnapshot :=
  ⟨entity.id, entity.components.map (ComponentSnapshot.after writes entity.id)⟩

variable {ws ws' : List FieldWrite} {e : EntityId} {c : ComponentId} {i : Nat}

theorem last_write_append :
    lastWrite (ws ++ ws') e c i = (lastWrite ws' e c i).or (lastWrite ws e c i) := by
  unfold lastWrite
  rw [List.reverse_append, List.find?_append]
  cases ws'.reverse.find? fun write => write.entity = e ∧ write.component = c
    ∧ write.field = i <;> rfl

/-- The value that a field gets is the value of one of the writes to it. -/
theorem exists_of_last_write {value : FieldValue} (h : lastWrite ws e c i = some value) :
    ∃ write ∈ ws, write.component = c ∧ write.field = i ∧ write.value = value := by
  obtain ⟨write, hwrite, hvalue⟩ := Option.map_eq_some_iff.mp h
  have hsome := @List.find?_some _ (fun write : FieldWrite =>
    decide (write.entity = e ∧ write.component = c ∧ write.field = i)) _ _ hwrite
  obtain ⟨_, hcomponent, hfield⟩ := of_decide_eq_true hsome
  exact ⟨write, List.mem_reverse.mp (List.mem_of_find?_eq_some hwrite), hcomponent, hfield, hvalue⟩

theorem last_write_eq_none (h : ∀ write ∈ ws, ¬ (write.entity = e ∧ write.component = c)) :
    lastWrite ws e c i = none := by
  unfold lastWrite
  rw [Option.map_eq_none_iff, List.find?_eq_none]
  intro write hwrite heq
  have hsame := of_decide_eq_true heq
  exact h write (List.mem_reverse.mp hwrite) ⟨hsame.1, hsame.2.1⟩

theorem ComponentSnapshot.after_append (component : ComponentSnapshot) :
    component.after (ws ++ ws') e = (component.after ws e).after ws' e := by
  unfold after
  rw [ComponentSnapshot.mk.injEq, List.mapIdx_mapIdx]
  refine ⟨rfl,
    congrArg (fun f => component.fields.mapIdx f) (funext fun j => funext fun value => ?_)⟩
  rw [last_write_append]
  cases lastWrite ws' e component.id j <;> rfl

theorem ComponentSnapshot.after_of_no_write {component : ComponentSnapshot}
    (h : ∀ write ∈ ws, ¬ (write.entity = e ∧ write.component = component.id)) :
    component.after ws e = component := by
  unfold after
  obtain ⟨id, fields⟩ := component
  rw [ComponentSnapshot.mk.injEq]
  refine ⟨rfl, List.ext_getElem? fun j => ?_⟩
  rw [List.getElem?_mapIdx, last_write_eq_none h]
  cases fields[j]? <;> rfl

theorem EntitySnapshot.after_append (entity : EntitySnapshot) :
    entity.after (ws ++ ws') = (entity.after ws).after ws' := by
  unfold after
  rw [EntitySnapshot.mk.injEq, List.map_map]
  exact ⟨rfl, List.map_congr_left fun component _ => component.after_append⟩

theorem EntitySnapshot.after_of_no_write {entity : EntitySnapshot}
    (h : ∀ write ∈ ws, write.entity ≠ entity.id) : entity.after ws = entity := by
  unfold after
  obtain ⟨id, components⟩ := entity
  rw [EntitySnapshot.mk.injEq]
  refine ⟨rfl, (List.map_congr_left fun component _ => ?_).trans (List.map_id _)⟩
  exact ComponentSnapshot.after_of_no_write fun write hwrite hsame => h write hwrite hsame.1

theorem EntitySnapshot.after_nil (entity : EntitySnapshot) : entity.after [] = entity :=
  EntitySnapshot.after_of_no_write fun _ h => nomatch h

/-! ## Fields and components -/

/-- Writing the fields of a component one after another. -/
theorem apply_fields_eq_ok {id : ComponentId} {fields result : List FieldValue}
    {updates : List (Nat × FieldValue)} :
    Delta.applyFields id fields updates = .ok result ↔
      (∀ update ∈ updates, update.1 < fields.length)
        ∧ result = fields.mapIdx fun i value =>
          (lastWrite (updates.map fun field => ⟨e, id, field.1, field.2⟩) e id i).getD value := by
  induction updates generalizing fields with
  | nil =>
      have hsame : (fields.mapIdx fun i value => (lastWrite [] e id i).getD value) = fields :=
        List.ext_getElem? fun j => by
          rw [List.getElem?_mapIdx]
          cases fields[j]? <;> rfl
      rw [List.map_nil, hsame]
      exact ⟨fun h => ⟨fun _ h => (nomatch h), (Except.ok.inj h).symm⟩,
        fun h => congrArg Except.ok h.2.symm⟩
  | cons update updates ih =>
      obtain ⟨idx, value⟩ := update
      unfold Delta.applyFields at ih ⊢
      rw [List.foldlM_cons, bind_eq_ok, List.forall_mem_cons]
      -- After the first write the others see the same number of fields.
      have hrest : (fields.set idx value).mapIdx (fun i value' =>
            (lastWrite (updates.map fun field => ⟨e, id, field.1, field.2⟩) e id i).getD value')
          = fields.mapIdx fun i value' =>
            (lastWrite (((idx, value) :: updates).map fun field => ⟨e, id, field.1, field.2⟩)
              e id i).getD value' := by
        refine List.ext_getElem? fun j => ?_
        rw [List.getElem?_mapIdx, List.getElem?_mapIdx, List.getElem?_set, List.map_cons,
          ← List.singleton_append, last_write_append]
        by_cases hij : idx = j
        · subst hij
          have hlast : lastWrite [⟨e, id, idx, value⟩] e id idx = some value := by
            simp [lastWrite]
          rw [hlast, if_pos rfl]
          by_cases hlt : idx < fields.length
          · rw [if_pos hlt, List.getElem?_eq_getElem hlt]
            cases lastWrite (updates.map fun field => ⟨e, id, field.1, field.2⟩) e id idx <;> rfl
          · rw [if_neg hlt, List.getElem?_eq_none (Nat.le_of_not_lt hlt)]
            rfl
        · have hlast : lastWrite [⟨e, id, idx, value⟩] e id j = none := by
            simp [lastWrite, hij]
          rw [hlast, if_neg hij, Option.or_none]
      constructor
      · intro ⟨next, hnext, h⟩
        obtain ⟨hlt, hstore⟩ := check_fail_eq_ok.mp hnext
        rw [store_of_lt (Nat.lt_of_not_le hlt)] at hstore
        cases hstore
        obtain ⟨hall, hresult⟩ := ih.mp h
        rw [List.length_set] at hall
        exact ⟨⟨Nat.lt_of_not_le hlt, hall⟩, hresult.trans hrest⟩
      · intro ⟨⟨hlt, hall⟩, hresult⟩
        refine ⟨fields.set idx value, ?_, ih.mpr ⟨?_, hresult.trans hrest.symm⟩⟩
        · rw [check_fail_eq_ok, store_of_lt hlt]
          exact ⟨Nat.not_le.mpr hlt, rfl⟩
        · rw [List.length_set]
          exact hall

/-- The entity has the component of an update, with a field for each index of the update. -/
def EntitySnapshot.Admits (entity : EntitySnapshot) (update : DeltaUpdateComponent) : Prop :=
  ∃ component ∈ entity.components, component.id = update.id
    ∧ ∀ field ∈ update.fields, field.1 < component.fields.length

/-- The components of an entity have different ids. -/
def EntitySnapshot.Distinct (entity : EntitySnapshot) : Prop :=
  entity.components.Pairwise fun a b => a.id ≠ b.id

theorem EntitySnapshot.Distinct.after {entity : EntitySnapshot} (h : entity.Distinct) :
    (entity.after ws).Distinct :=
  List.pairwise_map.mpr h

theorem EntitySnapshot.admits_after {entity : EntitySnapshot} {update : DeltaUpdateComponent} :
    (entity.after ws).Admits update ↔ entity.Admits update := by
  unfold Admits EntitySnapshot.after
  constructor
  · intro ⟨component, hmem, hid, hfields⟩
    obtain ⟨original, horiginal, rfl⟩ := List.mem_map.mp hmem
    refine ⟨original, horiginal, hid, fun field hfield => ?_⟩
    have := hfields field hfield
    rwa [ComponentSnapshot.after, List.length_mapIdx] at this
  · intro ⟨component, hmem, hid, hfields⟩
    refine ⟨_, List.mem_map_of_mem hmem, hid, fun field hfield => ?_⟩
    rw [ComponentSnapshot.after, List.length_mapIdx]
    exact hfields field hfield

/-- The update of one component. -/
theorem apply_component_eq_ok {entity entity' : EntitySnapshot} {update : DeltaUpdateComponent}
    (hdistinct : entity.Distinct) :
    Delta.applyComponent entity update = .ok entity' ↔
      entity.Admits update ∧ entity' = entity.after (update.writes entity.id) := by
  have hunique {a b : ComponentSnapshot} (ha : a ∈ entity.components) (hb : b ∈ entity.components)
      (hid : a.id = b.id) : a = b := by
    have : Std.Symm fun a b : ComponentSnapshot => a.id ≠ b.id := ⟨fun _ _ h => h.symm⟩
    by_contra hne
    exact hdistinct.forall ha hb hne hid
  unfold Delta.applyComponent
  cases hfind : entity.components.findIdx? fun component => component.id = update.id with
  | none =>
      rw [List.findIdx?_eq_none_iff] at hfind
      refine ⟨fun h => (nomatch h), ?_⟩
      intro ⟨⟨component, hmem, hid, _⟩, _⟩
      exact absurd hid (of_decide_eq_false (hfind component hmem))
  | some idx =>
      obtain ⟨hlt, hidx, -⟩ := List.findIdx?_eq_some_iff_getElem.mp hfind
      have hid : entity.components[idx].id = update.id := of_decide_eq_true hidx
      have hsome := List.getElem?_eq_getElem hlt
      simp only [index_of_some hsome, pure_bind]
      rw [bind_eq_ok]
      -- Only the component with the id of the update has a write.
      have hafter (fields : List FieldValue)
          (hfields : fields = entity.components[idx].fields.mapIdx fun i value =>
            (lastWrite (update.fields.map fun field => ⟨entity.id, update.id, field.1, field.2⟩)
              entity.id update.id i).getD value) :
          entity.components.set idx ⟨entity.components[idx].id, fields⟩
            = entity.components.map
              (ComponentSnapshot.after (update.writes entity.id) entity.id) := by
        rw [set_eq_map_of_key hdistinct hsome]
        refine List.map_congr_left fun component hmem => ?_
        by_cases hsame : component.id = entity.components[idx].id
        · rw [if_pos hsame, hunique hmem (List.getElem_mem hlt) hsame, ComponentSnapshot.after,
            hfields, hid]
          rfl
        · rw [if_neg hsame, ComponentSnapshot.after_of_no_write]
          intro write hwrite hboth
          obtain ⟨field, _, rfl⟩ := List.mem_map.mp hwrite
          exact hsame (hboth.2.symm.trans hid.symm)
      constructor
      · intro ⟨fields, hfields, h⟩
        obtain ⟨hbounds, hvalue⟩ := (@apply_fields_eq_ok entity.id _ _ _ _).mp hfields
        rw [store_of_lt hlt, pure_bind] at h
        cases h
        refine ⟨⟨_, List.getElem_mem hlt, hid, hbounds⟩, ?_⟩
        rw [EntitySnapshot.after, ← hafter fields hvalue]
      · intro ⟨⟨component, hmem, hcomponent, hbounds⟩, hentity⟩
        rw [hunique hmem (List.getElem_mem hlt) (hcomponent.trans hid.symm)] at hbounds
        refine ⟨_, (@apply_fields_eq_ok entity.id _ _ _ _).mpr ⟨hbounds, rfl⟩, ?_⟩
        rw [store_of_lt hlt, pure_bind, hafter _ rfl, hentity]
        rfl

/-- The updates of the components of an entity, one after another. -/
theorem apply_components_eq_ok {entity entity' : EntitySnapshot}
    {updates : List DeltaUpdateComponent} (hdistinct : entity.Distinct) :
    updates.foldlM Delta.applyComponent entity = .ok entity' ↔
      (∀ update ∈ updates, entity.Admits update)
        ∧ entity' = entity.after (updates.flatMap (DeltaUpdateComponent.writes entity.id)) := by
  induction updates generalizing entity with
  | nil =>
      rw [List.flatMap_nil, EntitySnapshot.after_nil]
      exact ⟨fun h => ⟨fun _ h => (nomatch h), (Except.ok.inj h).symm⟩,
        fun h => congrArg Except.ok h.2.symm⟩
  | cons update updates ih =>
      rw [List.foldlM_cons, bind_eq_ok, List.forall_mem_cons, List.flatMap_cons,
        EntitySnapshot.after_append]
      have ih := @ih (entity.after (update.writes entity.id)) hdistinct.after
      simp only [EntitySnapshot.admits_after] at ih
      constructor
      · intro ⟨next, hnext, h⟩
        obtain ⟨hadmits, rfl⟩ := (apply_component_eq_ok hdistinct).mp hnext
        obtain ⟨hall, rfl⟩ := ih.mp h
        exact ⟨⟨hadmits, hall⟩, rfl⟩
      · intro ⟨⟨hadmits, hall⟩, hentity⟩
        exact ⟨_, (apply_component_eq_ok hdistinct).mpr ⟨hadmits, rfl⟩, ih.mpr ⟨hall, hentity⟩⟩

/-! ## Entities -/

variable {entities result : List EntitySnapshot} {updates : List DeltaUpdateEntity}

/-- The entities have the one that an update names, and that one admits the update. -/
def Updatable (entities : List EntitySnapshot) (update : DeltaUpdateEntity) : Prop :=
  ∃ entity ∈ entities, entity.id = update.id ∧ ∀ component ∈ update.components,
    entity.Admits component

theorem updatable_after {update : DeltaUpdateEntity} :
    Updatable (entities.map (EntitySnapshot.after ws)) update ↔ Updatable entities update := by
  unfold Updatable
  constructor
  · intro ⟨entity, hmem, hid, hall⟩
    obtain ⟨original, horiginal, rfl⟩ := List.mem_map.mp hmem
    exact ⟨original, horiginal, hid, fun component hcomponent =>
      EntitySnapshot.admits_after.mp (hall component hcomponent)⟩
  · intro ⟨entity, hmem, hid, hall⟩
    exact ⟨_, List.mem_map_of_mem hmem, hid, fun component hcomponent =>
      EntitySnapshot.admits_after.mpr (hall component hcomponent)⟩

theorem ascending_after (h : Ascending entities) :
    Ascending (entities.map (EntitySnapshot.after ws)) :=
  List.pairwise_map.mpr h

/-- The update of one entity. -/
theorem apply_update_eq_ok {update : DeltaUpdateEntity} (hentities : Ascending entities)
    (hdistinct : ∀ entity ∈ entities, entity.Distinct) :
    Delta.applyUpdate entities update = .ok result ↔
      Updatable entities update ∧ result = entities.map (EntitySnapshot.after update.writes) := by
  unfold Delta.applyUpdate
  cases hfind : binarySearchBy entityKey entities update.id.raw with
  | none =>
      refine ⟨fun h => (nomatch h), ?_⟩
      intro ⟨⟨entity, hmem, hid, _⟩, _⟩
      obtain ⟨i, hi⟩ := List.getElem?_of_mem hmem
      have hfound : binarySearchBy entityKey entities update.id.raw = some i :=
        (binary_search_by_eq_some hentities).mpr ⟨entity, hi, congrArg EntityId.raw hid⟩
      rw [hfound] at hfind
      cases hfind
  | some idx =>
      obtain ⟨entity, hsome, hkey⟩ := (binary_search_by_eq_some hentities).mp hfind
      have hid : entity.id = update.id := entity_id_eq hkey
      have hmem := List.mem_of_getElem? hsome
      have hlt := (List.getElem?_eq_some_iff.mp hsome).1
      have hafter : entities.set idx (entity.after update.writes)
          = entities.map (EntitySnapshot.after update.writes) := by
        rw [set_eq_map_of_key (hentities.imp Std.ne_of_lt) hsome]
        refine List.map_congr_left fun other hother => ?_
        by_cases hsame : other.id.raw = entity.id.raw
        · rw [if_pos hsame, eq_of_key_eq hentities hother hmem hsame]
        · rw [if_neg hsame, EntitySnapshot.after_of_no_write]
          intro write hwrite heq
          obtain ⟨component, _, hwrite⟩ := List.mem_flatMap.mp hwrite
          obtain ⟨field, _, rfl⟩ := List.mem_map.mp hwrite
          exact hsame (congrArg EntityId.raw (heq.symm.trans hid.symm))
      simp only [index_of_some hsome, pure_bind]
      rw [bind_eq_ok]
      constructor
      · intro ⟨next, hnext, h⟩
        obtain ⟨hall, rfl⟩ := (apply_components_eq_ok (hdistinct entity hmem)).mp hnext
        rw [store_of_lt hlt, hid] at h
        cases h
        exact ⟨⟨entity, hmem, hid, hall⟩, hafter⟩
      · intro ⟨⟨other, hother, hotherId, hall⟩, hresult⟩
        rw [eq_of_key_eq hentities hother hmem (congrArg EntityId.raw (hotherId.trans hid.symm))]
          at hall
        refine ⟨_, (apply_components_eq_ok (hdistinct entity hmem)).mpr ⟨hall, rfl⟩, ?_⟩
        rw [store_of_lt hlt, hid, hresult, ← hafter]
        rfl

/-- The updates, one after another. -/
theorem apply_updates_eq_ok (hentities : Ascending entities)
    (hdistinct : ∀ entity ∈ entities, entity.Distinct) :
    Delta.applyUpdates entities updates = .ok result ↔
      (∀ update ∈ updates, Updatable entities update)
        ∧ result
          = entities.map (EntitySnapshot.after (updates.flatMap DeltaUpdateEntity.writes)) := by
  unfold Delta.applyUpdates
  induction updates generalizing entities with
  | nil =>
      have hsame : entities.map (EntitySnapshot.after []) = entities :=
        (List.map_congr_left fun entity _ => entity.after_nil).trans (List.map_id _)
      rw [List.flatMap_nil, hsame]
      exact ⟨fun h => ⟨fun _ h => (nomatch h), (Except.ok.inj h).symm⟩,
        fun h => congrArg Except.ok h.2.symm⟩
  | cons update updates ih =>
      have hmaps : entities.map (EntitySnapshot.after (update.writes
            ++ updates.flatMap DeltaUpdateEntity.writes))
          = (entities.map (EntitySnapshot.after update.writes)).map
            (EntitySnapshot.after (updates.flatMap DeltaUpdateEntity.writes)) := by
        rw [List.map_map]
        exact List.map_congr_left fun entity _ => entity.after_append
      have hnextDistinct : ∀ entity ∈ entities.map (EntitySnapshot.after update.writes),
          entity.Distinct := by
        intro entity hentity
        obtain ⟨original, horiginal, rfl⟩ := List.mem_map.mp hentity
        exact (hdistinct original horiginal).after
      have ih := ih (ascending_after hentities) hnextDistinct
      simp only [updatable_after] at ih
      rw [List.foldlM_cons, bind_eq_ok, List.forall_mem_cons, List.flatMap_cons, hmaps]
      constructor
      · intro ⟨next, hnext, h⟩
        obtain ⟨hupdatable, rfl⟩ := (apply_update_eq_ok hentities hdistinct).mp hnext
        obtain ⟨hall, rfl⟩ := ih.mp h
        exact ⟨⟨hupdatable, hall⟩, rfl⟩
      · intro ⟨⟨hupdatable, hall⟩, hresult⟩
        exact ⟨_, (apply_update_eq_ok hentities hdistinct).mpr ⟨hupdatable, rfl⟩,
          ih.mpr ⟨hall, hresult⟩⟩

/-! ## Whole deltas -/

/-- The passes of `apply_delta_snapshot_from_packet`, with the check of the number of entities. -/
def applyPasses (limits : CodecLimits) (baseline : List EntitySnapshot) (destroys : List EntityId)
    (creates : List EntitySnapshot) (updates : List DeltaUpdateEntity) :
    Outcome CodecError (List EntitySnapshot) := do
  let remaining ← Delta.applyDestroys baseline destroys
  let remaining ← Delta.applyCreates remaining creates
  if remaining.length > limits.maxTotalEntitiesAfterApply then
    fail (.limitsExceeded .totalEntitiesAfterApply limits.maxTotalEntitiesAfterApply
      remaining.length)
  Delta.applyUpdates remaining updates

/-- Each destroyed id takes one entity away. -/
theorem length_apply_destroys {baseline remaining : List EntitySnapshot} {destroys : List EntityId}
    (h : Delta.applyDestroys baseline destroys = .ok remaining) :
    remaining.length + destroys.length = baseline.length := by
  obtain ⟨hno, rfl⟩ := apply_destroys_eq_ok.mp h
  clear h
  have hfirst := filterMap_first_walk entityKey EntityId.raw baseline destroys
  have hsecond := filterMap_second_walk entityKey EntityId.raw baseline destroys
  generalize walk entityKey EntityId.raw baseline destroys = steps at hno hfirst hsecond ⊢
  subst hfirst hsecond
  induction steps with
  | nil => rfl
  | cons step steps ih =>
      have ih := ih fun other hother => hno other (List.mem_cons_of_mem _ hother)
      cases step with
      | left b =>
          simp only [List.filterMap_cons, keptStep, Step.first_left, Step.second_left,
            List.length_cons]
          omega
      | right d => exact absurd rfl (hno (.right d) List.mem_cons_self d)
      | both b d =>
          simp only [List.filterMap_cons, keptStep, Step.first_both, Step.second_both,
            List.length_cons]
          omega

/-- Each created entity is one more. -/
theorem length_apply_creates {baseline creates merged : List EntitySnapshot}
    (h : Delta.applyCreates baseline creates = .ok merged) :
    merged.length = baseline.length + creates.length := by
  obtain ⟨hno, rfl⟩ := apply_creates_eq_ok.mp h
  clear h
  have hfirst := filterMap_first_walk entityKey entityKey baseline creates
  have hsecond := filterMap_second_walk entityKey entityKey baseline creates
  generalize walk entityKey entityKey baseline creates = steps at hno hfirst hsecond ⊢
  subst hfirst hsecond
  induction steps with
  | nil => rfl
  | cons step steps ih =>
      have ih := ih fun other hother => hno other (List.mem_cons_of_mem _ hother)
      cases step with
      | left b =>
          simp only [List.filterMap_cons, mergedStep, Step.first_left, Step.second_left,
            List.length_cons]
          omega
      | right c =>
          simp only [List.filterMap_cons, mergedStep, Step.first_right, Step.second_right,
            List.length_cons]
          omega
      | both b c => exact absurd rfl (hno (.both b c) List.mem_cons_self b c)

/-- The entities of a baseline that are not destroyed, and the created ones. -/
def Survives (baseline : List EntitySnapshot) (destroys : List EntityId)
    (creates : List EntitySnapshot) (entity : EntitySnapshot) : Prop :=
  (entity ∈ baseline ∧ entity.id ∉ destroys) ∨ entity ∈ creates

section Passes

variable {baseline creates : List EntitySnapshot} {destroys : List EntityId}
  (hbaseline : Ascending baseline) (hdestroys : destroys.Pairwise fun a b => a.raw < b.raw)
  (hcreates : Ascending creates)

include hbaseline

include hdestroys in
/-- A pass over the destroyed ids succeeds when all of them are there. -/
theorem apply_destroys_iff :
    (∃ remaining, Delta.applyDestroys baseline destroys = .ok remaining)
      ↔ ∀ d ∈ destroys, ∃ b ∈ baseline, b.id = d := by
  constructor
  · intro ⟨remaining, hremaining⟩ d hd
    by_contra hno
    refine (apply_destroys_eq_ok.mp hremaining).1 (.right d) ?_ d rfl
    refine (mem_walk_right hbaseline hdestroys).mpr ⟨hd, fun b hb hkey => hno ⟨b, hb, ?_⟩⟩
    exact entity_id_eq hkey
  · intro hmem
    obtain ⟨remaining, hremaining, _⟩ := apply_destroys_of_mem hbaseline hdestroys hmem
    exact ⟨remaining, hremaining⟩

include hcreates in
/-- A pass over the created entities succeeds when none of them is there. -/
theorem apply_creates_iff :
    (∃ merged, Delta.applyCreates baseline creates = .ok merged)
      ↔ ∀ c ∈ creates, ∀ b ∈ baseline, b.id ≠ c.id := by
  constructor
  · intro ⟨merged, hmerged⟩ c hc b hb hid
    refine (apply_creates_eq_ok.mp hmerged).1 (.both b c) ?_ b c rfl
    exact (mem_walk_both hbaseline hcreates).mpr ⟨hb, hc, congrArg EntityId.raw hid⟩
  · intro hmem
    obtain ⟨merged, hmerged, _⟩ := apply_creates_of_not_mem hbaseline hcreates hmem
    exact ⟨merged, hmerged⟩

include hdestroys hcreates in
/-- What is known of the entities that the updates are applied to. -/
theorem merged_survives {remaining merged : List EntitySnapshot}
    (hremaining : Delta.applyDestroys baseline destroys = .ok remaining)
    (hmerged : Delta.applyCreates remaining creates = .ok merged) :
    (∀ d ∈ destroys, ∃ b ∈ baseline, b.id = d)
      ∧ (∀ c ∈ creates, ∀ b ∈ baseline, b.id ∉ destroys → b.id ≠ c.id)
      ∧ Ascending merged ∧ (∀ e, e ∈ merged ↔ Survives baseline destroys creates e) := by
  have hmem := (apply_destroys_iff hbaseline hdestroys).mp ⟨remaining, hremaining⟩
  obtain ⟨_, hsame, hascending, hkept⟩ := apply_destroys_of_mem hbaseline hdestroys hmem
  rw [hremaining] at hsame
  cases hsame
  have hfresh := (apply_creates_iff hascending hcreates).mp ⟨merged, hmerged⟩
  obtain ⟨_, hsame, hordered, hmembers⟩ := apply_creates_of_not_mem hascending hcreates hfresh
  rw [hmerged] at hsame
  cases hsame
  refine ⟨hmem, fun c hc b hb hno => hfresh c hc b ((hkept b).mpr ⟨hb, hno⟩), hordered,
    fun e => ?_⟩
  rw [hmembers, hkept]
  rfl

end Passes

theorem apply_passes_eq_ok {limits : CodecLimits} {baseline creates result : List EntitySnapshot}
    {destroys : List EntityId} :
    applyPasses limits baseline destroys creates updates = .ok result ↔
      ∃ remaining merged, Delta.applyDestroys baseline destroys = .ok remaining
        ∧ Delta.applyCreates remaining creates = .ok merged
        ∧ merged.length ≤ limits.maxTotalEntitiesAfterApply
        ∧ Delta.applyUpdates merged updates = .ok result := by
  simp only [applyPasses, bind_eq_ok, check_fail_eq_ok, Nat.not_lt]
  constructor
  · intro ⟨remaining, hremaining, merged, hmerged, htotal, h⟩
    exact ⟨remaining, merged, hremaining, hmerged, htotal, h⟩
  · intro ⟨remaining, merged, hremaining, hmerged, htotal, h⟩
    exact ⟨remaining, hremaining, merged, hmerged, htotal, h⟩

/-- A packet is applied by decoding its sections and running the passes. -/
theorem apply_delta_packet_passes {build : Build} {schema : Schema} {baseline : Snapshot}
    {packet : WirePacket} {limits : CodecLimits} {snapshot : Snapshot} :
    applyDeltaSnapshotFromPacket build schema baseline packet limits = .ok snapshot ↔
      (packet.header.flags.isDeltaSnapshot ∧ packet.header.baselineTick ≠ 0
        ∧ packet.header.baselineTick = baseline.tick.raw
        ∧ packet.header.schemaHash = schemaHash build schema)
      ∧ ∃ destroys creates updates,
        Delta.decodeDeltaSections build schema packet limits = .ok (destroys, creates, updates)
        ∧ ensureEntitiesSorted baseline.entities = .ok () ∧ ensureEntitiesSorted creates = .ok ()
        ∧ applyPasses limits baseline.entities destroys creates updates = .ok snapshot.entities
        ∧ snapshot.tick = ⟨packet.header.tick⟩ := by
  rw [apply_delta_packet_eq_ok]
  refine and_congr_right fun _ => ?_
  constructor
  · intro ⟨destroys, creates, updates, remaining, merged, hsections, hbaseline, hcreates,
      hremaining, hmerged, htotal, hentities, htick⟩
    exact ⟨destroys, creates, updates, hsections, hbaseline, hcreates,
      apply_passes_eq_ok.mpr ⟨remaining, merged, hremaining, hmerged, htotal, hentities⟩, htick⟩
  · intro ⟨destroys, creates, updates, hsections, hbaseline, hcreates, hpasses, htick⟩
    obtain ⟨remaining, merged, hremaining, hmerged, htotal, hentities⟩ :=
      apply_passes_eq_ok.mp hpasses
    exact ⟨destroys, creates, updates, remaining, merged, hsections, hbaseline, hcreates,
      hremaining, hmerged, htotal, hentities, htick⟩

/-- Applying a delta is exactly map update. The passes succeed when every destroyed id is there, no
created id is among the others, the entities are not too many, and every update finds its entity,
its components and its fields; the result is then the surviving entities, each field with its last
value. -/
theorem apply_passes_iff (limits : CodecLimits) (baseline creates : List EntitySnapshot)
    (destroys : List EntityId) (updates : List DeltaUpdateEntity) (hbaseline : Ascending baseline)
    (hdestroys : destroys.Pairwise fun a b => a.raw < b.raw) (hcreates : Ascending creates)
    (hdistinct : ∀ entity ∈ baseline, entity.Distinct)
    (hdistinct' : ∀ entity ∈ creates, entity.Distinct) :
    ((∃ result, applyPasses limits baseline destroys creates updates = .ok result) ↔
      (∀ d ∈ destroys, ∃ b ∈ baseline, b.id = d)
        ∧ (∀ c ∈ creates, ∀ b ∈ baseline, b.id ∉ destroys → b.id ≠ c.id)
        ∧ baseline.length - destroys.length + creates.length ≤ limits.maxTotalEntitiesAfterApply
        ∧ ∀ update ∈ updates, ∃ entity, Survives baseline destroys creates entity
          ∧ entity.id = update.id
          ∧ ∀ component ∈ update.components, entity.Admits component)
    ∧ ∀ result, applyPasses limits baseline destroys creates updates = .ok result →
        Ascending result ∧ ∀ entity, entity ∈ result ↔ ∃ original,
          Survives baseline destroys creates original
            ∧ entity = original.after (updates.flatMap DeltaUpdateEntity.writes) := by
  -- what the first two passes leave, whatever the updates are
  have hmerge {remaining merged : List EntitySnapshot}
      (hremaining : Delta.applyDestroys baseline destroys = .ok remaining)
      (hmerged : Delta.applyCreates remaining creates = .ok merged) :=
    merged_survives hbaseline hdestroys hcreates hremaining hmerged
  have hdistinctMerged {merged : List EntitySnapshot}
      (hmembers : ∀ e, e ∈ merged ↔ Survives baseline destroys creates e) :
      ∀ entity ∈ merged, entity.Distinct := by
    intro entity hentity
    rcases (hmembers entity).mp hentity with ⟨hin, _⟩ | hin
    · exact hdistinct entity hin
    · exact hdistinct' entity hin
  have hlength {remaining merged : List EntitySnapshot}
      (hremaining : Delta.applyDestroys baseline destroys = .ok remaining)
      (hmerged : Delta.applyCreates remaining creates = .ok merged) :
      merged.length = baseline.length - destroys.length + creates.length := by
    have := length_apply_destroys hremaining
    rw [length_apply_creates hmerged]
    omega
  -- the third pass looks at the survivors only
  have hupdatable {merged : List EntitySnapshot}
      (hmembers : ∀ e, e ∈ merged ↔ Survives baseline destroys creates e)
      (update : DeltaUpdateEntity) : Updatable merged update ↔
        ∃ entity, Survives baseline destroys creates entity ∧ entity.id = update.id
          ∧ ∀ component ∈ update.components, entity.Admits component := by
    unfold Updatable
    simp only [hmembers]
  refine ⟨⟨?_, ?_⟩, ?_⟩
  · intro ⟨result, hresult⟩
    obtain ⟨remaining, merged, hremaining, hmerged, htotal, hupdates⟩ :=
      apply_passes_eq_ok.mp hresult
    obtain ⟨hmem, hfresh, hascending, hmembers⟩ := hmerge hremaining hmerged
    obtain ⟨hall, _⟩ := (apply_updates_eq_ok hascending (hdistinctMerged hmembers)).mp hupdates
    rw [hlength hremaining hmerged] at htotal
    exact ⟨hmem, hfresh, htotal, fun update hupdate =>
      (hupdatable hmembers update).mp (hall update hupdate)⟩
  · intro ⟨hmem, hfresh, htotal, hall⟩
    obtain ⟨remaining, hremaining, hordered, hkept⟩ :=
      apply_destroys_of_mem hbaseline hdestroys hmem
    obtain ⟨merged, hmerged, -⟩ := apply_creates_of_not_mem hordered hcreates
      fun c hc b hb => hfresh c hc b ((hkept b).mp hb).1 ((hkept b).mp hb).2
    obtain ⟨-, -, hascending, hmembers⟩ := hmerge hremaining hmerged
    refine ⟨_, apply_passes_eq_ok.mpr ⟨remaining, merged, hremaining, hmerged, ?_,
      (apply_updates_eq_ok hascending (hdistinctMerged hmembers)).mpr ⟨fun update hupdate =>
        (hupdatable hmembers update).mpr (hall update hupdate), rfl⟩⟩⟩
    rw [hlength hremaining hmerged]
    exact htotal
  · intro result hresult
    obtain ⟨remaining, merged, hremaining, hmerged, -, hupdates⟩ := apply_passes_eq_ok.mp hresult
    obtain ⟨-, -, hascending, hmembers⟩ := hmerge hremaining hmerged
    obtain ⟨-, rfl⟩ := (apply_updates_eq_ok hascending (hdistinctMerged hmembers)).mp hupdates
    refine ⟨ascending_after hascending, fun entity => ?_⟩
    rw [List.mem_map]
    simp only [hmembers, eq_comm]

/-- The component of the entities below. -/
private def flagComponent (value : Bool) : ComponentSnapshot := ⟨⟨10, nonzero_ten⟩, [.bool value]⟩

/-- An id is destroyed and created again, and its field is written twice. -/
theorem apply_passes_recreated :
    ∃ result, applyPasses goldenLimits [⟨⟨1⟩, [flagComponent true]⟩, ⟨⟨4⟩, []⟩] [⟨4⟩]
      [⟨⟨4⟩, [flagComponent false]⟩]
      [⟨⟨4⟩, [⟨⟨10, by decide⟩, [(0, .bool false), (0, .bool true)]⟩]⟩] = .ok result := by
  refine (apply_passes_iff goldenLimits _ _ _ _ (by decide) (by decide) (by decide) ?_ ?_).1.mpr ?_
  · simp [EntitySnapshot.Distinct, flagComponent]
  · simp [EntitySnapshot.Distinct, flagComponent]
  · refine ⟨by decide, by decide, by decide, fun update hupdate => ?_⟩
    rw [List.mem_singleton.mp hupdate]
    refine ⟨⟨⟨4⟩, [flagComponent false]⟩, Or.inr List.mem_cons_self, rfl,
      fun component hcomponent => ?_⟩
    rw [List.mem_singleton.mp hcomponent]
    exact ⟨flagComponent false, List.mem_cons_self, rfl, by simp [flagComponent]⟩

end Sdec
