import Sdec.Codec.Change
import Mathlib.Data.List.Zip

/-!
# The changes between two snapshots

What a delta says: the entities destroyed, the entities created, and for each entity in both
snapshots the fields that changed with their new values. The encoders find these in several passes
over the snapshots; each pass that succeeds is shown to compute a part of `diff`.
-/

namespace Sdec

open Rust Codec Sorted

variable {build : Build} {schema : Schema} {limits : CodecLimits}

/-! ## Fields -/

/-- Whether a field counts as changed. A comparison that fails counts as no change. -/
def hasChanged (build : Build) (id : ComponentId) (field : FieldDef) (base curr : FieldValue) :
    Bool :=
  match fieldChanged build id field base curr with
  | .ok changed => changed
  | .error _ => false

/-- The mask of the fields of a component that changed. -/
def changedMask (build : Build) (id : ComponentId) (fields : List FieldDef)
    (base curr : List FieldValue) : List Bool :=
  (fields.zip (base.zip curr)).map fun (field, baseVal, currVal) =>
    hasChanged build id field baseVal currVal

/-- The indices and values of the fields whose bit is set, from index `idx` on. -/
def changedFields (idx : Nat) : List Bool → List FieldValue → List (Nat × FieldValue)
  | changed :: mask, value :: values =>
      if changed then (idx, value) :: changedFields (idx + 1) mask values
      else changedFields (idx + 1) mask values
  | _, _ => []

@[simp] theorem changed_fields_true (idx : Nat) (mask : List Bool) (value : FieldValue)
    (values : List FieldValue) :
    changedFields idx (true :: mask) (value :: values)
      = (idx, value) :: changedFields (idx + 1) mask values := rfl

@[simp] theorem changed_fields_false (idx : Nat) (mask : List Bool) (value : FieldValue)
    (values : List FieldValue) :
    changedFields idx (false :: mask) (value :: values)
      = changedFields (idx + 1) mask values := rfl

theorem has_changed_of_ok {id : ComponentId} {field : FieldDef} {base curr : FieldValue} {b : Bool}
    (h : fieldChanged build id field base curr = .ok b) :
      hasChanged build id field base curr = b := by
  rw [hasChanged, h]

theorem changed_mask_cons {id : ComponentId} {field : FieldDef} {fields : List FieldDef}
    {baseVal currVal : FieldValue} {base curr : List FieldValue} :
    changedMask build id (field :: fields) (baseVal :: base) (currVal :: curr)
      = hasChanged build id field baseVal currVal :: changedMask build id fields base curr := rfl

theorem length_changed_mask {id : ComponentId} {fields : List FieldDef}
    {base curr : List FieldValue} (hbase : base.length = fields.length)
    (hcurr : curr.length = fields.length) :
    (changedMask build id fields base curr).length = fields.length := by
  simp [changedMask, hbase, hcurr]

/-- The mask that `compute_field_mask_into` computes. -/
theorem compute_field_mask_loop_eq {id : ComponentId} {fields : List FieldDef}
    {base curr : List FieldValue} {slots mask : List Bool} (hbase : base.length = fields.length)
    (hcurr : curr.length = fields.length) (hslots : slots.length = fields.length)
    (h : computeFieldMaskLoop build id fields base curr slots = .ok mask) :
    mask = changedMask build id fields base curr := by
  induction fields generalizing base curr slots mask with
  | nil =>
      obtain rfl := List.eq_nil_of_length_eq_zero hslots
      cases h
      rfl
  | cons field fields ih =>
      obtain ⟨baseVal, base, rfl⟩ := List.exists_cons_of_length_eq_add_one hbase
      obtain ⟨currVal, curr, rfl⟩ := List.exists_cons_of_length_eq_add_one hcurr
      obtain ⟨slot, slots, rfl⟩ := List.exists_cons_of_length_eq_add_one hslots
      rw [computeFieldMaskLoop] at h
      obtain ⟨changed, hchanged, h⟩ := bind_eq_ok.mp h
      obtain ⟨rest, hrest, h⟩ := bind_eq_ok.mp h
      cases h
      rw [changed_mask_cons, has_changed_of_ok hchanged,
        ih (by simpa using hbase) (by simpa using hcurr) (by simpa using hslots) hrest]

/-- The loop that stops at the first change finds whether there is one. -/
theorem any_field_changed_eq {componentId : ComponentId} {fields : List FieldDef}
    {base curr : List FieldValue} {b : Bool}
    (h : anyFieldChanged build componentId fields base curr = .ok b) :
    b = (changedMask build componentId fields base curr).any id := by
  induction fields generalizing base curr with
  | nil =>
      cases h
      rfl
  | cons field fields ih =>
      cases base with
      | nil => cases h; rfl
      | cons baseVal base =>
          cases curr with
          | nil => cases h; rfl
          | cons currVal curr =>
              rw [anyFieldChanged] at h
              obtain ⟨changed, hchanged, h⟩ := bind_eq_ok.mp h
              rw [changed_mask_cons, has_changed_of_ok hchanged, List.any_cons]
              cases changed with
              | true => cases h; rfl
              | false => exact ih h

theorem length_changed_fields (idx : Nat) {mask : List Bool} {values : List FieldValue}
    (h : mask.length = values.length) :
    (changedFields idx mask values).length = mask.count true := by
  induction mask generalizing idx values with
  | nil => rfl
  | cons changed mask ih =>
      obtain ⟨value, values, rfl⟩ := List.exists_cons_of_length_eq_add_one h.symm
      have ih := ih (idx + 1) (Nat.succ.inj h)
      cases changed with
      | true => rw [changed_fields_true, List.length_cons, ih, List.count_cons_self]
      | false =>
          rw [changed_fields_false, ih, List.count_cons_of_ne Bool.false_ne_true]

/-- A mask with a bit set selects a field. -/
theorem changed_fields_ne_nil (idx : Nat) {mask : List Bool} {values : List FieldValue}
    (h : mask.length ≤ values.length) (hany : mask.any id) :
      changedFields idx mask values ≠ [] := by
  induction mask generalizing idx values with
  | nil => cases hany
  | cons changed mask ih =>
      cases values with
      | nil => cases h
      | cons value values =>
          cases changed with
          | true => exact List.cons_ne_nil _ _
          | false => exact ih (idx + 1) (Nat.le_of_succ_le_succ h) hany

/-- The indices of changed fields ascend, from the first on. -/
theorem changed_fields_ascend (idx : Nat) (mask : List Bool) (values : List FieldValue) :
    ((changedFields idx mask values).map Prod.fst).Pairwise (· < ·)
      ∧ ∀ i ∈ (changedFields idx mask values).map Prod.fst, idx ≤ i ∧ i < idx + mask.length := by
  induction mask generalizing idx values with
  | nil => simp [changedFields]
  | cons changed mask ih =>
      cases values with
      | nil => simp [changedFields]
      | cons value values =>
          obtain ⟨hascend, hrange⟩ := ih (idx + 1) values
          have hrest : ∀ i ∈ (changedFields (idx + 1) mask values).map Prod.fst,
              idx ≤ i ∧ i < idx + (changed :: mask).length := by
            intro i hi
            have := hrange i hi
            simp only [List.length_cons]
            omega
          cases changed with
          | true =>
              rw [changed_fields_true, List.map_cons]
              refine ⟨List.pairwise_cons.mpr ⟨fun i hi => (hrange i hi).1, hascend⟩, ?_⟩
              exact List.forall_mem_cons.mpr ⟨⟨Nat.le_refl _, by simp⟩, hrest⟩
          | false =>
              rw [changed_fields_false]
              exact ⟨hascend, hrest⟩

/-! ## Entities -/

/-- What the scan of a component finds: its current values, and the mask of those that changed. -/
def scanned (build : Build) (base curr : EntitySnapshot) (component : ComponentDef) :
    Option (ComponentSnapshot × List Bool) :=
  match findComponent base component.id, findComponent curr component.id with
  | some base, some curr =>
      some (curr, changedMask build component.id component.fields base.fields curr.fields)
  | _, _ => none

/-- The update of a component of an entity in both snapshots, if any field changed. -/
def componentUpdate (build : Build) (base curr : EntitySnapshot) (component : ComponentDef) :
    Option DeltaUpdateComponent :=
  match scanned build base curr component with
  | some (curr, mask) =>
      if mask.any id then some ⟨component.id, changedFields 0 mask curr.fields⟩ else none
  | none => none

/-- The updates of the components of an entity in both snapshots. -/
def componentUpdates (build : Build) (schema : Schema) (base curr : EntitySnapshot) :
    List DeltaUpdateComponent :=
  schema.components.filterMap (componentUpdate build base curr)

/-- The update of an entity in both snapshots, if any field changed. -/
def entityUpdate (build : Build) (schema : Schema) (base curr : EntitySnapshot) :
    Option DeltaUpdateEntity :=
  if (componentUpdates build schema base curr).isEmpty then none
  else some ⟨curr.id, componentUpdates build schema base curr⟩

theorem component_update_of_none {base curr : EntitySnapshot} {component : ComponentDef}
    (h : scanned build base curr component = none) :
    componentUpdate build base curr component = none := by
  rw [componentUpdate, h]

theorem component_update_of_some {base curr : EntitySnapshot} {component : ComponentDef}
    {snapshot : ComponentSnapshot} {mask : List Bool}
    (h : scanned build base curr component = some (snapshot, mask)) :
    componentUpdate build base curr component
      = if mask.any id then some ⟨component.id, changedFields 0 mask snapshot.fields⟩
        else none := by
  rw [componentUpdate, h]

theorem entity_has_updates_loop_eq {base curr : EntitySnapshot} {components : List ComponentDef}
    {b : Bool} (h : entityHasUpdatesLoop build limits base curr components = .ok b) :
    b = !(components.filterMap (componentUpdate build base curr)).isEmpty := by
  induction components with
  | nil => cases h; rfl
  | cons component rest ih =>
      rw [entityHasUpdatesLoop] at h
      rw [List.filterMap_cons]
      cases hbase : findComponent base component.id with
      | none =>
          simp only [hbase] at h
          simp only [component_update_of_none (show scanned build base curr component = none by
            simp only [scanned, hbase])]
          exact ih h
      | some baseComponent =>
          cases hcurr : findComponent curr component.id with
          | none =>
              simp only [hbase, hcurr] at h
              simp only [component_update_of_none (show scanned build base curr component = none by
                simp only [scanned, hbase, hcurr])]
              exact ih h
          | some currComponent =>
              simp only [hbase, hcurr] at h
              obtain ⟨_, _, h⟩ := bind_eq_ok.mp h
              obtain ⟨changed, hchanged, h⟩ := bind_eq_ok.mp h
              have hscan : scanned build base curr component = some (currComponent,
                  changedMask build component.id component.fields baseComponent.fields
                    currComponent.fields) := by
                simp only [scanned, hbase, hcurr]
              rw [component_update_of_some hscan]
              have hany := any_field_changed_eq hchanged
              cases changed with
              | true =>
                  cases h
                  simp only [if_pos hany.symm]
                  rfl
              | false =>
                  simp only [if_neg (fun h => Bool.false_ne_true (hany.trans h))]
                  exact ih h

/-- `entity_has_updates` finds whether an entity has an update. -/
theorem entity_has_updates_eq {base curr : EntitySnapshot} {b : Bool}
    (h : entityHasUpdates build schema limits base curr = .ok b) :
    b = (entityUpdate build schema base curr).isSome := by
  rw [entityHasUpdates] at h
  obtain ⟨_, _, h⟩ := bind_eq_ok.mp h
  have := entity_has_updates_loop_eq h
  rw [entityUpdate, componentUpdates]
  split <;> simp_all

/-- The components of two entities with the numbers of fields that the schema says. -/
def Comparable (limits : CodecLimits) (base curr : EntitySnapshot)
    (component : ComponentDef) : Prop :=
  ∀ b c, findComponent base component.id = some b → findComponent curr component.id = some c →
    b.fields.length = component.fields.length ∧ c.fields.length = component.fields.length
      ∧ component.fields.length ≤ limits.maxFieldsPerComponent

theorem length_ensure_capacity (mask : List Bool) (size : Nat) :
    size ≤ (ensureCapacity mask size).length := by
  rw [ensureCapacity]
  split
  · rw [List.length_append, List.length_replicate]
    omega
  · omega

theorem scan_component_eq {base curr : EntitySnapshot} {component : ComponentDef}
    {scratch scratch' : CodecScratch} {result : Option (ComponentSnapshot × List Bool)}
    (h : scanComponent build schema limits base curr component scratch = .ok (result, scratch')) :
    result = scanned build base curr component ∧ Comparable limits base curr component
      ∧ (findComponent base component.id).isSome = (findComponent curr component.id).isSome
      ∧ scratch' = if (findComponent base component.id).isSome then
          (scratch.ensure schema.components.length component.fields.length).setFieldMask
            ((scanned build base curr component).elim [] Prod.snd)
        else scratch := by
  rw [scanComponent] at h
  rw [scanned, Comparable]
  cases hbase : findComponent base component.id with
  | none =>
      cases hcurr : findComponent curr component.id with
      | none =>
          simp only [hbase, hcurr] at h
          cases h
          simp
      | some c =>
          simp only [hbase, hcurr] at h
          cases h
  | some b =>
      cases hcurr : findComponent curr component.id with
      | none =>
          simp only [hbase, hcurr] at h
          cases h
      | some c =>
          simp only [hbase, hcurr] at h
          obtain ⟨_, hcounts, h⟩ := bind_eq_ok.mp h
          obtain ⟨mask, hmask, h⟩ := bind_eq_ok.mp h
          cases h
          rw [checkFieldCounts, check_fail_eq_ok] at hcounts
          obtain ⟨hlengths, hlimit⟩ := hcounts
          rw [not_or, not_not, not_not] at hlengths
          have hlimit : component.fields.length ≤ limits.maxFieldsPerComponent := by
            by_contra hlarge
            rw [if_pos (Nat.lt_of_not_le hlarge)] at hlimit
            cases hlimit
          have hslots := length_ensure_capacity scratch.fieldMask component.fields.length
          have hmask := compute_field_mask_loop_eq hlengths.1 hlengths.2
            (by rw [List.length_take]; exact Nat.min_eq_left hslots) hmask
          subst hmask
          refine ⟨rfl, fun b' c' hb hc => ?_, rfl, rfl⟩
          cases hb
          cases hc
          exact ⟨hlengths.1, hlengths.2, hlimit⟩

/-! ## Snapshots -/

/-- A delta from a baseline to a current snapshot. -/
structure Diff where
  destroys : List EntityId
  creates : List EntitySnapshot
  updates : List DeltaUpdateEntity
  deriving DecidableEq, Repr

/-- The id of the entity that a step destroys. -/
def destroyStep : Step EntitySnapshot EntitySnapshot → Option EntityId
  | .left b => some b.id
  | _ => none

/-- The entity that a step creates. -/
def createStep : Step EntitySnapshot EntitySnapshot → Option EntitySnapshot
  | .right c => some c
  | _ => none

/-- The update of the entity that a step finds in both snapshots. -/
def updateStep (build : Build) (schema : Schema) :
    Step EntitySnapshot EntitySnapshot → Option DeltaUpdateEntity
  | .both b c => entityUpdate build schema b c
  | _ => none

/-- The delta that the steps of a merge loop say. -/
def diffSteps (build : Build) (schema : Schema)
    (steps : List (Step EntitySnapshot EntitySnapshot)) :
    Diff where
  destroys := steps.filterMap destroyStep
  creates := steps.filterMap createStep
  updates := steps.filterMap (updateStep build schema)

/-- The delta from a baseline to a current snapshot. -/
def diff (build : Build) (schema : Schema) (baseline current : Snapshot) : Diff :=
  diffSteps build schema (mergeSteps baseline current)

/-- The length of what a partial map picks is the number of elements it is defined on. -/
theorem length_filterMap_eq_sum {α β : Type} (f : α → Option β) (xs : List α) :
    (xs.filterMap f).length = (xs.map fun x => (f x).toList.length).sum := by
  induction xs with
  | nil => rfl
  | cons x xs ih =>
      rw [List.filterMap_cons, List.map_cons, List.sum_cons, ← ih]
      cases f x with
      | none => simp
      | some y => simp; omega

/-- One step of `diff_counts` adds one to the count of its kind. -/
theorem diff_counts_step_eq {counts counts' : DiffCounts}
    {step : Step EntitySnapshot EntitySnapshot} (h : (match step with
      | .left _ => return { counts with destroys := counts.destroys + 1 }
      | .right _ => return { counts with creates := counts.creates + 1 }
      | .both b c => do
          if ← entityHasUpdates build schema limits b c then
            return { counts with updates := counts.updates + 1 }
          return counts) = Except.ok counts') :
    counts'.creates = counts.creates + (createStep step).toList.length
      ∧ counts'.updates = counts.updates + (updateStep build schema step).toList.length
      ∧ counts'.destroys = counts.destroys + (destroyStep step).toList.length := by
  cases step with
  | left b => cases h; exact ⟨rfl, rfl, rfl⟩
  | right c => cases h; exact ⟨rfl, rfl, rfl⟩
  | both b c =>
      obtain ⟨changed, hchanged, h⟩ := bind_eq_ok.mp h
      have hupdate := entity_has_updates_eq hchanged
      rw [updateStep]
      cases changed with
      | true =>
          cases h
          obtain ⟨update, hupdate⟩ := Option.isSome_iff_exists.mp hupdate.symm
          rw [hupdate]
          exact ⟨rfl, rfl, rfl⟩
      | false =>
          cases h
          have hnone := Option.isSome_eq_false_iff.mp hupdate.symm
          rw [Option.isNone_iff_eq_none.mp hnone]
          exact ⟨rfl, rfl, rfl⟩

/-- `diff_counts` counts the entries of the delta. -/
theorem diff_counts_eq {baseline current : Snapshot} {counts : DiffCounts}
    (h : diffCounts build schema limits baseline current = .ok counts) :
    counts = ⟨(diff build schema baseline current).creates.length,
      (diff build schema baseline current).updates.length,
      (diff build schema baseline current).destroys.length⟩ := by
  simp only [diff, diffSteps, length_filterMap_eq_sum]
  have hcreates : counts.creates = 0 + _ :=
    foldlM_sum_eq h fun _ _ _ _ h => (diff_counts_step_eq h).1
  have hupdates : counts.updates = 0 + _ :=
    foldlM_sum_eq h fun _ _ _ _ h => (diff_counts_step_eq h).2.1
  have hdestroys : counts.destroys = 0 + _ :=
    foldlM_sum_eq h fun _ _ _ _ h => (diff_counts_step_eq h).2.2
  rw [Nat.zero_add] at hcreates hupdates hdestroys
  rw [← hcreates, ← hupdates, ← hdestroys]

/-- Both entities have a component of the schema, or neither. -/
def SamePresence (schema : Schema) (base curr : EntitySnapshot) : Prop :=
  ∀ d ∈ schema.components, (findComponent base d.id).isSome = (findComponent curr d.id).isSome

/-- `diff_counts` checks that the entities in both snapshots have the same components. -/
theorem diff_counts_presence {baseline current : Snapshot} {counts : DiffCounts}
    (h : diffCounts build schema limits baseline current = .ok counts) {b c : EntitySnapshot}
    (hstep : .both b c ∈ mergeSteps baseline current) : SamePresence schema b c := by
  obtain ⟨_, _, hcount⟩ := exists_of_foldlM_eq_ok h hstep
  obtain ⟨_, hupdates, -⟩ := bind_eq_ok.mp hcount
  rw [entityHasUpdates] at hupdates
  obtain ⟨_, hpresence, -⟩ := bind_eq_ok.mp hupdates
  rw [ensureComponentPresenceMatches, forM_eq_ok] at hpresence
  intro d hd
  by_contra hne
  have hcheck := hpresence d hd
  rw [if_pos hne] at hcheck
  cases hcheck

/-- The components that a sparse encoder counts for one entity. -/
theorem count_component_entries_eq {base curr : EntitySnapshot} {components : List ComponentDef}
    {start result : Nat × CodecScratch}
    (h : components.foldlM (fun (count, scratch) component => do
      let (scanned, scratch) ← scanComponent build schema limits base curr component scratch
      match scanned with
      | some (_, fieldMask) => return (if fieldMask.any id then count + 1 else count, scratch)
      | none => return (count, scratch)) start = .ok result) :
    result.1 = start.1 + (components.filterMap (componentUpdate build base curr)).length := by
  rw [length_filterMap_eq_sum]
  refine foldlM_sum_eq h fun component _ s s' hstep => ?_
  obtain ⟨⟨found, scratch'⟩, hscan, hstep⟩ := bind_eq_ok.mp hstep
  obtain ⟨hfound, -⟩ := scan_component_eq hscan
  cases found with
  | none =>
      cases hstep
      rw [component_update_of_none hfound.symm]
      rfl
  | some p =>
      cases hstep
      rw [component_update_of_some hfound.symm]
      split <;> simp_all

/-- `count_sparse_update_entries` counts the components of the updates. -/
theorem count_sparse_update_entries_eq {baseline current : Snapshot} {scratch : CodecScratch}
    {result : Nat × CodecScratch}
    (h : countSparseUpdateEntries build schema limits baseline current scratch = .ok result) :
    result.1
      = ((diff build schema baseline current).updates.map fun u => u.components.length).sum := by
  have hsum : ∀ steps : List (Step EntitySnapshot EntitySnapshot),
      ((steps.filterMap (updateStep build schema)).map fun u => u.components.length).sum
        = (steps.map fun step => match step with
          | .both b c => (componentUpdates build schema b c).length
          | _ => 0).sum := by
    intro steps
    induction steps with
    | nil => rfl
    | cons step steps ih =>
        rw [List.filterMap_cons, List.map_cons, List.sum_cons, ← ih]
        cases step with
        | left b => simp [updateStep]
        | right c => simp [updateStep]
        | both b c =>
            simp only [updateStep, entityUpdate]
            by_cases hempty : (componentUpdates build schema b c).isEmpty
            · simp_all
            · rw [if_neg hempty]
              rfl
  rw [diff, diffSteps, hsum, ← Nat.zero_add (List.sum _)]
  refine foldlM_sum_eq h fun step _ s s' hstep => ?_
  cases step with
  | left b => cases hstep; rfl
  | right c => cases hstep; rfl
  | both b c =>
      obtain ⟨changed, hchanged, hstep⟩ := bind_eq_ok.mp hstep
      have hupdate := entity_has_updates_eq hchanged
      cases changed with
      | true => exact count_component_entries_eq hstep
      | false =>
          cases hstep
          by_cases hempty : (componentUpdates build schema b c).isEmpty
          · simp only [List.isEmpty_iff.mp hempty, List.length_nil, Nat.add_zero]
          · rw [entityUpdate, if_neg hempty] at hupdate
            cases hupdate

end Sdec
