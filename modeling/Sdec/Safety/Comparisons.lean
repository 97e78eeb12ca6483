import Sdec.Diff.Change
import Sdec.Format.AcceptedSection

/-!
# Comparisons and overflow

The encoders compare values by threshold, for which they subtract `i64`s that come from the caller.
`Schema.ComparisonsFit` says of two entities that no such difference leaves the range, and then no
scan of the two panics in any build. Where one does leave the range, a build that checks `i64`
arithmetic panics.
-/

namespace Sdec

open Rust Codec Sorted

variable {build : Build} {schema : Schema} {limits : CodecLimits} {risk : Prop}

/-- The difference of two numbers is in the range of an `i64`. -/
def SubFits (a b : Int64) : Prop :=
  -2 ^ 63 ≤ a.toInt - b.toInt ∧ a.toInt - b.toInt < 2 ^ 63

theorem sub_fits_iff {a b : Int64} :
    SubFits a b ↔ (a - b).toInt = a.toInt - b.toInt := by
  rw [SubFits]
  constructor
  · intro h
    rw [Int64.toInt_sub, Int.bmod_eq_of_le (by omega) (by omega)]
  · intro h
    have hlow := (a - b).le_toInt
    have hhigh := (a - b).toInt_lt
    omega

/-- The difference that the comparison of two values of a field computes, if it computes one, is in
the range of an `i64`. -/
def FieldDef.ComparisonFits (field : FieldDef) (baseline current : FieldValue) : Prop :=
  match field.change, baseline, current with
  | .threshold _, .fixedPoint a, .fixedPoint b
  | .threshold _, .sint a, .sint b
  | .threshold _, .varSInt a, .varSInt b => SubFits a b
  | _, _, _ => True

/-- The comparisons of all fields that two entities have both. -/
def Schema.ComparisonsFit (schema : Schema) (baseline current : EntitySnapshot) : Prop :=
  ∀ component ∈ schema.components, ∀ base curr,
    findComponent baseline component.id = some base →
      findComponent current component.id = some curr →
        ∀ t ∈ component.fields.zip (base.fields.zip curr.fields), t.1.ComparisonFits t.2.1 t.2.2

/-! ## Fields -/

theorem sub_ensures {a b : Int64} (hrisk : build.overflowChecks → ¬ SubFits a b → risk) :
    Ensures (build.sub a b : Outcome CodecError Int64) (fun _ => True) (PanicsOnlyIf risk) := by
  rw [Build.sub, Build.i64]
  by_cases hpanic : build.overflowChecks ∧ (a - b).toInt ≠ a.toInt - b.toInt
  · rw [if_pos hpanic]
    exact fun _ => hrisk hpanic.1 fun hfits => hpanic.2 (sub_fits_iff.mp hfits)
  · rw [if_neg hpanic]
    exact trivial

theorem field_changed_ensures (componentId : ComponentId) {field : FieldDef}
    {baseline current : FieldValue}
    (hrisk : build.overflowChecks → ¬ field.ComparisonFits baseline current → risk) :
    Ensures (fieldChanged build componentId field baseline current) (fun _ => True)
      (PanicsOnlyIf risk) := by
  unfold fieldChanged
  cases hchange : field.change with
  | always =>
      dsimp only
      unfold fieldDiffers
      split
      all_goals first
        | exact trivial
        | exact panics_only_if_err _
  | threshold thresholdQ =>
      have hsub (a b : Int64) (h : field.ComparisonFits baseline current = SubFits a b) :
          Ensures (build.sub a b : Outcome CodecError Int64) (fun _ => True) (PanicsOnlyIf risk) :=
        sub_ensures fun hchecks hnot => hrisk hchecks (h ▸ hnot)
      unfold FieldDef.ComparisonFits at hsub
      rw [hchange] at hsub
      dsimp only
      unfold fieldExceedsThreshold
      split
      next a b => exact (hsub a b rfl).bind fun _ _ => trivial
      next a b => exact (hsub a b rfl).bind fun _ _ => trivial
      next a b => exact (hsub a b rfl).bind fun _ _ => trivial
      next => exact trivial
      next => exact trivial
      next => exact trivial
      next => exact panics_only_if_err _

/-- The comparisons of three lists, as the loops over the fields of a component make them. -/
def FieldRisk (build : Build) (risk : Prop) (fields : List FieldDef) (base curr : List FieldValue) :
    Prop :=
  ∀ t ∈ fields.zip (base.zip curr), build.overflowChecks → ¬ t.1.ComparisonFits t.2.1 t.2.2 → risk

theorem FieldRisk.head {field : FieldDef} {fields : List FieldDef} {baseVal currVal : FieldValue}
    {base curr : List FieldValue}
    (h : FieldRisk build risk (field :: fields) (baseVal :: base) (currVal :: curr)) :
    build.overflowChecks → ¬ field.ComparisonFits baseVal currVal → risk :=
  h (field, baseVal, currVal) List.mem_cons_self

theorem FieldRisk.tail {field : FieldDef} {fields : List FieldDef} {baseVal currVal : FieldValue}
    {base curr : List FieldValue}
    (h : FieldRisk build risk (field :: fields) (baseVal :: base) (currVal :: curr)) :
    FieldRisk build risk fields base curr :=
  fun t ht => h t (List.mem_cons_of_mem _ ht)

theorem any_field_changed_ensures (componentId : ComponentId) {fields : List FieldDef}
    {base curr : List FieldValue} (hrisk : FieldRisk build risk fields base curr) :
    Ensures (anyFieldChanged build componentId fields base curr) (fun _ => True)
      (PanicsOnlyIf risk) := by
  induction fields generalizing base curr with
  | nil => exact trivial
  | cons field fields ih =>
      cases base with
      | nil => exact trivial
      | cons baseVal base =>
          cases curr with
          | nil => exact trivial
          | cons currVal curr =>
              unfold anyFieldChanged
              refine (field_changed_ensures componentId hrisk.head).bind fun changed _ => ?_
              exact Ensures.ite (fun _ => trivial) fun _ => ih hrisk.tail

/-- The loop keeps the length of the mask. -/
theorem compute_field_mask_loop_ensures (componentId : ComponentId) {fields : List FieldDef}
    {base curr : List FieldValue} (slots : List Bool)
    (hrisk : FieldRisk build risk fields base curr) :
    Ensures (computeFieldMaskLoop build componentId fields base curr slots)
      (fun mask => mask.length = slots.length) (PanicsOnlyIf risk) := by
  induction fields generalizing base curr slots with
  | nil => exact rfl
  | cons field fields ih =>
      cases base with
      | nil => exact rfl
      | cons baseVal base =>
          cases curr with
          | nil => exact rfl
          | cons currVal curr =>
              cases slots with
              | nil => exact rfl
              | cons slot slots =>
                  unfold computeFieldMaskLoop
                  refine (field_changed_ensures componentId hrisk.head).bind fun changed _ => ?_
                  refine (ih slots hrisk.tail).bind fun rest hrest => ?_
                  show (changed :: rest).length = (slot :: slots).length
                  rw [List.length_cons, List.length_cons, hrest]

/-! ## Entities -/

theorem check_field_counts_ensures (component : ComponentDef) (base curr : ComponentSnapshot) :
    Ensures (checkFieldCounts limits component base curr)
      (fun _ => base.fields.length = component.fields.length
        ∧ curr.fields.length = component.fields.length) (PanicsOnlyIf risk) := by
  unfold checkFieldCounts
  refine Ensures.check (fun _ => panics_only_if_err _) fun hcounts => ?_
  rw [not_or, not_not, not_not] at hcounts
  exact Ensures.ite (fun _ => panics_only_if_err _) fun _ => hcounts

theorem ensure_component_presence_ensures (base curr : EntitySnapshot) :
    Ensures (ensureComponentPresenceMatches schema base curr) (fun _ => True)
      (PanicsOnlyIf risk) := by
  unfold ensureComponentPresenceMatches
  refine Ensures.forM fun component _ => ?_
  exact Ensures.ite (fun _ => panics_only_if_err _) fun _ => trivial

section Entity

variable {base curr : EntitySnapshot}
  (hrisk : build.overflowChecks → ¬ schema.ComparisonsFit base curr → risk)

include hrisk

/-- The risk of a component is a risk of the entities. -/
theorem field_risk_of_comparisons {component : ComponentDef}
    (hcomponent : component ∈ schema.components) {b c : ComponentSnapshot}
    (hb : findComponent base component.id = some b)
    (hc : findComponent curr component.id = some c) :
    FieldRisk build risk component.fields b.fields c.fields :=
  fun t ht hchecks hnot => hrisk hchecks fun hfits =>
    hnot (hfits component hcomponent b c hb hc t ht)

theorem entity_has_updates_ensures :
    Ensures (entityHasUpdates build schema limits base curr) (fun _ => True)
      (PanicsOnlyIf risk) := by
  have hloop (components : List ComponentDef) (hsub : ∀ c ∈ components, c ∈ schema.components) :
      Ensures (entityHasUpdatesLoop build limits base curr components) (fun _ => True)
        (PanicsOnlyIf risk) := by
    induction components with
    | nil => exact trivial
    | cons component rest ih =>
        obtain ⟨hcomponent, hrest⟩ := List.forall_mem_cons.mp hsub
        unfold entityHasUpdatesLoop
        cases hb : findComponent base component.id with
        | none => exact ih hrest
        | some b =>
            cases hc : findComponent curr component.id with
            | none => exact ih hrest
            | some c =>
                refine (check_field_counts_ensures component b c).bind fun _ _ => ?_
                refine (any_field_changed_ensures component.id
                  (field_risk_of_comparisons hrisk hcomponent hb hc)).bind fun changed _ => ?_
                exact Ensures.ite (fun _ => trivial) fun _ => ih hrest
  unfold entityHasUpdates
  exact (ensure_component_presence_ensures base curr).bind fun _ _ =>
    hloop schema.components fun _ h => h

/-- A scan finds a mask with a bit for each field of the component, and the current values with a
value for each. The buffers do not shrink. -/
theorem scan_component_ensures {component : ComponentDef}
    (hcomponent : component ∈ schema.components) (scratch : CodecScratch) :
    Ensures (scanComponent build schema limits base curr component scratch)
      (fun r => (∀ snapshot mask, r.1 = some (snapshot, mask) →
          mask.length = component.fields.length ∧ snapshot.fields.length = component.fields.length)
        ∧ scratch.componentChanged.length ≤ r.2.componentChanged.length) (PanicsOnlyIf risk) := by
  unfold scanComponent
  cases hb : findComponent base component.id with
  | none =>
      cases hc : findComponent curr component.id with
      | none => exact ⟨fun _ _ h => (by cases h), Nat.le_refl _⟩
      | some c => exact panics_only_if_err _
  | some b =>
      cases hc : findComponent curr component.id with
      | none => exact panics_only_if_err _
      | some c =>
          refine (check_field_counts_ensures component b c).bind fun _ hcounts => ?_
          dsimp only
          refine (compute_field_mask_loop_ensures component.id _
            (field_risk_of_comparisons hrisk hcomponent hb hc)).bind fun mask hmask => ?_
          refine ⟨fun snapshot mask' h => ?_, ?_⟩
          · cases h
            refine ⟨?_, hcounts.2⟩
            have henough : component.fields.length
                ≤ (scratch.ensure schema.components.length
                  component.fields.length).fieldMask.length :=
              length_ensure_capacity _ _
            rw [hmask, List.length_take, Nat.min_eq_left henough]
          · show scratch.componentChanged.length
              ≤ (ensureCapacity scratch.componentChanged schema.components.length).length
            rw [ensureCapacity]
            split
            · rw [List.length_append]
              exact Nat.le_add_right _ _
            · exact Nat.le_refl _

end Entity

/-! ## Snapshots -/

theorem ensure_sorted_ensures (prev : Option UInt32) (ids : List UInt32) :
    Ensures (ensureSorted prev ids) (fun _ => True) (PanicsOnlyIf risk) := by
  induction ids generalizing prev with
  | nil => exact trivial
  | cons id rest ih =>
      unfold ensureSorted
      exact (ensure_after_ensures prev id).bind fun _ _ => ih (some id)

theorem ensure_entities_sorted_ensures (entities : List EntitySnapshot) :
    Ensures (ensureEntitiesSorted entities) (fun _ => True) (PanicsOnlyIf risk) :=
  ensure_sorted_ensures none _

/-- The comparisons of all entities that two snapshots have both. -/
def Schema.SnapshotsFit (schema : Schema) (baseline current : Snapshot) : Prop :=
  ∀ b ∈ baseline.entities, ∀ c ∈ current.entities, b.id = c.id → schema.ComparisonsFit b c

section Snapshot

variable {baseline current : Snapshot}
  (hrisk : build.overflowChecks → ¬ schema.SnapshotsFit baseline current → risk)

include hrisk

/-- The risk of two entities that a walk takes together is a risk of the snapshots. -/
theorem comparisons_risk_of_step {b c : EntitySnapshot}
    (hstep : .both b c ∈ mergeSteps baseline current) (hchecks : build.overflowChecks)
    (hnot : ¬ schema.ComparisonsFit b c) : risk := by
  obtain ⟨hlt, hgt⟩ := not_lt_of_mem_walk hstep
  have hraw :
      b.id.raw = c.id.raw := UInt32.le_antisymm (UInt32.not_lt.mp hgt) (UInt32.not_lt.mp hlt)
  have hkey : b.id = c.id := congrArg EntityId.mk hraw
  exact hrisk hchecks fun hfits =>
    hnot (hfits b (mem_of_first hstep rfl) c (mem_of_second hstep rfl) hkey)

theorem diff_counts_ensures :
    Ensures (diffCounts build schema limits baseline current) (fun _ => True)
      (PanicsOnlyIf risk) := by
  unfold diffCounts
  refine Ensures.foldlM trivial fun step hstep counts _ => ?_
  cases step with
  | left b => exact trivial
  | right c => exact trivial
  | both b c =>
      refine (entity_has_updates_ensures (comparisons_risk_of_step hrisk hstep)).bind fun _ _ => ?_
      exact Ensures.ite (fun _ => trivial) fun _ => trivial

theorem count_sparse_entries_ensures (scratch : CodecScratch) :
    Ensures (countSparseUpdateEntries build schema limits baseline current scratch) (fun _ => True)
      (PanicsOnlyIf risk) := by
  unfold countSparseUpdateEntries
  refine Ensures.foldlM trivial fun step hstep state _ => ?_
  cases step with
  | left b => exact trivial
  | right c => exact trivial
  | both b c =>
      have hpair := comparisons_risk_of_step hrisk hstep
      refine (entity_has_updates_ensures hpair).bind fun _ _ => ?_
      refine Ensures.ite (fun _ => ?_) fun _ => trivial
      refine Ensures.foldlM trivial fun component hcomponent state _ => ?_
      refine (scan_component_ensures hpair hcomponent _).bind fun scanned _ => ?_
      obtain ⟨result, scratch⟩ := scanned
      cases result with
      | none => exact trivial
      | some found => exact trivial

theorem select_update_encoding_ensures (scratch : CodecScratch) :
    Ensures (selectUpdateEncoding build schema limits baseline current scratch) (fun _ => True)
      (PanicsOnlyIf risk) := by
  unfold selectUpdateEncoding
  refine Ensures.bind (q := fun _ => True) ?_ fun sizes _ => ?_
  · refine Ensures.foldlM trivial fun step hstep state _ => ?_
    cases step with
    | left b => exact trivial
    | right c => exact trivial
    | both b c =>
        have hpair := comparisons_risk_of_step hrisk hstep
        refine Ensures.foldlM trivial fun component hcomponent state _ => ?_
        refine (scan_component_ensures hpair hcomponent _).bind fun scanned _ => ?_
        obtain ⟨result, scratch⟩ := scanned
        cases result with
        | none => exact trivial
        | some found => exact Ensures.ite (fun _ => trivial) fun _ => trivial
  · exact Ensures.ite (fun _ => trivial) fun _ =>
      Ensures.ite (fun _ => trivial) fun _ => trivial

end Snapshot

end Sdec
