import Sdec.Diff.Change
import Sdec.Format.WellFormed

/-!
# The order of a delta

The lists of the delta between two snapshots whose entities ascend: they ascend too, and each says
of which entities of the snapshots it speaks.
-/

namespace Sdec

open Rust Codec Sorted

variable {build : Build} {schema : Schema} {baseline current : Snapshot}

/-- An update of a component lists its changed fields. -/
theorem component_update_eq_some {base curr : EntitySnapshot} {component : ComponentDef}
    {update : DeltaUpdateComponent} :
    componentUpdate build base curr component = some update ↔
      ∃ b c, findComponent base component.id = some b ∧ findComponent curr component.id = some c
        ∧ (changedMask build component.id component.fields b.fields c.fields).any id
        ∧ update = ⟨component.id, changedFields 0
          (changedMask build component.id component.fields b.fields c.fields) c.fields⟩ := by
  rw [componentUpdate, scanned]
  cases findComponent base component.id with
  | none => simp
  | some b =>
      cases findComponent curr component.id with
      | none => simp
      | some c =>
          simp only [Option.some.injEq, exists_and_left, exists_eq_left',
            Option.ite_none_right_eq_some]
          exact and_congr_right fun _ => eq_comm

/-- An update lists at least one component. -/
theorem entity_update_eq_some {base curr : EntitySnapshot} {update : DeltaUpdateEntity} :
    entityUpdate build schema base curr = some update
      ↔ componentUpdates build schema base curr ≠ []
        ∧ update = ⟨curr.id, componentUpdates build schema base curr⟩ := by
  rw [entityUpdate]
  by_cases hempty : (componentUpdates build schema base curr).isEmpty
  · rw [if_pos hempty]
    exact ⟨fun h => (by cases h), fun h => absurd (List.isEmpty_iff.mp hempty) h.1⟩
  · rw [if_neg hempty]
    have hne : componentUpdates build schema base curr ≠ [] := fun h => hempty (h ▸ rfl)
    exact ⟨fun h => ⟨hne, (Option.some.inj h).symm⟩, fun h => congrArg some h.2.symm⟩

/-- The ids that a partial map picks from the steps of a merge loop ascend. -/
theorem pairwise_filterMap_steps {α : Type} {f : Step EntitySnapshot EntitySnapshot → Option α}
    {id : α → UInt32} (hbaseline : Ascending baseline.entities)
    (hcurrent : Ascending current.entities)
    (hf : ∀ step ∈ mergeSteps baseline current, ∀ a, f step = some a →
      id a = step.key entityKey entityKey) :
    ((mergeSteps baseline current).filterMap f).Pairwise fun a b => id a < id b := by
  have halign := aligned_walk hbaseline hcurrent
  refine List.pairwise_filterMap.mpr
    (halign.ascending.imp_of_mem fun {s t} hs ht hlt a ha b hb => ?_)
  rw [hf s hs a ha, hf t ht b hb]
  exact hlt

section Ascending

variable (hbaseline : Ascending baseline.entities) (hcurrent : Ascending current.entities)

include hbaseline hcurrent

theorem diff_destroys_ascend :
    (diff build schema baseline current).destroys.Pairwise fun a b => a.raw < b.raw := by
  refine pairwise_filterMap_steps hbaseline hcurrent fun step _ id hid => ?_
  cases step with
  | left b => cases hid; rfl
  | right c => cases hid
  | both b c => cases hid

theorem diff_creates_ascend : Ascending (diff build schema baseline current).creates := by
  refine pairwise_filterMap_steps hbaseline hcurrent fun step _ entity hentity => ?_
  cases step with
  | left b => cases hentity
  | right c => cases hentity; rfl
  | both b c => cases hentity

theorem diff_updates_ascend :
    (diff build schema baseline current).updates.Pairwise fun a b => a.id.raw < b.id.raw := by
  refine pairwise_filterMap_steps hbaseline hcurrent fun step hstep update hupdate => ?_
  cases step with
  | left b => cases hupdate
  | right c => cases hupdate
  | both b c =>
      obtain ⟨-, rfl⟩ := entity_update_eq_some.mp hupdate
      exact ((mem_walk_both hbaseline hcurrent).mp hstep).2.2.symm

/-- The destroyed entities are those of the baseline that are gone. -/
theorem mem_diff_destroys {id : EntityId} :
    id ∈ (diff build schema baseline current).destroys
      ↔ (∃ b ∈ baseline.entities, b.id = id) ∧ ∀ c ∈ current.entities, c.id ≠ id := by
  rw [diff, diffSteps, List.mem_filterMap]
  constructor
  · rintro ⟨step, hstep, hid⟩
    cases step with
    | left b =>
        cases hid
        obtain ⟨hb, hno⟩ := (mem_walk_left hbaseline hcurrent).mp hstep
        exact ⟨⟨b, hb, rfl⟩, fun c hc h => hno c hc (congrArg EntityId.raw h)⟩
    | right c => cases hid
    | both b c => cases hid
  · rintro ⟨⟨b, hb, rfl⟩, hno⟩
    exact ⟨.left b, (mem_walk_left hbaseline hcurrent).mpr
      ⟨hb, fun c hc h => hno c hc (entity_id_eq h)⟩, rfl⟩

/-- The created entities are those that the baseline does not have. -/
theorem mem_diff_creates {entity : EntitySnapshot} :
    entity ∈ (diff build schema baseline current).creates
      ↔ entity ∈ current.entities ∧ ∀ b ∈ baseline.entities, b.id ≠ entity.id := by
  rw [diff, diffSteps, List.mem_filterMap]
  constructor
  · rintro ⟨step, hstep, hentity⟩
    cases step with
    | left b => cases hentity
    | right c =>
        cases hentity
        obtain ⟨hc, hno⟩ := (mem_walk_right hbaseline hcurrent).mp hstep
        exact ⟨hc, fun b hb h => hno b hb (congrArg EntityId.raw h)⟩
    | both b c => cases hentity
  · rintro ⟨hc, hno⟩
    exact ⟨.right entity, (mem_walk_right hbaseline hcurrent).mpr
      ⟨hc, fun b hb h => hno b hb (entity_id_eq h)⟩, rfl⟩

/-- The updates are those of the entities in both snapshots. -/
theorem mem_diff_updates {update : DeltaUpdateEntity} :
    update ∈ (diff build schema baseline current).updates
      ↔ ∃ b ∈ baseline.entities, ∃ c ∈ current.entities, b.id = c.id
        ∧ entityUpdate build schema b c = some update := by
  rw [diff, diffSteps, List.mem_filterMap]
  constructor
  · rintro ⟨step, hstep, hupdate⟩
    cases step with
    | left b => cases hupdate
    | right c => cases hupdate
    | both b c =>
        obtain ⟨hb, hc, hid⟩ := (mem_walk_both hbaseline hcurrent).mp hstep
        exact ⟨b, hb, c, hc, entity_id_eq hid, hupdate⟩
  · rintro ⟨b, hb, c, hc, hid, hupdate⟩
    exact ⟨.both b c, (mem_walk_both hbaseline hcurrent).mpr ⟨hb, hc, congrArg EntityId.raw hid⟩,
      hupdate⟩

end Ascending

/-- No update is empty. -/
theorem diff_updates_nonempty {update : DeltaUpdateEntity}
    (h : update ∈ (diff build schema baseline current).updates) : update.components ≠ [] := by
  obtain ⟨step, -, hstep⟩ := List.mem_filterMap.mp h
  cases step with
  | left b => cases hstep
  | right c => cases hstep
  | both b c =>
      obtain ⟨hne, rfl⟩ := entity_update_eq_some.mp hstep
      exact hne

end Sdec
